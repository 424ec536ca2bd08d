import JLua.HeapWrites
import JLua.Sweep

/-!
# Barriers

A table that was written is gray again, so that the atomic step looks at it once more; for other
objects the collector moves forward while it marks, and gives up their color when it sweeps.
-/

namespace JLua.Collector

set_option autoImplicit false

namespace State
variable {s s' s'' : State} {o x : Addr} {b b' : Body} {v key : TValue} {h h' : Table}

/-! ### Colors -/

theorem keeps_of_black (hc : s.color o = .black) : s.keeps o = true :=
  keeps_of_marked (by rw [State.marked, hc]; rfl)

/-- An object gets the current white while the collector does not mark. It may have been dead. -/
theorem makewhite_inv (hs : s.Inv) (hstate : s.gcstate ≠ .propagate) (hb : s.body o = some b)
    (hrefs : ∀ r ∈ s.refs b, s.Holds r) : (s.makewhite o).Inv := by
  have hsweeping := hs.sweeping hstate
  have ho : (s.makewhite o).color o = .white s.currentwhite := setColor_self
  have hcolor : ∀ x, x ≠ o → (s.makewhite o).color x = s.color x := fun x hx => setColor_of_ne hx
  have hkeep : (s.makewhite o).keeps o = true := keeps_iff.mpr (.inl (isdead_of_white ho))
  have hkeeps : ∀ x, x ≠ o → (s.makewhite o).keeps x = s.keeps x := fun x hx =>
    keeps_congr rfl (hcolor x hx) rfl
  have hholds : ∀ r, s.Holds r → (s.makewhite o).Holds r := fun r hr => by
    refine ⟨hr.1, ?_⟩
    by_cases hx : r.2 = o
    · rw [hx]
      exact hkeep
    · rw [hkeeps _ hx]
      exact hr.2
  have hl := hs.lists
  refine ⟨⟨hl.rootNodup, hl.mem_root, hl.tmudata, hl.finalized, hl.strNodup, hl.mem_strt,
    hl.uvNodup, hl.mem_uvhead, hl.openNodup, hl.mem_open, hl.thread, hl.main⟩,
    ⟨fun x b₁ hx hk r hr => ?_, fun r hr => hholds r (hs.sound.roots r hr), hs.sound.fixed⟩,
    fun x b₁ hx hm => ?_, fun hst => absurd hst hstate,
    fun _ => ⟨fun x b₁ hx => ?_, fun x hx => ?_⟩⟩
  · refine hholds r ?_
    by_cases hxo : x = o
    · subst hxo
      obtain rfl := Option.some.inj (hb.symm.trans hx)
      exact hrefs r hr
    · rw [hkeeps x hxo] at hk
      exact hs.sound.refs x b₁ hx hk r hr
  · by_cases hxo : x = o
    · rw [State.marked, hxo, ho] at hm
      cases hm
    · rw [State.marked, hcolor x hxo] at hm
      rw [hcolor x hxo]
      exact hs.colored x b₁ hx hm
  · by_cases hxo : x = o
    · exact .inl (hxo ▸ ho)
    · rw [hcolor x hxo]
      exact hsweeping.pending x b₁ hx
  · by_cases hxo : x = o
    · exact isdead_of_white (hxo ▸ ho)
    · have hdead := hsweeping.tmudata x hx
      unfold State.isdead at hdead ⊢
      rw [hcolor x hxo]
      exact hdead

section Barrierback
variable (hc : s.color o = .black)

theorem color_barrierback : (s.barrierback o).color o = .gray := setColor_self

theorem color_barrierback_of_ne (hx : x ≠ o) : (s.barrierback o).color x = s.color x :=
  setColor_of_ne hx

include hc

theorem marked_barrierback : (s.barrierback o).marked x ↔ s.marked x := by
  by_cases hx : x = o
  · rw [State.marked, State.marked, hx, color_barrierback, hc]
    exact Iff.rfl
  · rw [State.marked, State.marked, color_barrierback_of_ne hx]

theorem keeps_barrierback : (s.barrierback o).keeps x = s.keeps x := by
  by_cases hx : x = o
  · rw [hx, keeps_of_black hc]
    exact keeps_of_marked ((marked_barrierback hc).mpr (by rw [State.marked, hc]; rfl))
  · exact keeps_congr rfl (color_barrierback_of_ne hx) rfl

theorem isdead_barrierback (hx : s.isdead x = false) : (s.barrierback o).isdead x = false := by
  by_cases hxo : x = o
  · refine isdead_of_marked ((marked_barrierback hc).mpr ?_)
    rw [State.marked, hxo, hc]
    rfl
  · unfold State.isdead at hx ⊢
    rw [color_barrierback_of_ne hxo]
    exact hx

theorem Holds.barrierback {r : Ref} (hr : s.Holds r) : (s.barrierback o).Holds r :=
  ⟨hr.1, by rw [keeps_barrierback hc]; exact hr.2⟩

/-- The table waits for the atomic step, with whatever it refers to. -/
theorem Frontier.barrierback (hf : s.Frontier) (hb : s.body o = some (.table h)) :
    (s.barrierback o).Frontier := by
  have hagain : (s.barrierback o).Listed (o :: s.grayagain) := fun x hx => by
    rcases List.mem_cons.mp hx with rfl | hx
    · exact ⟨_, hb, rfl⟩
    · exact hf.grayagain x hx
  refine ⟨fun x b₁ hx hc₁ htm r hr => ?_, fun x b₁ hx hc₁ hl₁ => ?_, hf.gray, hagain, hf.weak⟩
  · have hxo : x ≠ o := fun hxo => by
      rw [hxo, color_barrierback] at hc₁
      cases hc₁
    rw [color_barrierback_of_ne hxo] at hc₁
    exact (marked_barrierback hc).mpr (hf.black x b₁ hx hc₁ htm r hr)
  · by_cases hxo : x = o
    · exact .inr (.inl (hxo ▸ List.mem_cons_self))
    · rw [color_barrierback_of_ne hxo] at hc₁
      rcases hf.waits x b₁ hx hc₁ hl₁ with hg | hg | hg
      · exact .inl hg
      · exact .inr (.inl (List.mem_cons_of_mem _ hg))
      · exact .inr (.inr hg)

theorem barrierback_inv (hs : s.Inv) (hb : s.body o = some (.table h)) :
    (s.barrierback o).Inv := by
  have hl := hs.lists
  have hcolored : (s.barrierback o).Colored := fun x b₁ hx hm₁ => by
    by_cases hxo : x = o
    · subst hxo
      obtain rfl := Option.some.inj (hb.symm.trans hx)
      rfl
    · rw [color_barrierback_of_ne hxo]
      exact hs.colored x b₁ hx ((marked_barrierback hc).mp hm₁)
  refine ⟨⟨hl.rootNodup, hl.mem_root, hl.tmudata, hl.finalized, hl.strNodup, hl.mem_strt,
    hl.uvNodup, hl.mem_uvhead, hl.openNodup, hl.mem_open, hl.thread, hl.main⟩,
    ⟨fun x b₁ hx hk r hr => ?_, fun r hr => (hs.sound.roots r hr).barrierback hc,
      hs.sound.fixed⟩,
    hcolored, fun hst => ?_, fun hst => ?_⟩
  · rw [keeps_barrierback hc] at hk
    exact (hs.sound.refs x b₁ hx hk r hr).barrierback hc
  · have hmark := hs.marking hst
    exact ⟨(hmark.tri.frontier.barrierback hc hb).tri hcolored hl.tmudata,
      fun x b₁ hx => isdead_barrierback hc (hmark.alive x b₁ hx),
      (marked_barrierback hc).mpr hmark.main,
      fun r hr => (marked_barrierback hc).mpr (hmark.registry r hr)⟩
  · have hsweeping := hs.sweeping hst
    refine ⟨fun x b₁ hx => ?_, fun x hx => isdead_barrierback hc (hsweeping.tmudata x hx)⟩
    by_cases hxo : x = o
    · subst hxo
      rcases hsweeping.pending x b₁ hx with hw | hp
      · rw [hc] at hw
        cases hw
      · exact .inr hp
    · rw [color_barrierback_of_ne hxo]
      exact hsweeping.pending x b₁ hx

end Barrierback

/-! ### Tables -/

theorem objbarriert_write (s : State) (o t a : Addr) (b' : Body) :
    (s.setBody o b').objbarriert t a = (s.objbarriert t a).setBody o b' := by
  change (if s.iswhite a && s.color t = .black then _ else _) =
    (if s.iswhite a && s.color t = .black then _ else _ : State).setBody o b'
  split <;> rfl

theorem barriert_write (s : State) (o t : Addr) (b' : Body) (v : TValue) :
    (s.setBody o b').barriert t v = (s.barriert t v).setBody o b' := by
  cases v with
  | object a => exact objbarriert_write s o t a b'
  | _ => rfl

/-- What the barrier of a table that gets some references does. -/
structure Bars (o : Addr) (refs : List Ref) (s s' : State) : Prop where
  inv : s'.Inv
  heap : s'.heap = s.heap
  tmudata : s'.tmudata = s.tmudata
  gcstate : s'.gcstate = s.gcstate
  marked : ∀ x, s.marked x → s'.marked x
  holds : ∀ r, s.Holds r → s'.Holds r
  black : s'.color o = .black → s.color o = .black ∧ ∀ r ∈ refs, s'.marked r.2

theorem bars_objbarriert (hs : s.Inv) (hb : s.body o = some (.table h)) (role : Role) (a : Addr) :
    Bars o [(role, a)] s (s.objbarriert o a) := by
  unfold objbarriert
  split
  next hcond =>
    rw [Bool.and_eq_true, decide_eq_true_iff] at hcond
    refine ⟨barrierback_inv hcond.2 hs hb, rfl, rfl, rfl,
      fun x => (marked_barrierback hcond.2).mpr, fun r hr => hr.barrierback hcond.2, fun hc => ?_⟩
    rw [color_barrierback] at hc
    cases hc
  next hcond =>
    refine ⟨hs, rfl, rfl, rfl, fun _ => id, fun _ => id, fun hc => ⟨hc, fun r hr => ?_⟩⟩
    obtain rfl := List.mem_singleton.mp hr
    by_contra hm
    exact hcond (by rw [iswhite_iff.mpr hm, hc]; rfl)

theorem bars_barriert (hs : s.Inv) (hb : s.body o = some (.table h)) (v : TValue) :
    Bars o v.refs s (s.barriert o v) := by
  cases v with
  | object a => exact bars_objbarriert hs hb .value a
  | _ =>
    refine ⟨hs, rfl, rfl, rfl, fun _ => id, fun _ => id, fun hc => ⟨hc, fun r hr => ?_⟩⟩
    cases hr

section Bars
variable {refs refs' : List Ref} (hbars : Bars o refs s s')
include hbars

theorem Bars.body : s'.body = s.body := by
  funext x
  rw [State.body, State.body, hbars.heap]

theorem Bars.trans (h : Bars o refs' s' s'') : Bars o (refs ++ refs') s s'' := by
  refine ⟨h.inv, h.heap.trans hbars.heap, h.tmudata.trans hbars.tmudata,
    h.gcstate.trans hbars.gcstate, fun x hx => h.marked x (hbars.marked x hx),
    fun r hr => h.holds r (hbars.holds r hr), fun hc => ?_⟩
  obtain ⟨hc', hm'⟩ := h.black hc
  obtain ⟨hc₀, hm⟩ := hbars.black hc'
  refine ⟨hc₀, fun r hr => ?_⟩
  rcases List.mem_append.mp hr with hr | hr
  · exact h.marked _ (hm r hr)
  · exact hm' r hr

/-- After the barrier the table may have the new references besides the old ones. -/
theorem Bars.write_inv (hs : s.Inv) (hb : s.body o = some (.table h)) (hk : s.keeps o = true)
    (hholds : ∀ r ∈ refs, s.Holds r)
    (hrefs : ∀ r ∈ h'.refs false false, r ∈ h.refs false false ∨ r ∈ refs) :
    (s'.setBody o (.table h')).Inv := by
  have hb' : s'.body o = some (.table h) := by rw [hbars.body]; exact hb
  refine State.write_inv hb' (.table h h') hbars.inv (fun r hr => ?_) fun hst hc htm r hr => ?_
  · rcases hrefs r hr with hr | hr
    · exact hbars.holds r (hs.sound.refs o _ hb hk r hr)
    · exact hbars.holds r (hholds r hr)
  · obtain ⟨hc₀, hm⟩ := hbars.black hc
    rcases hrefs r hr with hr | hr
    · have hf := (hs.marking (by rw [← hbars.gcstate, hst])).tri.frontier
      exact hbars.marked _ (hf.black o _ hb hc₀ (by rw [← hbars.tmudata]; exact htm) r hr)
    · exact hm r hr

end Bars

/-- A table gets an entry. -/
theorem settable_inv (hs : s.Inv) (hb : s.body o = some (.table h)) (hk : s.keeps o = true)
    (hkey : ∀ r ∈ key.refs, s.Holds r) (hv : ∀ r ∈ v.refs, s.Holds r)
    (hrefs : ∀ r ∈ h'.refs false false, r ∈ h.refs false false ∨ r ∈ key.refs ∨ r ∈ v.refs) :
    (((s.setBody o (.table h')).barriert o key).barriert o v).Inv := by
  rw [barriert_write, barriert_write]
  have hbars := bars_barriert hs hb key
  have hbars' := bars_barriert hbars.inv (by rw [hbars.body]; exact hb) v
  refine (hbars.trans hbars').write_inv hs hb hk (fun r hr => ?_) fun r hr => ?_
  · exact (List.mem_append.mp hr).elim (hkey r) (hv r)
  · exact (hrefs r hr).imp_right List.mem_append.mpr

/-- A table gets another metatable. -/
theorem metatable_inv {mt : Addr} (hs : s.Inv) (hb : s.body o = some (.table h))
    (hk : s.keeps o = true) (hmt : s.Holds (.table, mt)) :
    ((s.setBody o (.table { h with metatable := some mt })).objbarriert o mt).Inv := by
  rw [objbarriert_write]
  refine (bars_objbarriert hs hb .table mt).write_inv hs hb hk (fun r hr => ?_) fun r hr => ?_
  · rwa [List.mem_singleton.mp hr]
  · rcases List.mem_append.mp hr with hr | hr
    · exact .inr hr
    · exact .inl (List.mem_append_right _ hr)

/-! ### Other objects -/

section Forward
variable (hb : s.body o = some b) (hw : Rewrites b b')
include hb hw

theorem marktable_write (t : Addr) :
    (s.setBody o b').marktable t = (s.marktable t).setBody o b' := by
  by_cases ht : t = o
  · subst ht
    unfold marktable
    rw [write_self hb, hb]
    cases hw with
    | table h h' =>
      change (if s.iswhite t then _ else _) = (if s.iswhite t then _ else _ : State).setBody t _
      split <;> rfl
    | _ => rfl
  · unfold marktable
    rw [body_setBody ht]
    split
    · change (if s.iswhite t then _ else _) = (if s.iswhite t then _ else _ : State).setBody o _
      split <;> rfl
    · rfl

theorem marktableoption_write (mt : Option Addr) :
    (s.setBody o b').marktableoption mt = (s.marktableoption mt).setBody o b' := by
  cases mt with
  | none => rfl
  | some t => exact marktable_write hb hw t

theorem reallymarkobject_write {a : Addr} (ha : a ≠ o) (hk : ∀ uv, s.body a ≠ some (.upval uv)) :
    (s.setBody o b').reallymarkobject a = (s.reallymarkobject a).setBody o b' := by
  unfold reallymarkobject reallymarkvalue
  rw [body_setBody ha]
  cases hba : s.body a with
  | none => rfl
  | some b₁ =>
    cases b₁ with
    | upval uv => exact absurd hba (hk uv)
    | userdata mt env =>
      have hmt := marktableoption_write (s := s.setColor a .black) hb hw mt
      have hb₁ : ((s.setColor a .black).marktableoption mt).body o = some b := by
        rw [(marks_marktableoption _ mt).body]
        exact hb
      have henv := marktable_write hb₁ hw env
      rw [← hmt] at henv
      exact henv
    | _ => rfl

end Forward

theorem objbarrier_spec {a : Addr} (hs : s.Inv) (hb : s.body o = some b)
    (ha : s.Holds (.value, a)) :
    (s.objbarrier o a).Inv ∧ (s.objbarrier o a).heap = s.heap ∧
      (s.objbarrier o a).tmudata = s.tmudata ∧ (s.objbarrier o a).gcstate = s.gcstate ∧
      (∀ r, s.Holds r → (s.objbarrier o a).Holds r) ∧
      (s.gcstate = .propagate → (s.objbarrier o a).color o = .black →
        s.color o = .black ∧ (∀ x, s.marked x → (s.objbarrier o a).marked x) ∧
          (s.objbarrier o a).marked a) := by
  unfold objbarrier
  split
  swap
  next hcond =>
    refine ⟨hs, rfl, rfl, rfl, fun _ => id, fun _ hc => ⟨hc, fun _ => id, ?_⟩⟩
    by_contra hm
    exact hcond (by rw [iswhite_iff.mpr hm, hc]; rfl)
  next hcond =>
  rw [Bool.and_eq_true, decide_eq_true_iff, iswhite_iff] at hcond
  unfold barrierf
  split
  next hst =>
    obtain ⟨⟨b₁, hb₁, -⟩, -⟩ := ha
    have hm := marks_reallymarkobject (hs.typed hst) hcond.1
    have hs₁ := hs.marks hst hm
    have hst₁ : (s.reallymarkobject a).gcstate = .propagate := by rw [hm.eq, hst]
    refine ⟨hs₁, hm.heap, by rw [hm.eq], by rw [hm.eq], fun r hr => ?_, fun _ _ =>
      ⟨hcond.2, fun x => hm.marked, marked_reallymarkobject (hs.typed hst) hb₁⟩⟩
    have hfits : (s.reallymarkobject a).Fits r := hr.1.congr hm.body
    obtain ⟨b₂, hb₂, -⟩ := id hfits
    exact ⟨hfits, keeps_iff.mpr (.inl ((hs₁.marking hst₁).alive _ _ hb₂))⟩
  next hst =>
    have hkeep := keeps_of_black hcond.2
    refine ⟨makewhite_inv hs hst hb (hs.sound.refs o b hb hkeep), rfl, rfl, rfl, fun r hr => ?_,
      fun hst' => absurd hst' hst⟩
    refine ⟨hr.1, ?_⟩
    by_cases hx : r.2 = o
    · rw [hx]
      exact keeps_iff.mpr (.inl (isdead_of_white setColor_self))
    · have hsame : (s.makewhite o).keeps r.2 = s.keeps r.2 :=
        keeps_congr rfl (setColor_of_ne hx) rfl
      rw [hsame]
      exact hr.2

theorem objbarrier_write {a : Addr} (hb : s.body o = some b) (hw : Rewrites b b')
    (hk : ∀ uv, s.body a ≠ some (.upval uv)) :
    (s.setBody o b').objbarrier o a = (s.objbarrier o a).setBody o b' := by
  change (if s.iswhite a && s.color o = .black then _ else _) =
    (if s.iswhite a && s.color o = .black then _ else _ : State).setBody o b'
  split
  next hcond =>
    rw [Bool.and_eq_true, decide_eq_true_iff, iswhite_iff] at hcond
    have hne : a ≠ o := fun hao => hcond.1 (by rw [State.marked, hao, hcond.2]; rfl)
    change (if s.gcstate = .propagate then _ else _) =
      (if s.gcstate = .propagate then _ else _ : State).setBody o b'
    split
    · exact reallymarkobject_write hb hw hne hk
    · rfl
  next => rfl

/-- An object gets one more reference, and the collector is told of it. -/
theorem forward_inv {a : Addr} (hs : s.Inv) (hb : s.body o = some b) (hw : Rewrites b b')
    (hk : s.keeps o = true) (ha : s.Holds (.value, a))
    (hrefs : ∀ r ∈ s.refs b', r ∈ s.refs b ∨ r.2 = a ∧ s.Holds r) :
    ((s.setBody o b').objbarrier o a).Inv := by
  have hnot : ∀ uv, s.body a ≠ some (.upval uv) := fun uv huv => by
    obtain ⟨⟨b₁, hb₁, hacc⟩, -⟩ := ha
    obtain rfl := Option.some.inj (hb₁.symm.trans huv)
    exact hacc rfl
  rw [objbarrier_write hb hw hnot]
  obtain ⟨hs₁, hheap, htm, hst, hholds, hblack⟩ := objbarrier_spec hs hb ha
  generalize s.objbarrier o a = s₁ at *
  have hbody : s₁.body = s.body := by
    funext x
    rw [State.body, State.body, hheap]
  have hb₁ : s₁.body o = some b := by rw [hbody]; exact hb
  have hrefs₁ : s₁.refs b' = s.refs b' := by rw [refs_congr hbody]
  refine write_inv hb₁ hw hs₁ (fun r hr => ?_) fun hst₁ hc htm₁ r hr => ?_
  · rw [hrefs₁] at hr
    rcases hrefs r hr with hr | hr
    · exact hholds r (hs.sound.refs o b hb hk r hr)
    · exact hholds r hr.2
  · rw [hrefs₁] at hr
    rw [hst] at hst₁
    obtain ⟨hc₀, hmono, hma⟩ := hblack hst₁ hc
    rcases hrefs r hr with hr | hr
    · exact hmono _ ((hs.marking hst₁).tri.frontier.black o b hb hc₀ (htm ▸ htm₁) r hr)
    · rw [hr.1]
      exact hma

end State
end JLua.Collector
