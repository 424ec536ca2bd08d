import JLua.CollectorInvariant
import Mathlib.Data.List.Forall2

/-!
# The atomic step

The marking ends with a step in which the program does not run. Whatever it may have changed behind
the collector's back is looked at again: open upvalues, weak tables, the objects of `grayagain`,
and the userdata that are about to be finalized. Then what is marked keeps only what is marked.
-/

namespace JLua.Collector

set_option autoImplicit false

namespace State
variable {s s' s'' : State} {o x : Addr} {c : Color} {b : Body} {v : TValue} {T T' : Addr → Prop}

/-! ### Open upvalues -/

theorem marks_remarkupval (ht : s.Typed) (uv : Addr) : Marks s (s.remarkupval uv) := by
  unfold remarkupval
  split
  next => 
    split
    next => exact marks_markvalue ht _
    next => exact Marks.refl s
  next => exact Marks.refl s

theorem marks_remarkupvals (ht : s.Typed) : Marks s s.remarkupvals :=
  marks_foldl fun _ hs' uv _ => marks_remarkupval (ht.congr hs'.body) uv

theorem eq_opened_of_isOpened (h : b.isOpened = true) :
    ∃ th level, b = .upval (.opened th level) := by
  unfold Body.isOpened at h
  split at h
  next th level => exact ⟨th, level, rfl⟩
  next => cases h

theorem color_eq_gray_of_opened (hm : s.marked o) (hb : b.isOpened = true)
    (hmay : b.mayBe (s.color o) = true) : s.color o = .gray := by
  obtain ⟨th, level, rfl⟩ := eq_opened_of_isOpened hb
  cases hc : s.color o with
  | white bit =>
    rw [State.marked, hc] at hm
    cases hm
  | gray => rfl
  | black =>
    rw [hc] at hmay
    cases hmay

/-- What a gray open upvalue refers to is marked now. -/
theorem done_remarkupvals (ht : s.Typed) (hl : s.Lists) (hb : s.body o = some b)
    (hopened : b.isOpened = true) (hc : s.color o = .gray) : s.remarkupvals.Done o := by
  have hm : s.marked o := by rw [State.marked, hc]; rfl
  obtain ⟨th, level, rfl⟩ := eq_opened_of_isOpened hopened
  have huv : o ∈ s.uvhead := (hl.mem_uvhead o).mpr ⟨th, level, hb⟩
  intro b' hb' r hr
  rw [(marks_remarkupvals ht).body, hb] at hb'
  obtain rfl := Option.some.inj hb'
  rw [keptRefs_congr (marks_remarkupvals ht).body] at hr
  refine marked_foldl (fun _ hs' uv _ => marks_remarkupval (ht.congr hs'.body) uv) huv
    fun s' hs' => ?_
  have hb'' : s'.body o = some (.upval (.opened th level)) := by rw [hs'.body, hb]
  have hc' : s'.color o = .gray := (hs'.keeps o hm).trans hc
  rw [remarkupval, hb'']
  dsimp only
  rw [if_pos hc', value_congr hs'.body]
  exact marked_markvalue (fun r hr => (ht o _ hb r hr).congr hs'.body) r hr

theorem tri_remarkupvals (ht : s.Typed) (hl : s.Lists) (h : Tri T s) :
    Tri (fun o => T o ∧ ¬∃ th level, s.body o = some (.upval (.opened th level)))
      s.remarkupvals := by
  have hmarks := marks_remarkupvals ht
  have h' := hmarks.tri h
  refine ⟨fun o b hb hm => ?_, h'.gray, h'.grayagain, h'.weak⟩
  obtain ⟨hmay, hcase⟩ := h'.settles o b hb hm
  rw [hmarks.body] at hb
  refine ⟨hmay, ?_⟩
  by_cases hopened : b.isOpened = true
  · have hdone : s.remarkupvals.Done o := by
      by_cases hold : s.marked o
      · have hmay' : b.mayBe (s.color o) = true := hmarks.keeps o hold ▸ hmay
        exact done_remarkupvals ht hl hb hopened (color_eq_gray_of_opened hold hopened hmay')
      · obtain ⟨b', hb', ⟨hl', -⟩ | ⟨-, -, hdone⟩⟩ := hmarks.fresh o hold hm
        · obtain rfl := Option.some.inj (hb.symm.trans hb')
          obtain ⟨th, level, rfl⟩ := eq_opened_of_isOpened hopened
          cases hl'
        · exact hdone
    refine .inr (.inr ⟨hdone, fun hlisted => ?_⟩)
    obtain ⟨th, level, rfl⟩ := eq_opened_of_isOpened hopened
    cases hlisted
  · have hnot : ¬∃ th level, s.body o = some (.upval (.opened th level)) := by
      rintro ⟨th, level, hb'⟩
      obtain rfl := Option.some.inj (hb.symm.trans hb')
      exact hopened rfl
    rcases hcase with hcase | ⟨hT, hcase⟩ | hcase
    · exact .inl hcase
    · exact .inr (.inl ⟨⟨hT, hnot⟩, hcase⟩)
    · exact .inr (.inr hcase)

/-! ### The other lists -/

/-- The weak tables are traversed again. -/
theorem Tri.regrayweak (h : Tri T s) (hg : s.gray = [])
    (hT : ∀ o, T o → ¬∃ th level, s.body o = some (.upval (.opened th level))) :
    Tri (fun o => o ∈ s.grayagain ∨ o ∈ s.tmudata) s.regrayweak := by
  refine ⟨fun o b hb hm => ?_, h.weak, h.grayagain, fun o ho => (by cases ho)⟩
  obtain ⟨hmay, hcase⟩ := h.settles o b hb hm
  refine ⟨hmay, ?_⟩
  rcases hcase with ⟨-, -, hgray⟩ | ⟨hTo, hcase⟩ | ⟨hdone, hcase⟩
  · rw [hg] at hgray
    cases hgray
  · rcases hcase with ⟨hl, hc, hagain | hweak⟩ | hopened | ⟨hk, htm⟩
    · exact .inr (.inl ⟨.inl hagain, .inl ⟨hl, hc, .inl hagain⟩⟩)
    · exact .inl ⟨hl, hc, hweak⟩
    · obtain ⟨th, level, rfl⟩ := eq_opened_of_isOpened hopened
      exact absurd ⟨th, level, hb⟩ (hT o hTo)
    · exact .inr (.inl ⟨.inr htm, .inr (.inr ⟨hk, htm⟩)⟩)
  · by_cases hlc : b.listed = true ∧ s.color o = .gray
    · rcases hcase hlc.1 hlc.2 with hthread | ⟨-, hweak⟩
      · exact .inr (.inr ⟨hdone, fun _ _ => .inl hthread⟩)
      · exact .inl ⟨hlc.1, hlc.2, hweak⟩
    · exact .inr (.inr ⟨hdone, fun hl hc => absurd ⟨hl, hc⟩ hlc⟩)

/-- The objects of `grayagain` are traversed again. -/
theorem Tri.regrayagain (h : Tri T s) (hg : s.gray = [])
    (hT : ∀ o, T o → o ∈ s.grayagain ∨ o ∈ s.tmudata)
    (htm : ∀ o ∈ s.tmudata, ∃ mt env, s.body o = some (.userdata mt env)) :
    Tri (fun o => o ∈ s.tmudata) s.regrayagain := by
  refine ⟨fun o b hb hm => ?_, h.grayagain, fun o ho => (by cases ho), h.weak⟩
  obtain ⟨hmay, hcase⟩ := h.settles o b hb hm
  refine ⟨hmay, ?_⟩
  rcases hcase with ⟨-, -, hgray⟩ | ⟨hTo, hcase⟩ | ⟨hdone, hcase⟩
  · rw [hg] at hgray
    cases hgray
  · rcases hT o hTo with hagain | hudata
    · obtain ⟨b', hb', hl⟩ := h.grayagain o hagain
      obtain rfl := Option.some.inj (hb.symm.trans hb')
      rcases hcase with ⟨-, hc, -⟩ | hopened | ⟨hk, -⟩
      · exact .inl ⟨hl, hc, hagain⟩
      · obtain ⟨th, level, rfl⟩ := eq_opened_of_isOpened hopened
        cases hl
      · cases b with
        | userdata mt env => cases hl
        | _ => cases hk
    · obtain ⟨mt, env, hb'⟩ := htm o hudata
      obtain rfl := Option.some.inj (hb.symm.trans hb')
      exact .inr (.inl ⟨hudata, .inr (.inr ⟨rfl, hudata⟩)⟩)
  · by_cases hlc : b.listed = true ∧ s.color o = .gray
    · rcases hcase hlc.1 hlc.2 with ⟨-, hagain⟩ | hweak
      · exact .inl ⟨hlc.1, hlc.2, hagain⟩
      · exact .inr (.inr ⟨hdone, fun _ _ => .inr hweak⟩)
    · exact .inr (.inr ⟨hdone, fun hl hc => absurd ⟨hl, hc⟩ hlc⟩)

/-! ### Userdata to be finalized -/

theorem body_markfinalized : (s.markfinalized o).body = s.body := by
  funext x
  by_cases hx : x = o
  · subst hx
    simp only [State.body, markfinalized, Function.update_self, Option.map_map]
    rfl
  · simp only [State.body, markfinalized, Function.update_of_ne hx]

/-- Only marks of finalization change, and userdata move to the list of those to be finalized. -/
structure Separates (s s' : State) : Prop where
  frame : s' = { s with
    heap := s'.heap, swept := s'.swept, unswept := s'.unswept, tmudata := s'.tmudata }
  body : s'.body = s.body
  fixed : s'.isfixed = s.isfixed
  tmudata : ∀ o ∈ s.tmudata, o ∈ s'.tmudata
  lists : s.Lists → (∃ t, s.body s.mainthread = some (.thread t)) → s'.Lists

theorem Separates.refl (s : State) : Separates s s :=
  ⟨rfl, rfl, rfl, fun _ => id, fun h _ => h⟩

theorem Separates.trans (h : Separates s s') (h' : Separates s' s'') : Separates s s'' where
  frame := by rw [h'.frame, h.frame]
  body := h'.body.trans h.body
  fixed := h'.fixed.trans h.fixed
  tmudata o ho := h'.tmudata o (h.tmudata o ho)
  lists hl hmain := h'.lists (h.lists hl hmain) (by rw [h.body, h.frame]; exact hmain)

theorem isfixed_markfinalized : (s.markfinalized o).isfixed = s.isfixed := by
  funext x
  by_cases hx : x = o
  · subst hx
    simp only [isfixed, markfinalized, Function.update_self, Option.map_map]
    rfl
  · simp only [isfixed, markfinalized, Function.update_of_ne hx]

theorem isfinalized_markfinalized (h : s.isfinalized x = true) :
    (s.markfinalized o).isfinalized x = true := by
  by_cases hx : x = o
  · subst hx
    cases hobj : s.heap x with
    | none => simp [isfinalized, hobj] at h
    | some obj => simp [isfinalized, markfinalized, hobj]
  · simp only [isfinalized, markfinalized, Function.update_of_ne hx]
    exact h

theorem separates_markfinalized (s : State) (o : Addr) : Separates s (s.markfinalized o) := by
  refine ⟨rfl, body_markfinalized, isfixed_markfinalized, fun _ => id, fun h _ => ?_⟩
  refine h.of_perm body_markfinalized (List.Perm.refl _) (fun x hx => ?_) rfl rfl h.main
  exact ⟨h.tmudata x hx, isfinalized_markfinalized (h.finalized x hx)⟩

theorem perm_move {l l' : List Addr} (l'' : List Addr) (hnodup : (l ++ l').Nodup)
    (ho : o ∈ l ++ l') :
    (l.erase o ++ l'.erase o ++ (l'' ++ [o])).Perm (l ++ l' ++ l'') := by
  have herase : l.erase o ++ l'.erase o = (l ++ l').erase o := by
    by_cases hl : o ∈ l
    · have hl' : o ∉ l' := fun hl' => (List.nodup_append.mp hnodup).2.2 o hl o hl' rfl
      rw [List.erase_append_left l' hl, List.erase_of_not_mem hl']
    · rw [List.erase_append_right l' hl, List.erase_of_not_mem hl]
  have hcons : (o :: (l ++ l').erase o).Perm (l ++ l') := (List.perm_cons_erase ho).symm
  rw [herase, ← List.append_assoc]
  refine List.perm_append_comm.trans ?_
  exact hcons.append_right l''

theorem separates_separate (s : State) (all : Bool) (curr : Addr) :
    Separates s (s.separate all curr) := by
  unfold separate
  split
  next mt env hb =>
    split
    next => exact Separates.refl s
    next hnot =>
      split
      next => exact separates_markfinalized s curr
      next =>
        have hfin : s.isfinalized curr = false := by
          cases hf : s.isfinalized curr with
          | false => rfl
          | true => exact absurd (by rw [hf, Bool.or_true]) hnot
        have hmf := separates_markfinalized s curr
        refine ⟨rfl, hmf.body, hmf.fixed, fun o ho => List.mem_append_left _ ho, fun h hmain => ?_⟩
        have htm : curr ∉ s.tmudata := fun htm => by
          rw [h.finalized curr htm] at hfin
          cases hfin
        have hroot : curr ∈ s.swept ++ s.unswept := by
          have := (h.mem_root curr).mpr ⟨_, hb, rfl⟩
          exact (List.mem_append.mp this).resolve_right htm
        have hne : s.mainthread ≠ curr := by
          rintro hmc
          obtain ⟨t, ht⟩ := hmain
          rw [hmc, hb] at ht
          cases ht
        refine h.of_perm hmf.body (perm_move s.tmudata (List.nodup_append.mp h.rootNodup).1 hroot)
          (fun x hx => ?_) rfl rfl ?_
        · rcases List.mem_append.mp hx with hx | hx
          · exact ⟨h.tmudata x hx, isfinalized_markfinalized (h.finalized x hx)⟩
          · obtain rfl := List.mem_singleton.mp hx
            refine ⟨⟨mt, env, hb⟩, ?_⟩
            obtain ⟨obj, hobj, -⟩ := body_eq_some.mp hb
            simp [isfinalized, markfinalized, hobj]
        · rcases List.mem_append.mp h.main with hm | hm
          · exact List.mem_append_left _ ((List.mem_erase_of_ne hne).mpr hm)
          · exact List.mem_append_right _ ((List.mem_erase_of_ne hne).mpr hm)
  next => exact Separates.refl s

theorem separates_separateudata (s : State) (all : Bool) :
    Separates s (s.separateudata all) := by
  unfold separateudata
  generalize (s.rootgc.dropWhile (· ≠ s.mainthread)).drop 1 = l
  induction l generalizing s with
  | nil => exact Separates.refl s
  | cons curr l ih => exact (separates_separate s all curr).trans (ih _)

theorem Separates.tri (h : Separates s s') (ht : Tri T s) : Tri T s' := by
  have hcolor : s'.color = s.color := by rw [h.frame]
  have hgray : s'.gray = s.gray := by rw [h.frame]
  have hagain : s'.grayagain = s.grayagain := by rw [h.frame]
  have hweak : s'.weak = s.weak := by rw [h.frame]
  have hlisted : ∀ {l}, s.Listed l → s'.Listed l := fun hl x hx => by
    rw [h.body]
    exact hl x hx
  refine ⟨fun o b hb hm => ?_, hgray ▸ hlisted ht.gray, hagain ▸ hlisted ht.grayagain,
    hweak ▸ hlisted ht.weak⟩
  rw [h.body] at hb
  rw [State.marked, hcolor] at hm
  obtain ⟨hmay, hcase⟩ := ht.settles o b hb hm
  rw [hcolor, hgray, hagain, hweak]
  refine ⟨hmay, ?_⟩
  rcases hcase with hcase | ⟨hT, hcase⟩ | ⟨hdone, hcase⟩
  · exact .inl hcase
  · refine .inr (.inl ⟨hT, ?_⟩)
    rcases hcase with hcase | hcase | ⟨hk, htm⟩
    · exact .inl hcase
    · exact .inr (.inl hcase)
    · exact .inr (.inr ⟨hk, h.tmudata o htm⟩)
  · refine .inr (.inr ⟨fun b' hb' r hr => ?_, hcase⟩)
    rw [h.body] at hb'
    rw [keptRefs_congr h.body, hcolor] at hr
    rw [State.marked, hcolor]
    exact hdone b' hb' r hr

/-- One round of `marktmu`. -/
theorem remark_eq {mt : Option Addr} {env : Addr} (hb : s.body o = some (.userdata mt env)) :
    (s.makewhite o).reallymarkobject o =
      ((s.setColor o .black).marktableoption mt).marktable env := by
  have hset : (s.makewhite o).setColor o .black = s.setColor o .black := by
    simp only [makewhite, setColor, Function.update_idem]
  have hb' : (s.makewhite o).body o = some (.userdata mt env) := hb
  rw [reallymarkobject, hb']
  dsimp only
  rw [reallymarkvalue, hb']
  dsimp only
  rw [hset]

theorem marktmu_spec (l : List Addr) (ht : s.Typed)
    (hl : ∀ o ∈ l, ∃ mt env, s.body o = some (.userdata mt env)) (h : Tri (· ∈ l) s) :
    Advances s (l.foldl (fun s u => (s.makewhite u).reallymarkobject u) s) ∧
      Tri (fun _ => False) (l.foldl (fun s u => (s.makewhite u).reallymarkobject u) s) ∧
      ∀ o ∈ l, (l.foldl (fun s u => (s.makewhite u).reallymarkobject u) s).marked o := by
  induction l generalizing s with
  | nil =>
    refine ⟨Advances.refl s, ⟨fun o => (h.settles o).mono fun ho => ?_, h.gray, h.grayagain,
      h.weak⟩, fun o ho => (by cases ho)⟩
    cases ho
  | cons u l ih =>
    obtain ⟨mt, env, hb⟩ := hl u List.mem_cons_self
    rw [List.foldl_cons, remark_eq hb]
    have hset : Moves u s (s.setColor u .black) := moves_setColor rfl
    have hmarks := marks_markudata (s.setColor u .black) mt env
    have hmarked : ∀ r ∈ (s.setColor u .black).refs (.userdata mt env),
        (((s.setColor u .black).marktableoption mt).marktable env).marked r.2 :=
      marked_markudata fun r hr => (ht u _ hb r hr).congr rfl
    generalize ((s.setColor u .black).marktableoption mt).marktable env = s₁ at *
    have hmoves := hset.trans (hmarks.moves u)
    have hblack : (s.setColor u .black).color u = .black := setColor_self
    have hblack' : (s.setColor u .black).marked u := congrArg Color.isWhite hblack
    have hc₁ : s₁.color u = .black := (hmarks.keeps u hblack').trans hblack
    have hb₁ : s₁.body = s.body := hmarks.body
    have hlisted : ∀ {l'}, s.Listed l' → s₁.Listed l' := fun hl' x hx => by
      rw [hb₁]
      exact hl' x hx
    have htri : Tri (· ∈ l) s₁ := by
      refine ⟨fun x => ?_, fun x hx => ?_, ?_, ?_⟩
      · by_cases hx : x = u
        · subst hx
          refine settles_black (b := .userdata mt env) (by rw [hb₁, hb]) rfl hc₁ fun r hr => ?_
          refine hmarked r ?_
          rwa [refs_congr hmarks.body] at hr
        · refine (hmoves.settles hx (h.settles x)).mono fun hxl => ?_
          exact (List.mem_cons.mp hxl).resolve_left hx
      · rcases hmarks.listed x hx with hx | hx
        · exact hlisted h.gray x hx
        · rw [hb₁]
          exact hx
      · rw [show s₁.grayagain = s.grayagain by rw [hmarks.eq]; rfl]
        exact hlisted h.grayagain
      · rw [show s₁.weak = s.weak by rw [hmarks.eq]; rfl]
        exact hlisted h.weak
    obtain ⟨ha, htri', hmarked'⟩ := ih (ht.congr hb₁)
      (fun o ho => by rw [hb₁]; exact hl o (List.mem_cons_of_mem u ho)) htri
    refine ⟨hmoves.advances.trans ha, htri', fun o ho => ?_⟩
    rcases List.mem_cons.mp ho with rfl | ho
    · exact ha.mono o (hmarks.marked hblack')
    · exact hmarked' o ho

/-! ### Weak tables -/

theorem mem_marked {h : Table} {wk wv : Bool} {v : TValue} :
    v ∈ h.marked wk wv ↔ wv = false ∧ v ∈ h.array ∨
      ∃ n ∈ h.node, n.val ≠ .nil ∧
        (wk = false ∧ v = n.key.live ∨ wv = false ∧ v = n.val) := by
  simp only [Table.marked, List.mem_append, List.mem_flatMap, List.mem_reverse]
  cases wk <;> cases wv <;> grind

theorem gray_stringmark (s : State) (o : Addr) : (s.stringmark o).gray = s.gray := by
  unfold stringmark
  split <;> rfl

/-- A string that is looked at is marked; and what is not cleared is marked. -/
theorem iscleared_spec (iskey : Bool) (h : ∀ r ∈ v.refs, s.Fits r) :
    Marks s (s.iscleared v iskey).1 ∧ (s.iscleared v iskey).1.gray = s.gray ∧
      ((s.iscleared v iskey).2 = false → ∀ r ∈ v.refs, (s.iscleared v iskey).1.marked r.2) := by
  cases v with
  | nil | other => exact ⟨Marks.refl s, rfl, fun _ r hr => by cases hr⟩
  | object a =>
    obtain ⟨b, hb, hk⟩ : ∃ b, s.body a = some b ∧ b.kind ≠ .upval := h (.value, a)
      List.mem_cons_self
    have hnot : ∀ {p : Bool}, (s.iswhite a || p) = false → ∀ r ∈ (TValue.object a).refs,
        s.marked r.2 := by
      intro p hp r hr
      obtain rfl := List.mem_singleton.mp hr
      exact (Bool.or_eq_false_iff.mp hp).1
    rw [iscleared, hb]
    cases b with
    | string bytes =>
      refine ⟨marks_stringmark s ⟨_, hb, rfl⟩, gray_stringmark s a, fun _ r hr => ?_⟩
      · obtain rfl := List.mem_singleton.mp hr
        exact marked_stringmark s a
    | userdata mt env => exact ⟨Marks.refl s, rfl, hnot⟩
    | upval uv => exact absurd rfl hk
    | function cl | table t | thread th | proto p =>
      exact ⟨Marks.refl s, rfl, fun hw => hnot (p := false) (by rw [Bool.or_false]; exact hw)⟩

/-- The value stays, and then it is marked, or there is nil. -/
def ValueCleared (s : State) (v v' : TValue) : Prop :=
  (v' = .nil ∨ v' = v) ∧ ∀ r ∈ v'.refs, s.marked r.2

/-- The entry stays, and then its key and its value are marked, or it is empty. -/
def NodeCleared (s : State) (n n' : Node) : Prop :=
  n'.val = .nil ∨ n' = n ∧ ∀ r ∈ n.key.live.refs ++ n.val.refs, s.marked r.2

theorem clearvalue_spec (h : ∀ r ∈ v.refs, s.Fits r) :
    Marks s (s.clearvalue v).1 ∧ (s.clearvalue v).1.gray = s.gray ∧
      ValueCleared (s.clearvalue v).1 v (s.clearvalue v).2 := by
  obtain ⟨hm, hg, hnot⟩ := iscleared_spec false h
  unfold clearvalue
  rcases hc : s.iscleared v false with ⟨s₁, cleared⟩
  rw [hc] at hm hg hnot
  cases cleared with
  | true => exact ⟨hm, hg, .inl rfl, fun r hr => by cases hr⟩
  | false => exact ⟨hm, hg, .inr rfl, hnot rfl⟩

theorem clearnode_spec {n : Node}
    (h : n.val ≠ .nil → ∀ r ∈ n.key.live.refs ++ n.val.refs, s.Fits r) :
    Marks s (s.clearnode n).1 ∧ (s.clearnode n).1.gray = s.gray ∧
      NodeCleared (s.clearnode n).1 n (s.clearnode n).2 := by
  unfold clearnode
  split
  next hnil => exact ⟨Marks.refl s, rfl, .inl hnil⟩
  next hval =>
    obtain ⟨hm, hg, hnot⟩ := iscleared_spec true
      fun r hr => h hval r (List.mem_append_left _ hr)
    rcases hc : s.iscleared n.key.live true with ⟨s₁, cleared⟩
    rw [hc] at hm hg hnot
    cases cleared with
    | true => exact ⟨hm, hg, .inl (Node.removeentry_val _)⟩
    | false =>
      obtain ⟨hm', hg', hnot'⟩ := iscleared_spec (s := s₁) false
        fun r hr => (h hval r (List.mem_append_right _ hr)).congr hm.body
      dsimp only
      rcases hc' : s₁.iscleared n.val false with ⟨s₂, cleared⟩
      rw [hc'] at hm' hg' hnot'
      cases cleared with
      | true => exact ⟨hm.trans hm', hg'.trans hg, .inl (Node.removeentry_val _)⟩
      | false =>
        refine ⟨hm.trans hm', hg'.trans hg, .inr ⟨rfl, fun r hr => ?_⟩⟩
        rcases List.mem_append.mp hr with hr | hr
        · exact hm'.marked (hnot rfl r hr)
        · exact hnot' rfl r hr

theorem clearlist_spec {α : Type} (clear : State → α → State × α) {P : State → α → α → Prop}
    (hP : ∀ {s s' x x'}, Marks s s' → P s x x' → P s' x x') {l : List α}
    (hclear : ∀ s', Marks s s' → ∀ x ∈ l,
      Marks s' (clear s' x).1 ∧ (clear s' x).1.gray = s'.gray ∧ P (clear s' x).1 x (clear s' x).2) :
    Marks s (clearlist clear l s).1 ∧ (clearlist clear l s).1.gray = s.gray ∧
      List.Forall₂ (P (clearlist clear l s).1) l (clearlist clear l s).2 := by
  induction l with
  | nil => exact ⟨Marks.refl s, rfl, .nil⟩
  | cons x l ih =>
    obtain ⟨hm, hg, hrest⟩ := ih fun s' hs' x' hx' => hclear s' hs' x' (List.mem_cons_of_mem x hx')
    rw [clearlist]
    dsimp only
    obtain ⟨hm', hg', hx⟩ := hclear _ hm x List.mem_cons_self
    exact ⟨hm.trans hm', hg'.trans hg, .cons hx (hrest.imp fun _ _ => hP hm')⟩

theorem ValueCleared.mono {v' : TValue} (h : Marks s s') (hv : s.ValueCleared v v') :
    s'.ValueCleared v v' :=
  ⟨hv.1, fun r hr => h.marked (hv.2 r hr)⟩

theorem NodeCleared.mono {n n' : Node} (h : Marks s s') (hn : s.NodeCleared n n') :
    s'.NodeCleared n n' :=
  hn.imp_right fun hn => ⟨hn.1, fun r hr => h.marked (hn.2 r hr)⟩

theorem refs_of_mem_array {h : Table} (hv : v ∈ h.array) {r : Ref} (hr : r ∈ v.refs) (wk : Bool) :
    r ∈ h.refs wk false :=
  List.mem_append_right _ (List.mem_flatMap.mpr ⟨v, mem_marked.mpr (.inl ⟨rfl, hv⟩), hr⟩)

theorem refs_of_mem_node {h : Table} {n : Node} (hn : n ∈ h.node) (hval : n.val ≠ .nil) {r : Ref}
    (hr : r ∈ n.key.live.refs ++ n.val.refs) : r ∈ h.refs false false := by
  refine List.mem_append_right _ (List.mem_flatMap.mpr ?_)
  rcases List.mem_append.mp hr with hr | hr
  · exact ⟨_, mem_marked.mpr (.inr ⟨n, hn, hval, .inl ⟨rfl, rfl⟩⟩), hr⟩
  · exact ⟨_, mem_marked.mpr (.inr ⟨n, hn, hval, .inr ⟨rfl, rfl⟩⟩), hr⟩

theorem refs_weaken {h : Table} {wk wv : Bool} {r : Ref} (hr : r ∈ h.refs wk wv) :
    r ∈ h.refs false false := by
  rcases List.mem_append.mp hr with hr | hr
  · exact List.mem_append_left _ hr
  · obtain ⟨v, hv, hrv⟩ := List.mem_flatMap.mp hr
    refine List.mem_append_right _ (List.mem_flatMap.mpr ⟨v, ?_, hrv⟩)
    rcases mem_marked.mp hv with ⟨-, hv⟩ | ⟨n, hn, hval, hcase⟩
    · exact mem_marked.mpr (.inl ⟨rfl, hv⟩)
    · exact mem_marked.mpr (.inr ⟨n, hn, hval, hcase.imp (And.imp_left fun _ => rfl)
        (And.imp_left fun _ => rfl)⟩)

/-- What is in a table after some of its entries were cleared. -/
theorem refs_cleared {h h' : Table} (hmt : h'.metatable = h.metatable)
    (harray : ∀ v ∈ h'.array, v = .nil ∨ v ∈ h.array)
    (hnode : ∀ n ∈ h'.node, n.val = .nil ∨ n ∈ h.node) (wk wv : Bool) :
    ∀ r ∈ h'.refs wk wv, r ∈ h.refs wk wv := by
  intro r hr
  rcases List.mem_append.mp hr with hr | hr
  · exact List.mem_append_left _ (hmt ▸ hr)
  · obtain ⟨v, hv, hrv⟩ := List.mem_flatMap.mp hr
    refine List.mem_append_right _ (List.mem_flatMap.mpr ?_)
    rcases mem_marked.mp hv with ⟨hwv, hv⟩ | ⟨n, hn, hval, hcase⟩
    · rcases harray v hv with rfl | hv
      · cases hrv
      · exact ⟨v, mem_marked.mpr (.inl ⟨hwv, hv⟩), hrv⟩
    · have hn' := (hnode n hn).resolve_left hval
      exact ⟨v, mem_marked.mpr (.inr ⟨n, hn', hval, hcase⟩), hrv⟩

theorem mem_of_forall₂ {α : Type} {P : α → α → Prop} {l l' : List α} (h : List.Forall₂ P l l')
    {x' : α} (hx' : x' ∈ l') : ∃ x ∈ l, P x x' := by
  induction h with
  | nil => cases hx'
  | cons hP _ ih =>
    rcases List.mem_cons.mp hx' with rfl | hx'
    · exact ⟨_, List.mem_cons_self, hP⟩
    · obtain ⟨x, hx, hP⟩ := ih hx'
      exact ⟨x, List.mem_cons_of_mem _ hx, hP⟩

/-- A table that keeps only what is marked has nothing else, once its weak entries are cleared. -/
theorem cleartable_spec (ht : s.Typed) {h : Table} (hb : s.body o = some (.table h)) :
    ∃ (s₁ : State) (h' : Table), s.cleartable o = s₁.setBody o (.table h') ∧ Marks s s₁ ∧
      s₁.gray = s.gray ∧ (∀ wk wv, ∀ r ∈ h'.refs wk wv, r ∈ h.refs wk wv) ∧
      ((∀ r ∈ h.refs h.weakkey h.weakvalue, s.marked r.2) →
        ∀ r ∈ h'.refs false false, s₁.marked r.2) := by
  have hfits : ∀ r ∈ h.refs false false, s.Fits r := ht o _ hb
  rw [cleartable, hb]
  dsimp only
  -- the array
  have harray : ∀ p : State × List TValue,
      p = (if h.weakvalue then clearlist clearvalue h.array s else (s, h.array)) →
      Marks s p.1 ∧ p.1.gray = s.gray ∧ (∀ v ∈ p.2, v = .nil ∨ v ∈ h.array) ∧
        ((∀ r ∈ h.refs h.weakkey h.weakvalue, s.marked r.2) →
          ∀ v ∈ p.2, ∀ r ∈ v.refs, p.1.marked r.2) := by
    rintro p rfl
    split
    next =>
      obtain ⟨hm, hg, hall⟩ := clearlist_spec (s := s) clearvalue (P := ValueCleared)
        ValueCleared.mono (l := h.array) fun s' hs' v hv =>
          clearvalue_spec fun r hr => (hfits r (refs_of_mem_array hv hr false)).congr hs'.body
      refine ⟨hm, hg, fun v hv => ?_, fun _ v hv => ?_⟩
      · obtain ⟨v₀, hv₀, hcase, -⟩ := mem_of_forall₂ hall hv
        exact hcase.imp_right fun heq => by rw [heq]; exact hv₀
      · obtain ⟨v₀, hv₀, -, hmarked⟩ := mem_of_forall₂ hall hv
        exact hmarked
    next hwv =>
      refine ⟨Marks.refl s, rfl, fun v hv => .inr hv, fun hkept v hv r hr => hkept r ?_⟩
      rw [Bool.eq_false_iff.mpr hwv]
      exact refs_of_mem_array hv hr _
  generalize (if h.weakvalue then clearlist clearvalue h.array s else (s, h.array)) = p at harray ⊢
  obtain ⟨hm, hg, harray, hmarked⟩ := harray p rfl
  -- the nodes
  obtain ⟨hm', hg', hall⟩ := clearlist_spec (s := p.1) clearnode (P := NodeCleared)
    NodeCleared.mono (l := h.node) fun s' hs' n hn => clearnode_spec fun hval r hr =>
      (hfits r (refs_of_mem_node hn hval hr)).congr ((hs'.body).trans hm.body)
  have hnode : ∀ n ∈ (clearlist clearnode h.node p.1).2, n.val = .nil ∨ n ∈ h.node ∧
      ∀ r ∈ n.key.live.refs ++ n.val.refs, (clearlist clearnode h.node p.1).1.marked r.2 := by
    intro n hn
    obtain ⟨n₀, hn₀, hcase⟩ := mem_of_forall₂ hall hn
    refine hcase.imp_right fun ⟨heq, hmarked⟩ => ?_
    rw [heq]
    exact ⟨hn₀, hmarked⟩
  refine ⟨(clearlist clearnode h.node p.1).1, _, rfl, hm.trans hm', hg'.trans hg,
    refs_cleared rfl harray fun n hn => (hnode n hn).imp_right And.left, fun hkept r hr => ?_⟩
  rcases List.mem_append.mp hr with hr | hr
  · exact hm'.marked (hm.marked (hkept r (List.mem_append_left _ hr)))
  · obtain ⟨v, hv, hrv⟩ := List.mem_flatMap.mp hr
    rcases mem_marked.mp hv with ⟨-, hv⟩ | ⟨n, hn, hval, hcase⟩
    · exact hm'.marked (hmarked hkept v hv r hrv)
    · obtain ⟨-, hmarked'⟩ := (hnode n hn).resolve_left hval
      rcases hcase with ⟨-, rfl⟩ | ⟨-, rfl⟩
      · exact hmarked' r (List.mem_append_left _ hrv)
      · exact hmarked' r (List.mem_append_right _ hrv)

/-- A marked object refers to marked ones, weak tables in `l` excepted. -/
def KeepsMarked (s : State) (l : List Addr) : Prop :=
  ∀ o b, s.body o = some b → s.marked o → (∀ r ∈ s.refs b, s.marked r.2) ∨
    o ∈ l ∧ ∃ h, b = .table h ∧ ∀ r ∈ h.refs h.weakkey h.weakvalue, s.marked r.2

theorem Marks.keepsMarked (h : Marks s s') (hg : s'.gray = []) {l : List Addr}
    (hs : s.KeepsMarked l) : s'.KeepsMarked l := by
  intro o b hb hm
  rw [h.body] at hb
  rw [refs_congr h.body]
  by_cases hold : s.marked o
  · rcases hs o b hb hold with hrefs | ⟨ho, t, rfl, hrefs⟩
    · exact .inl fun r hr => h.marked (hrefs r hr)
    · exact .inr ⟨ho, t, rfl, fun r hr => h.marked (hrefs r hr)⟩
  · obtain ⟨b', hb', ⟨-, -, hgray⟩ | ⟨hl, -, hdone⟩⟩ := h.fresh o hold hm
    · rw [hg] at hgray
      cases hgray
    · obtain rfl := Option.some.inj (hb.symm.trans hb')
      refine .inl fun r hr => hdone b (h.body ▸ hb) r ?_
      rw [keptRefs_congr h.body]
      cases b <;> first | exact hr | cases hl

theorem marked_setBody : (s.setBody o b).marked x ↔ s.marked x := Iff.rfl

theorem Marks.colored (h : Marks s s') (hs : s.Colored) : s'.Colored := by
  intro o b hb hm
  rw [h.body] at hb
  by_cases hold : s.marked o
  · rw [h.keeps o hold]
    exact hs o b hb hold
  · obtain ⟨b', hb', hcase⟩ := h.fresh o hold hm
    obtain rfl := Option.some.inj (hb.symm.trans hb')
    rcases hcase with ⟨hl, hc, -⟩ | ⟨-, hmay, -⟩
    · rw [hc]
      cases b <;> first | rfl | cases hl
    · exact hmay

theorem cleartable_keepsMarked (ht : s.Typed) (hg : s.gray = []) (hcolored : s.Colored)
    {l : List Addr} (h : s.KeepsMarked (o :: l)) : Advances s (s.cleartable o) ∧
      (s.cleartable o).gray = [] ∧ (s.cleartable o).Colored ∧ (s.cleartable o).KeepsMarked l := by
  by_cases htable : ∃ t, s.body o = some (.table t)
  · obtain ⟨t, hb⟩ := htable
    obtain ⟨s₁, t', heq, hm, hg₁, hrefs, hcleared⟩ := cleartable_spec ht hb
    have hb₁ : s₁.body o = some (.table t) := hm.body ▸ hb
    have hmoves : Moves o s₁ (s₁.setBody o (.table t')) := moves_setTable hb₁ hrefs
    have hkeeps : s₁.KeepsMarked (o :: l) := hm.keepsMarked (hg₁.trans hg) h
    rw [heq]
    refine ⟨hm.advances.trans hmoves.advances, hg₁.trans hg, fun x b hb' hx => ?_,
      fun x b hb' hx => ?_⟩
    · by_cases hxo : x = o
      · rw [hxo, body_setBody_self hb₁] at hb'
        obtain rfl := Option.some.inj hb'
        rfl
      · rw [body_setBody hxo] at hb'
        exact hm.colored hcolored x b hb' hx
    rw [marked_setBody] at hx
    by_cases hxo : x = o
    · subst hxo
      rw [body_setBody_self hb₁] at hb'
      obtain rfl := Option.some.inj hb'
      refine .inl fun r hr => hcleared (fun r hr => ?_) r hr
      have hold : s.marked x := by
        by_contra hold
        obtain ⟨b, hb'', ⟨-, -, hgray⟩ | ⟨hl, -, -⟩⟩ := hm.fresh x hold hx
        · rw [hg₁, hg] at hgray
          cases hgray
        · obtain rfl := Option.some.inj (hb.symm.trans hb'')
          cases hl
      rcases h x _ hb hold with hall | ⟨-, t'', heq', hkept⟩
      · exact hall r (refs_weaken hr)
      · obtain rfl := Body.table.inj heq'
        exact hkept r hr
    · rw [body_setBody hxo] at hb'
      rw [show (s₁.setBody o (.table t')).refs b = s₁.refs b by
        cases b <;> simp only [State.refs, hmoves.tables.value]]
      rcases hkeeps x b hb' hx with hall | ⟨hxl, hcase⟩
      · exact .inl hall
      · exact .inr ⟨(List.mem_cons.mp hxl).resolve_left hxo, hcase⟩
  · have hself : s.cleartable o = s := by
      unfold cleartable
      split
      next t hb => exact absurd ⟨t, hb⟩ htable
      next => rfl
    rw [hself]
    refine ⟨Advances.refl s, hg, hcolored, fun x b hb hx => ?_⟩
    rcases h x b hb hx with hall | ⟨hxl, t, rfl, hkept⟩
    · exact .inl hall
    · rcases List.mem_cons.mp hxl with rfl | hxl
      · exact absurd ⟨t, hb⟩ htable
      · exact .inr ⟨hxl, t, rfl, hkept⟩

theorem cleartables_keepsMarked (l : List Addr) (ht : s.Typed) (hg : s.gray = [])
    (hcolored : s.Colored) (h : s.KeepsMarked l) :
    Advances s (l.foldl cleartable s) ∧ (l.foldl cleartable s).Colored ∧
      (l.foldl cleartable s).KeepsMarked [] := by
  induction l generalizing s with
  | nil => exact ⟨Advances.refl s, hcolored, h⟩
  | cons o l ih =>
    obtain ⟨ha, hg', hcolored', h'⟩ := cleartable_keepsMarked ht hg hcolored h
    obtain ⟨ha', h''⟩ := ih (ha.tables.typed ht) hg' hcolored' h'
    exact ⟨ha.trans ha', h''⟩

/-! ### The step as a whole -/

/-- What the parts of the step leave as it is. -/
structure Follows (s s' : State) : Prop where
  currentwhite : s'.currentwhite = s.currentwhite
  mainthread : s'.mainthread = s.mainthread
  running : s'.running = s.running
  registry : s'.registry = s.registry
  mt : s'.mt = s.mt
  fits : ∀ r, s.Fits r → s'.Fits r
  there : ∀ o b, s'.body o = some b → ∃ b, s.body o = some b
  fixed : s'.isfixed = s.isfixed
  string : ∀ o bytes, s.body o = some (.string bytes) → s'.body o = some (.string bytes)
  mono : ∀ x, s.marked x → s'.marked x
  whites : ∀ x, ¬s'.marked x → s'.color x = s.color x
  typed : s.Typed → s'.Typed
  lists : s.Lists → s.Fits (.thread, s.mainthread) → s'.Lists

theorem Follows.trans (h : Follows s s') (h' : Follows s' s'') : Follows s s'' where
  currentwhite := h'.currentwhite.trans h.currentwhite
  mainthread := h'.mainthread.trans h.mainthread
  running := h'.running.trans h.running
  registry := h'.registry.trans h.registry
  mt := h'.mt.trans h.mt
  fits r hr := h'.fits r (h.fits r hr)
  there o b hb := by
    obtain ⟨b', hb'⟩ := h'.there o b hb
    exact h.there o b' hb'
  fixed := h'.fixed.trans h.fixed
  string o bytes hb := h'.string o bytes (h.string o bytes hb)
  mono x hx := h'.mono x (h.mono x hx)
  whites x hx := (h'.whites x hx).trans (h.whites x fun hx' => hx (h'.mono x hx'))
  typed ht := h'.typed (h.typed ht)
  lists hl hmain := h'.lists (h.lists hl hmain) (h.mainthread ▸ h.fits _ hmain)

theorem Follows.roots (h : Follows s s') : s'.roots = s.roots := by
  unfold State.roots
  rw [h.mainthread, h.running, h.registry, h.mt]

theorem Advances.follows (h : Advances s s') : Follows s s' where
  currentwhite := by rw [h.frame]
  mainthread := by rw [h.frame]
  running := by rw [h.frame]
  registry := by rw [h.frame]
  mt := by rw [h.frame]
  fits _ hr := h.tables.fits.mpr hr
  there o b hb := by
    obtain ⟨b', hb', -⟩ := h.tables.refs hb
    exact ⟨b', hb'⟩
  fixed := h.tables.isfixed
  string _ _ hb := (h.tables.body (by simp [Body.kind])).mpr hb
  mono := h.mono
  whites := h.whites
  typed := h.tables.typed
  lists hl _ := hl.advances h

theorem Separates.follows (h : Separates s s') : Follows s s' where
  currentwhite := by rw [h.frame]
  mainthread := by rw [h.frame]
  running := by rw [h.frame]
  registry := by rw [h.frame]
  mt := by rw [h.frame]
  fits _ hr := hr.congr h.body
  there o b hb := ⟨b, h.body ▸ hb⟩
  fixed := h.fixed
  string _ _ hb := by rw [h.body]; exact hb
  mono x hx := by
    rw [State.marked, show s'.color = s.color by rw [h.frame]]
    exact hx
  whites x _ := by rw [h.frame]
  typed ht := ht.congr h.body
  lists hl hmain := h.lists hl <| by
    obtain ⟨b, hb, hk⟩ := hmain
    cases b with
    | thread t => exact ⟨t, hb⟩
    | _ => exact absurd hk (by simp [Role.accepts, Body.kind])

theorem follows_regrayweak (s : State) : Follows s s.regrayweak :=
  ⟨rfl, rfl, rfl, rfl, rfl, fun _ => id, fun _ b hb => ⟨b, hb⟩, rfl, fun _ _ => id, fun _ => id,
    fun _ _ => rfl, fun ht => ht.congr rfl, fun hl _ => hl.congr (.refl s) rfl rfl rfl rfl rfl rfl⟩

theorem follows_regrayagain (s : State) : Follows s s.regrayagain :=
  ⟨rfl, rfl, rfl, rfl, rfl, fun _ => id, fun _ b hb => ⟨b, hb⟩, rfl, fun _ _ => id, fun _ => id,
    fun _ _ => rfl, fun ht => ht.congr rfl, fun hl _ => hl.congr (.refl s) rfl rfl rfl rfl rfl rfl⟩

theorem marks_markmt (ht : s.Typed) : Marks s s.markmt := marks_markoptions ht s.mt

/-- The running thread and the metatables of the types are marked. -/
theorem marked_late (ht : s.Typed) (hroots : ∀ r ∈ s.roots, s.Fits r) :
    Marks s s.marklate ∧ s.marklate.marked s.running ∧
      ∀ r ∈ s.mt.flatMap (optionRefs .table), s.marklate.marked r.2 := by
  have hrun := marks_markobject ht s.running
  have ht' := ht.congr hrun.body
  obtain ⟨b, hb, -⟩ := hroots (.thread, s.running) (by simp [State.roots])
  have hmt : (s.markobject s.running).mt = s.mt := by rw [hrun.eq]
  refine ⟨hrun.trans (marks_markmt ht'), (marks_markmt ht').marked (marked_markobject ht hb),
    fun r hr => ?_⟩
  rw [marklate, markmt, hmt]
  refine marked_markoptions ht' (fun r hr => ?_) r hr
  exact (hroots r (List.mem_append_right _ hr)).congr hrun.body

/-- What holds before the flip. -/
structure Finished (s s' : State) : Prop where
  follows : Follows s s'
  colored : s'.Colored
  keeps : s'.KeepsMarked []
  roots : ∀ r ∈ s'.roots, s'.marked r.2
  tmudata : ∀ o ∈ s'.tmudata, s'.marked o

theorem keepsMarked_of_tri (h : Tri (fun _ => False) s) (hg : s.gray = []) :
    s.KeepsMarked s.weak := by
  intro o b hb hm
  obtain ⟨-, ⟨-, -, hgray⟩ | ⟨hT, -⟩ | ⟨hdone, hcase⟩⟩ := h.settles o b hb hm
  · rw [hg] at hgray
    cases hgray
  · exact hT.elim
  · have hkept := hdone b hb
    cases b with
    | table t =>
      cases hc : s.color o with
      | white bit =>
        rw [State.marked, hc] at hm
        cases hm
      | gray =>
        rcases hcase rfl hc with ⟨hk, -⟩ | ⟨-, hweak⟩
        · cases hk
        · refine .inr ⟨hweak, t, rfl, fun r hr => hkept r ?_⟩
          rw [hc]
          exact hr
      | black =>
        refine .inl fun r hr => hkept r ?_
        rw [hc]
        exact hr
    | _ => exact .inl hkept

theorem Advances.unopened (h : Advances s s') {o : Addr} :
    (∃ th level, s'.body o = some (.upval (.opened th level))) ↔
      ∃ th level, s.body o = some (.upval (.opened th level)) :=
  exists_congr fun _ => exists_congr fun _ => h.tables.body (by simp [Body.kind])

/-- The end of a propagation inside of the step. -/
structure Stage (T : Addr → Prop) (s s' : State) : Prop where
  follows : Follows s s'
  tri : Tri T s'
  gray : s'.gray = []

theorem stage_propagateall {s₀ : State} (h : s₀.Inv) (hstate : s₀.gcstate = .propagate)
    (hf : Follows s₀ s) (htri : Tri T s) :
    Stage T s₀ s.propagateall ∧ Advances s s.propagateall := by
  have ht : s₀.Typed := h.sound.typed (h.marking hstate).alive
  have hmain : s₀.Fits (.thread, s₀.mainthread) := (h.sound.roots _ (by simp [State.roots])).1
  obtain ⟨ha, htri', hg⟩ := propagateall_spec (hf.typed ht) htri (hf.lists h.lists hmain).covers
  exact ⟨⟨hf.trans ha.follows, htri', hg⟩, ha⟩

/-- Open upvalues. -/
theorem stage_upvals (h : s.Inv) (hstate : s.gcstate = .propagate) :
    ∃ T, Stage T s s.remarkupvals.propagateall ∧ ∀ o, T o →
      ¬∃ th level, s.remarkupvals.propagateall.body o = some (.upval (.opened th level)) := by
  have hmark := h.marking hstate
  have ht : s.Typed := h.sound.typed hmark.alive
  have hm := marks_remarkupvals ht
  obtain ⟨hs, ha⟩ := stage_propagateall h hstate hm.advances.follows
    (tri_remarkupvals ht h.lists hmark.tri)
  exact ⟨_, hs, fun o ho hopened => ho.2 ((hm.advances.trans ha).unopened.mp hopened)⟩

/-- Weak tables, the running thread and the metatables of the types. -/
theorem stage_weak {s₀ : State} (h : s₀.Inv) (hstate : s₀.gcstate = .propagate)
    (hs : Stage T s₀ s)
    (hT : ∀ o, T o → ¬∃ th level, s.body o = some (.upval (.opened th level))) :
    ∃ T', Stage T' s₀ s.regrayweak.marklate.propagateall ∧
      (∀ o, T' o → o ∈ s.regrayweak.marklate.propagateall.grayagain ∨
        o ∈ s.regrayweak.marklate.propagateall.tmudata) ∧
      s.regrayweak.marklate.propagateall.marked s.running ∧
      ∀ r ∈ s.mt.flatMap (optionRefs .table),
        s.regrayweak.marklate.propagateall.marked r.2 := by
  have ht : s₀.Typed := h.sound.typed (h.marking hstate).alive
  have htri := hs.tri.regrayweak hs.gray hT
  have hf := hs.follows.trans (follows_regrayweak s)
  have hroots : ∀ r ∈ s.regrayweak.roots, s.regrayweak.Fits r := fun r hr =>
    hf.fits r (h.sound.roots r (hf.roots ▸ hr)).1
  obtain ⟨hm, hrun, hmt⟩ := marked_late (hf.typed ht) hroots
  obtain ⟨hs', ha⟩ := stage_propagateall h hstate (hf.trans hm.advances.follows) (hm.tri htri)
  refine ⟨_, hs', fun o ho => ?_, ha.mono _ hrun, fun r hr => ha.mono _ (hmt r hr)⟩
  rcases ho with hagain | htm
  · exact .inl (ha.grayagain o (hm.advances.grayagain o hagain))
  · refine .inr ?_
    rw [ha.frame, hm.eq]
    exact htm

/-- Whatever is left in `grayagain`. -/
theorem stage_again {s₀ : State} (h : s₀.Inv) (hstate : s₀.gcstate = .propagate)
    (hs : Stage T s₀ s) (hT : ∀ o, T o → o ∈ s.grayagain ∨ o ∈ s.tmudata) :
    Stage (· ∈ s.regrayagain.propagateall.tmudata) s₀ s.regrayagain.propagateall ∧
      ∀ x, s.marked x → s.regrayagain.propagateall.marked x := by
  have hmain : s₀.Fits (.thread, s₀.mainthread) := (h.sound.roots _ (by simp [State.roots])).1
  have hl := hs.follows.lists h.lists hmain
  obtain ⟨hs', ha⟩ := stage_propagateall h hstate
    (hs.follows.trans (follows_regrayagain s)) (hs.tri.regrayagain hs.gray hT hl.tmudata)
  refine ⟨?_, fun x hx => ha.mono x hx⟩
  rw [show s.regrayagain.propagateall.tmudata = s.tmudata by rw [ha.frame]; rfl]
  exact hs'

/-- Userdata to be finalized. -/
theorem stage_tmu {s₀ : State} (h : s₀.Inv) (hstate : s₀.gcstate = .propagate)
    (hs : Stage (· ∈ s.tmudata) s₀ s) :
    Stage (fun _ => False) s₀ (s.separateudata false).marktmu.propagateall ∧
      (∀ x, s.marked x → (s.separateudata false).marktmu.propagateall.marked x) ∧
      ∀ o ∈ (s.separateudata false).marktmu.propagateall.tmudata,
        (s.separateudata false).marktmu.propagateall.marked o := by
  have ht : s₀.Typed := h.sound.typed (h.marking hstate).alive
  have hmain : s₀.Fits (.thread, s₀.mainthread) := (h.sound.roots _ (by simp [State.roots])).1
  have hsep := separates_separateudata s false
  generalize s.separateudata false = s₁ at hsep ⊢
  have hf := hs.follows.trans hsep.follows
  have hl := hf.lists h.lists hmain
  have htri : Tri (· ∈ s₁.tmudata) s₁ := by
    have htri := hsep.tri hs.tri
    exact ⟨fun o => (htri.settles o).mono (hsep.tmudata o), htri.gray, htri.grayagain, htri.weak⟩
  obtain ⟨ha, htri', htm⟩ := marktmu_spec s₁.tmudata (hf.typed ht) hl.tmudata htri
  obtain ⟨hs', ha'⟩ := stage_propagateall h hstate (hf.trans ha.follows) htri'
  refine ⟨hs', fun x hx => ha'.mono x (ha.mono x (hsep.follows.mono x hx)), fun o ho => ?_⟩
  refine ha'.mono o (htm o ?_)
  have htm' := (ha.trans ha').frame
  rw [show s₁.marktmu.propagateall.tmudata = s₁.tmudata by
    rw [State.marktmu, htm']] at ho
  exact ho

theorem Tri.colored (h : Tri T s) : s.Colored := fun o b hb hm => (h.settles o b hb hm).1

theorem atomic_finished (h : s.Inv) (hstate : s.gcstate = .propagate) :
    ∃ s', s.atomic = s'.flip ∧ Finished s s' := by
  have hmark := h.marking hstate
  have ht : s.Typed := h.sound.typed hmark.alive
  obtain ⟨T₁, hs₁, hT₁⟩ := stage_upvals h hstate
  unfold atomic
  dsimp only
  generalize s.remarkupvals.propagateall = s₁ at *
  obtain ⟨T₂, hs₂, hT₂, hrun, hmt⟩ := stage_weak h hstate hs₁ hT₁
  rw [hs₁.follows.running] at hrun
  rw [hs₁.follows.mt] at hmt
  generalize s₁.regrayweak.marklate.propagateall = s₂ at *
  obtain ⟨hs₃, hmono₃⟩ := stage_again h hstate hs₂ hT₂
  generalize s₂.regrayagain.propagateall = s₃ at *
  obtain ⟨hs₄, hmono₄, htm⟩ := stage_tmu h hstate hs₃
  generalize (s₃.separateudata false).marktmu.propagateall = s₄ at *
  obtain ⟨ha, hcolored, hkeeps⟩ := cleartables_keepsMarked s₄.weak (hs₄.follows.typed ht) hs₄.gray
    hs₄.tri.colored (keepsMarked_of_tri hs₄.tri hs₄.gray)
  have hf := hs₄.follows.trans ha.follows
  refine ⟨s₄.cleartables, rfl, hf, hcolored, hkeeps, fun r hr => ?_, fun o ho => ?_⟩
  · rw [show s₄.cleartables.roots = s.roots from hf.roots] at hr
    have hlate : ∀ {x}, s₂.marked x → s₄.cleartables.marked x := fun hx =>
      ha.mono _ (hmono₄ _ (hmono₃ _ hx))
    simp only [State.roots, List.cons_append, List.mem_cons, List.mem_append] at hr
    rcases hr with rfl | rfl | hr | hr
    · exact hf.mono _ hmark.main
    · exact hlate hrun
    · exact hf.mono _ (hmark.registry r hr)
    · exact hlate (hmt r hr)
  · refine ha.mono o (htm o ?_)
    rw [show s₄.cleartables.tmudata = s₄.tmudata by
      rw [State.cleartables, ha.frame]] at ho
    exact ho

/-- What is not dead after the flip was marked before it, or is a fixed string. -/
theorem marked_of_keeps_flip (h : s.Sound) (hf : Finished s s')
    (halive : ∀ o b, s.body o = some b → s.isdead o = false) (hb : s'.body o = some b)
    (ho : s'.flip.keeps o = true) : s'.marked o ∨ ∃ bytes, b = .string bytes := by
  by_contra hnot
  obtain ⟨hm, hstring⟩ := not_or.mp hnot
  obtain ⟨b₀, hb₀⟩ := hf.follows.there o b hb
  have hdead : s'.isdead o = false := by
    rw [State.isdead, State.otherwhite, hf.follows.whites o hm, hf.follows.currentwhite]
    exact halive o b₀ hb₀
  have hwhite : s'.color o = .white s'.currentwhite := color_of_not_marked hm hdead
  have hdead' : s'.flip.isdead o = true := by
    rw [isdead_iff]
    change s'.color o = .white (!!s'.currentwhite)
    rw [Bool.not_not, hwhite]
  have hfixed : s.isfixed o = true := by
    rw [← hf.follows.fixed]
    rcases keeps_iff.mp ho with hk | hk
    · rw [hdead'] at hk
      cases hk
    · exact hk
  rcases h.fixed o hfixed with ⟨bytes, hbytes⟩ | rfl
  · have := hf.follows.string o bytes hbytes
    exact hstring ⟨bytes, Option.some.inj (hb.symm.trans this)⟩
  · refine hm (hf.roots (.thread, s.mainthread) ?_)
    rw [hf.follows.roots]
    exact List.mem_cons_self

theorem keeps_flip (hm : s.marked o) : s.flip.keeps o = true :=
  keeps_of_marked (s := s.flip) hm

/-- At the start of a sweep nothing was swept. -/
theorem Lists.pending (hl : s.Lists) (hstate : s.gcstate = .sweepstring) (hstr : s.sweepstrgc = 0)
    (hswept : s.swept = []) (hb : s.body o = some b) : s.Pending o b := by
  have hroot : b.isRoot = true → o ∈ s.unswept ∨ o ∈ s.tmudata := fun hb' => by
    have := (hl.mem_root o).mpr ⟨b, hb, hb'⟩
    rwa [hswept, List.nil_append, List.mem_append] at this
  unfold Pending
  split
  next bytes =>
    refine ⟨hstate, ?_⟩
    rw [hstr]
    exact (hl.mem_strt o).mpr ⟨bytes, hb⟩
  next th level =>
    obtain ⟨t, hth⟩ := hl.thread o th level hb
    have hroot := (hl.mem_root th).mpr ⟨_, hth, rfl⟩
    rw [hswept, List.nil_append, List.mem_append] at hroot
    refine ⟨.inl hstate, hroot.resolve_right fun htm => ?_⟩
    obtain ⟨mt, env, hb'⟩ := hl.tmudata th htm
    rw [hth] at hb'
    cases hb'
  next hstring hopened =>
    refine (hroot ?_).imp_left fun ho => ⟨.inl hstate, ho⟩
    cases b with
    | string bytes => exact absurd rfl (hstring bytes)
    | upval uv =>
      cases uv with
      | opened th level => exact absurd rfl (hopened th level)
      | closed v => rfl
    | _ => rfl

theorem flip_inv (h : s.Inv) (hstate : s.gcstate = .propagate) (hf : Finished s s') :
    s'.flip.Inv := by
  have hmark := h.marking hstate
  have hmain : s.Fits (.thread, s.mainthread) := (h.sound.roots _ List.mem_cons_self).1
  have hl : s'.Lists := hf.follows.lists h.lists hmain
  have ht : s'.Typed := hf.follows.typed (h.sound.typed hmark.alive)
  have hl' : s'.flip.Lists := hl.of_perm rfl (List.Perm.refl _)
    (fun o ho => ⟨hl.tmudata o ho, hl.finalized o ho⟩) rfl rfl hl.main
  refine ⟨hl', ⟨fun o b hb ho r hr => ?_, fun r hr => ?_, fun o ho => ?_⟩, hf.colored,
    fun hst => (by cases hst), fun _ => ⟨fun o b hb => .inr (hl'.pending rfl rfl rfl hb),
      fun o ho => isdead_of_marked (s := s'.flip) (hf.tmudata o ho)⟩⟩
  · refine ⟨ht o b hb r hr, keeps_flip ?_⟩
    rcases marked_of_keeps_flip h.sound hf hmark.alive hb ho with hm | ⟨bytes, rfl⟩
    · exact (hf.keeps o b hb hm).resolve_right (fun hnil => by cases hnil.1) r hr
    · cases hr
  · refine ⟨hf.follows.fits r (h.sound.roots r ?_).1, keeps_flip (hf.roots r hr)⟩
    rw [← hf.follows.roots]
    exact hr
  · rw [show s'.flip.isfixed = s.isfixed from hf.follows.fixed] at ho
    rcases h.sound.fixed o ho with ⟨bytes, hb⟩ | rfl
    · exact .inl ⟨bytes, hf.follows.string o bytes hb⟩
    · exact .inr hf.follows.mainthread.symm

/-- The atomic step keeps the invariant: what is white after it is garbage. -/
theorem atomic_inv (h : s.Inv) (hstate : s.gcstate = .propagate) : s.atomic.Inv := by
  obtain ⟨s', heq, hf⟩ := atomic_finished h hstate
  rw [heq]
  exact flip_inv h hstate hf

end State
end JLua.Collector
