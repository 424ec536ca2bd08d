import JLua.Barriers
import JLua.CollectorRuns

/-!
# New objects

A new object has the current white, so that a sweep that goes on leaves it alone, and goes into the
list that it will be freed from. A string that is in the table already is used again, even when it
is dead.
-/

namespace JLua.Collector

set_option autoImplicit false

namespace State
variable (s : State)

def create (o : Addr) (b : Body) : State :=
  { s with
    heap := Function.update s.heap o (some ⟨b, false, false⟩)
    color := Function.update s.color o (.white s.currentwhite) }

/-- A new object and `luaC_link` -/
def newobject (o : Addr) (b : Body) : State := (s.create o b).link o

/-- `luaS_newudata` -/
def newudata (o env : Addr) : State := (s.create o (.userdata none env)).linkudata o

/-- The static function `newlstr`. The limit of the size is not reached. -/
def newstring (o : Addr) (bytes : List UInt8) : State :=
  let s := s.create o (.string bytes)
  let s := { s with strt := s.chain s.strt o, nuse := s.nuse + 1 }
  if s.strt.length < s.nuse then s.resize (s.strt.length * 2) else s

/-- `luaS_newlstr`: the string, and the address that a new one gets. -/
def newlstr (bytes : List UInt8) (o : Addr) : State × Addr :=
  let bucket := s.strt.getD (lmod (Strings.hash bytes) s.strt.length) []
  match bucket.find? fun o => s.body o = some (.string bytes) with
  | some o => (if s.isdead o then s.makewhite o else s, o)
  | none => (s.newstring o bytes, o)

variable {s : State} {s' s'' : State} {o x th : Addr} {b b' : Body} {v : TValue} {t : Thread}

/-- An object that is no open upvalue, and no thread with some, is new. -/
structure Creates (o : Addr) (b : Body) (s s' : State) : Prop where
  frame : s' = { s.create o b with
    swept := s'.swept, unswept := s'.unswept, strt := s'.strt, nuse := s'.nuse }
  fresh : s.heap o = none
  closed : ∀ th level, b ≠ .upval (.opened th level)
  thread : ∀ t, b = .thread t → t.openupval = []
  root : b.isRoot = true → (s'.swept ++ s'.unswept).Perm (o :: (s.swept ++ s.unswept))
  other : b.isRoot = false → s'.swept ++ s'.unswept = s.swept ++ s.unswept
  unswept : ∀ x ∈ s.unswept, x ∈ s'.unswept
  string : b.isRoot = false → s'.strt.flatten.Perm (o :: s.strt.flatten)
  strt : b.isRoot = true → s'.strt = s.strt
  drop : s.gcstate = .sweepstring → ∀ x ∈ (s.strt.drop s.sweepstrgc).flatten,
    x ∈ (s'.strt.drop s.sweepstrgc).flatten

theorem Creates.heap (h : Creates o b s s') (hx : x ≠ o) : s'.heap x = s.heap x := by
  rw [h.frame]
  exact Function.update_of_ne hx ..

theorem Creates.heap_self (h : Creates o b s s') : s'.heap o = some ⟨b, false, false⟩ := by
  rw [h.frame]
  exact Function.update_self ..

theorem Creates.color (h : Creates o b s s') (hx : x ≠ o) : s'.color x = s.color x := by
  rw [h.frame]
  exact Function.update_of_ne hx ..

theorem Creates.color_self (h : Creates o b s s') : s'.color o = .white s.currentwhite := by
  rw [h.frame]
  exact Function.update_self ..

theorem Creates.body (h : Creates o b s s') (hx : x ≠ o) : s'.body x = s.body x := by
  rw [State.body, State.body, h.heap hx]

theorem Creates.body_self (h : Creates o b s s') : s'.body o = some b := by
  rw [State.body, h.heap_self]
  rfl

theorem Creates.ne (h : Creates o b s s') (hx : s.body x = some b') : x ≠ o := fun hxo => by
  rw [State.body, hxo, h.fresh] at hx
  cases hx

theorem Creates.currentwhite (h : Creates o b s s') : s'.currentwhite = s.currentwhite := by
  rw [h.frame]
  rfl

theorem Creates.keeps (h : Creates o b s s') (hx : x ≠ o) : s'.keeps x = s.keeps x :=
  keeps_congr (h.heap hx) (h.color hx) h.currentwhite

theorem Creates.keeps_self (h : Creates o b s s') : s'.keeps o = true :=
  keeps_iff.mpr (.inl (isdead_of_white (by rw [h.color_self, h.currentwhite])))

theorem Creates.holds (h : Creates o b s s') {r : Ref} (hr : s.Holds r) : s'.Holds r := by
  obtain ⟨⟨b', hb', hacc⟩, hk⟩ := hr
  have hne := h.ne hb'
  exact ⟨⟨b', (h.body hne).trans hb', hacc⟩, (h.keeps hne).trans hk⟩

/-- The references of the other objects do not change: no open upvalue is one of a new thread. -/
theorem Creates.refs (h : Creates o b s s') (hl : s.Lists) (hx : s.body x = some b') :
    s'.refs b' = s.refs b' := by
  cases b' with
  | upval uv =>
    cases uv with
    | opened th level =>
      obtain ⟨t, ht⟩ := hl.thread x th level hx
      have hbody := h.body (h.ne ht)
      simp only [State.refs, State.value, hbody]
    | closed v => rfl
  | _ => rfl

/-- The references of the new object do not depend on the state. -/
theorem Creates.refs_self (h : Creates o b s s') : s'.refs b = s.refs b := by
  cases b with
  | upval uv =>
    cases uv with
    | opened th level => exact absurd rfl (h.closed th level)
    | closed v => rfl
  | _ => rfl

theorem string_or_root (hb : b.isRoot = false)
    (hclosed : ∀ th level, b ≠ .upval (.opened th level)) : ∃ bytes, b = .string bytes := by
  cases b with
  | string bytes => exact ⟨bytes, rfl⟩
  | upval uv =>
    cases uv with
    | opened th level => exact absurd rfl (hclosed th level)
    | closed v => cases hb
  | _ => cases hb

theorem Creates.gcstate (h : Creates o b s s') : s'.gcstate = s.gcstate := by rw [h.frame]; rfl

theorem Creates.tmudata (h : Creates o b s s') : s'.tmudata = s.tmudata := by rw [h.frame]; rfl

theorem Creates.mainthread (h : Creates o b s s') : s'.mainthread = s.mainthread := by
  rw [h.frame]
  rfl

theorem Creates.form (h : Creates o b s s') (hf : b ≠ b') :
    s.body x = some b' ↔ s'.body x = some b' := by
  by_cases hx : x = o
  · subst hx
    rw [h.body_self, State.body, h.fresh]
    constructor
    · intro hnone
      cases hnone
    · intro hb
      exact absurd (Option.some.inj hb) hf
  · rw [h.body hx]

theorem Creates.not_root (h : Creates o b s s') (hl : s.Lists) :
    o ∉ s.swept ++ s.unswept ++ s.tmudata := fun ho => by
  obtain ⟨b', hb', -⟩ := (hl.mem_root o).mp ho
  exact h.ne hb' rfl

theorem Creates.rootNodup (h : Creates o b s s') (hl : s.Lists) :
    (s'.swept ++ s'.unswept ++ s'.tmudata).Nodup := by
  rw [h.tmudata]
  cases hb : b.isRoot with
  | true =>
    have hperm := (h.root hb).append_right s.tmudata
    rw [hperm.nodup_iff]
    exact List.nodup_cons.mpr ⟨h.not_root hl, hl.rootNodup⟩
  | false =>
    rw [h.other hb]
    exact hl.rootNodup

theorem Creates.mem_root (h : Creates o b s s') (hl : s.Lists) (x : Addr) :
    x ∈ s'.swept ++ s'.unswept ++ s'.tmudata ↔
      ∃ b', s'.body x = some b' ∧ b'.isRoot = true := by
  rw [h.tmudata]
  cases hb : b.isRoot with
  | true =>
    have hperm := (h.root hb).append_right s.tmudata
    rw [hperm.mem_iff]
    by_cases hx : x = o
    · subst hx
      exact ⟨fun _ => ⟨b, h.body_self, hb⟩, fun _ => List.mem_cons_self⟩
    · rw [h.body hx, ← hl.mem_root x]
      exact ⟨fun hx' => (List.mem_cons.mp hx').resolve_left hx, List.mem_cons_of_mem _⟩
  | false =>
    rw [h.other hb]
    by_cases hx : x = o
    · subst hx
      refine ⟨fun hx => absurd hx (h.not_root hl), fun hx => ?_⟩
      obtain ⟨b', hb', hroot⟩ := hx
      rw [h.body_self] at hb'
      rw [← Option.some.inj hb', hb] at hroot
      cases hroot
    · rw [h.body hx]
      exact hl.mem_root x

theorem Creates.strNodup (h : Creates o b s s') (hl : s.Lists) : s'.strt.flatten.Nodup := by
  cases hb : b.isRoot with
  | true =>
    rw [h.strt hb]
    exact hl.strNodup
  | false =>
    have hnew : o ∉ s.strt.flatten := fun ho => by
      obtain ⟨bytes, hb'⟩ := (hl.mem_strt o).mp ho
      exact h.ne hb' rfl
    rw [(h.string hb).nodup_iff]
    exact List.nodup_cons.mpr ⟨hnew, hl.strNodup⟩

theorem Creates.mem_strt (h : Creates o b s s') (hl : s.Lists) (x : Addr) :
    x ∈ s'.strt.flatten ↔ ∃ bytes, s'.body x = some (.string bytes) := by
  cases hb : b.isRoot with
  | true =>
    rw [h.strt hb]
    refine (hl.mem_strt x).trans (exists_congr fun bytes => h.form fun hf => ?_)
    rw [hf] at hb
    cases hb
  | false =>
    obtain ⟨bytes, hbytes⟩ := string_or_root hb h.closed
    rw [(h.string hb).mem_iff, List.mem_cons]
    by_cases hx : x = o
    · subst hx
      exact ⟨fun _ => ⟨bytes, h.body_self.trans (congrArg some hbytes)⟩, fun _ => .inl rfl⟩
    · rw [h.body hx, ← hl.mem_strt]
      exact ⟨fun hx' => hx'.resolve_left hx, .inr⟩

theorem Creates.opened (h : Creates o b s s') {level : Nat} :
    s.body x = some (.upval (.opened th level)) ↔
      s'.body x = some (.upval (.opened th level)) := h.form (h.closed th level)

theorem Creates.thread_cases (h : Creates o b s s') {t' : Thread}
    (ht : s'.body th = some (.thread t')) :
    s.body th = some (.thread t') ∨ th = o ∧ t'.openupval = [] := by
  by_cases hth : th = o
  · rw [hth, h.body_self] at ht
    exact .inr ⟨hth, h.thread t' (Option.some.inj ht)⟩
  · exact .inl ((h.body hth) ▸ ht)

theorem Creates.lists (h : Creates o b s s') (hl : s.Lists) : s'.Lists := by
  have huv : s'.uvhead = s.uvhead := by rw [h.frame]; rfl
  refine ⟨h.rootNodup hl, h.mem_root hl, fun x hx => ?_, fun x hx => ?_, h.strNodup hl,
    h.mem_strt hl, huv ▸ hl.uvNodup, fun x => ?_, fun th t' ht' => ?_, fun th t' ht' x => ?_,
    fun x th level hx => ?_, ?_⟩
  · obtain ⟨mt, env, hb⟩ := hl.tmudata x (h.tmudata ▸ hx)
    exact ⟨mt, env, (h.body (h.ne hb)).trans hb⟩
  · obtain ⟨mt, env, hb⟩ := hl.tmudata x (h.tmudata ▸ hx)
    rw [isfinalized, h.heap (h.ne hb)]
    exact hl.finalized x (h.tmudata ▸ hx)
  · rw [huv]
    exact (hl.mem_uvhead x).trans (exists_congr fun th => exists_congr fun level => h.opened)
  · rcases h.thread_cases ht' with ht | ⟨-, hnil⟩
    · exact hl.openNodup th t' ht
    · rw [hnil]
      exact List.nodup_nil
  · rcases h.thread_cases ht' with ht | ⟨rfl, hnil⟩
    · exact (hl.mem_open th t' ht x).trans (exists_congr fun level => h.opened)
    · rw [hnil]
      refine ⟨fun hx => (by cases hx), fun hx => ?_⟩
      obtain ⟨level, hb⟩ := hx
      obtain ⟨t, ht⟩ := hl.thread x th level (h.opened.mpr hb)
      exact absurd rfl (h.ne ht)
  · obtain ⟨t, ht⟩ := hl.thread x th level (h.opened.mpr hx)
    exact ⟨t, (h.body (h.ne ht)).trans ht⟩
  · rw [h.mainthread]
    cases hb : b.isRoot with
    | true => exact (h.root hb).mem_iff.mpr (List.mem_cons_of_mem _ hl.main)
    | false =>
      rw [h.other hb]
      exact hl.main

theorem Creates.marked (h : Creates o b s s') (hx : x ≠ o) : s'.marked x ↔ s.marked x := by
  rw [State.marked, State.marked, h.color hx]

theorem Creates.isdead_false (h : Creates o b s s') (hx : x ≠ o → s.isdead x = false) :
    s'.isdead x = false := by
  by_cases hxo : x = o
  · exact isdead_of_white (by rw [hxo, h.color_self, h.currentwhite])
  · have hx' := hx hxo
    unfold State.isdead otherwhite at hx' ⊢
    rwa [h.color hxo, h.currentwhite]

theorem Creates.colored (h : Creates o b s s') (hs : s.Colored) : s'.Colored := fun x b' hx hm => by
  have hxo : x ≠ o := fun hxo => by
    rw [State.marked, hxo, h.color_self] at hm
    cases hm
  rw [h.color hxo]
  exact hs x b' ((h.body hxo) ▸ hx) ((h.marked hxo).mp hm)

/-- What the new object refers to is not dead. -/
theorem Creates.sound (h : Creates o b s s') (hl : s.Lists) (hs : s.Sound)
    (hrefs : ∀ r ∈ s.refs b, s.Holds r) : s'.Sound := by
  have hroots : s'.roots = s.roots := by rw [h.frame]; rfl
  refine ⟨fun x b' hx hk r hr => h.holds ?_, fun r hr => h.holds ?_, fun x hx => ?_⟩
  · by_cases hxo : x = o
    · rw [hxo, h.body_self] at hx
      obtain rfl := Option.some.inj hx
      rw [h.refs_self] at hr
      exact hrefs r hr
    · rw [h.body hxo] at hx
      rw [h.keeps hxo] at hk
      rw [h.refs hl hx] at hr
      exact hs.refs x b' hx hk r hr
  · exact hs.roots r (hroots ▸ hr)
  · have hxo : x ≠ o := fun hxo => by
      rw [isfixed, hxo, h.heap_self] at hx
      cases hx
    rw [isfixed, h.heap hxo] at hx
    rcases hs.fixed x hx with ⟨bytes, hb⟩ | rfl
    · exact .inl ⟨bytes, (h.body hxo).trans hb⟩
    · exact .inr h.mainthread.symm

/-- The new object is white: it is neither black nor in a gray list. -/
theorem Creates.frontier (h : Creates o b s s') (hl : s.Lists) (hs : s.Sound)
    (hf : s.Frontier) : s'.Frontier := by
  have hgray : s'.gray = s.gray := by rw [h.frame]; rfl
  have hagain : s'.grayagain = s.grayagain := by rw [h.frame]; rfl
  have hweak : s'.weak = s.weak := by rw [h.frame]; rfl
  have hlisted : ∀ l, s.Listed l → s'.Listed l := fun l hlist x hx => by
    obtain ⟨b', hb', hl'⟩ := hlist x hx
    exact ⟨b', (h.body (h.ne hb')).trans hb', hl'⟩
  refine ⟨fun x b' hx hc htm r hr => ?_, fun x b' hx hc hlist => ?_, hgray ▸ hlisted _ hf.gray,
    hagain ▸ hlisted _ hf.grayagain, hweak ▸ hlisted _ hf.weak⟩
  · have hxo : x ≠ o := fun hxo => by
      rw [hxo, h.color_self] at hc
      cases hc
    rw [h.body hxo] at hx
    rw [h.color hxo] at hc
    rw [h.refs hl hx] at hr
    obtain ⟨br, hbr, -⟩ := (hs.refs x b' hx (keeps_of_black hc) r hr).1
    exact (h.marked (h.ne hbr)).mpr (hf.black x b' hx hc (h.tmudata ▸ htm) r hr)
  · have hxo : x ≠ o := fun hxo => by
      rw [hxo, h.color_self] at hc
      cases hc
    rw [h.body hxo] at hx
    rw [h.color hxo] at hc
    rw [hgray, hagain, hweak]
    exact hf.waits x b' hx hc hlist

theorem Creates.marking (h : Creates o b s s') (hs : s.Inv) (hst : s.gcstate = .propagate) :
    s'.Marking := by
  have hmark := hs.marking hst
  have hfrontier := h.frontier hs.lists hs.sound hmark.tri.frontier
  have hroot : ∀ r ∈ s.roots, s.marked r.2 → s'.marked r.2 := fun r hr hm => by
    obtain ⟨b', hb', -⟩ := (hs.sound.roots r hr).1
    exact (h.marked (h.ne hb')).mpr hm
  refine ⟨hfrontier.tri (h.colored hs.colored) (h.lists hs.lists).tmudata,
    fun x b' hx => h.isdead_false fun hxo => ?_, ?_, fun r hr => ?_⟩
  · exact hmark.alive x b' ((h.body hxo) ▸ hx)
  · rw [h.mainthread]
    exact hroot (.thread, s.mainthread) List.mem_cons_self hmark.main
  · have hregistry : s'.registry = s.registry := by rw [h.frame]; rfl
    rw [hregistry] at hr
    refine hroot r ?_ (hmark.registry r hr)
    exact List.mem_append_left _ (List.mem_cons_of_mem _ (List.mem_cons_of_mem _ hr))

theorem Creates.sweeping (h : Creates o b s s') (hs : s.Sweeping) : s'.Sweeping := by
  have hgc : s'.sweepstrgc = s.sweepstrgc := by rw [h.frame]; rfl
  refine ⟨fun x b' hx => ?_, fun x hx => h.isdead_false fun _ => hs.tmudata x (h.tmudata ▸ hx)⟩
  by_cases hxo : x = o
  · exact .inl (by rw [hxo, h.color_self, h.currentwhite])
  rw [h.body hxo] at hx
  rw [h.color hxo, h.currentwhite]
  have hroot : ((s.gcstate = .sweepstring ∨ s.gcstate = .sweep) ∧ x ∈ s.unswept ∨
      x ∈ s.tmudata) → (s'.gcstate = .sweepstring ∨ s'.gcstate = .sweep) ∧ x ∈ s'.unswept ∨
      x ∈ s'.tmudata := fun hp => by
    rw [h.gcstate, h.tmudata]
    exact hp.imp_left fun hp => ⟨hp.1, h.unswept x hp.2⟩
  refine (hs.pending x b' hx).imp_right fun hp => ?_
  cases b' with
  | string bytes =>
    refine ⟨h.gcstate.trans hp.1, ?_⟩
    rw [hgc]
    exact h.drop hp.1 x hp.2
  | upval uv =>
    cases uv with
    | opened th level =>
      refine ⟨?_, h.unswept th hp.2⟩
      rw [h.gcstate]
      exact hp.1
    | closed v => exact hroot hp
  | _ => exact hroot hp

theorem Creates.inv (h : Creates o b s s') (hs : s.Inv) (hrefs : ∀ r ∈ s.refs b, s.Holds r) :
    s'.Inv where
  lists := h.lists hs.lists
  sound := h.sound hs.lists hs.sound hrefs
  colored := h.colored hs.colored
  marking := fun hst => h.marking hs (h.gcstate.symm.trans hst)
  sweeping := fun hst => h.sweeping (hs.sweeping (h.gcstate ▸ hst))

/-! ### Linking -/

theorem creates_newobject (hfresh : s.heap o = none) (hroot : b.isRoot = true)
    (hthread : ∀ t, b = .thread t → t.openupval = []) : Creates o b s (s.newobject o b) := by
  have hframe := link_frame (s.create o b) o
  refine ⟨?_, hfresh, fun th level hf => ?_, hthread, fun _ => link_perm (s.create o b) o,
    fun hb => ?_, fun x hx => mem_unswept_link (s := s.create o b) hx, fun hb => ?_, fun _ => ?_,
    fun _ x hx => ?_⟩
  · rw [newobject, hframe]
  · rw [hf] at hroot
    cases hroot
  · rw [hroot] at hb
    cases hb
  · rw [hroot] at hb
    cases hb
  · rw [newobject, hframe]
    rfl
  · rw [newobject, hframe]
    exact hx

theorem creates_newudata (hl : s.Lists) (hfresh : s.heap o = none) (env : Addr) :
    Creates o (.userdata none env) s (s.newudata o env) := by
  obtain ⟨swept, unswept, heq, hperm, hmem⟩ := linkudata_spec
    (s := s.create o (.userdata none env)) hl.main (List.nodup_append.mp hl.rootNodup).1 o
  rw [newudata, heq]
  exact ⟨rfl, hfresh, fun _ _ hf => (by cases hf), fun _ hf => (by cases hf), fun _ => hperm,
    fun hb => (by cases hb), hmem, fun hb => (by cases hb), fun _ => rfl, fun _ _ => id⟩

theorem mem_drop_modify {strt : List (List Addr)} {i j : Nat} (o : Addr)
    (h : x ∈ (strt.drop j).flatten) : x ∈ ((strt.modify i (o :: ·)).drop j).flatten := by
  induction strt generalizing i j with
  | nil =>
    rw [List.drop_nil] at h
    cases h
  | cons bucket strt ih =>
    cases i with
    | zero =>
      cases j with
      | zero => exact List.mem_cons_of_mem _ h
      | succ j => exact h
    | succ i =>
      rw [List.modify_succ_cons]
      cases j with
      | zero =>
        rw [List.drop_zero, List.flatten_cons, List.mem_append] at h ⊢
        exact h.imp_right fun h => ih (j := 0) h
      | succ j => exact ih (j := j) h

theorem creates_newstring (hstrt : s.strt ≠ []) (hfresh : s.heap o = none)
    (bytes : List UInt8) : Creates o (.string bytes) s (s.newstring o bytes) := by
  have hcreates : ∀ strt : List (List Addr), strt.flatten.Perm (o :: s.strt.flatten) →
      (s.gcstate = .sweepstring → ∀ x ∈ (s.strt.drop s.sweepstrgc).flatten,
        x ∈ (strt.drop s.sweepstrgc).flatten) →
      Creates o (.string bytes) s
        { s.create o (.string bytes) with strt, nuse := s.nuse + 1 } := fun strt hperm hdrop =>
    ⟨rfl, hfresh, fun _ _ hf => (by cases hf), fun _ hf => (by cases hf), fun hb => (by cases hb),
      fun _ => rfl, fun _ => id, fun _ => hperm, fun hb => (by cases hb), hdrop⟩
  set s₁ : State := s.create o (.string bytes)
  have hchain : (s₁.chain s.strt o).flatten.Perm (o :: s.strt.flatten) := flatten_chain hstrt o
  set s₂ : State := { s₁ with strt := s₁.chain s.strt o, nuse := s.nuse + 1 } with hs₂
  change Creates o (.string bytes) s
    (if s₂.strt.length < s₂.nuse then s₂.resize (s₂.strt.length * 2) else s₂)
  split
  next =>
    have hpos : 0 < s₂.strt.length * 2 :=
      Nat.mul_pos (List.length_pos_iff.mpr (chain_ne_nil hstrt o)) Nat.two_pos
    obtain ⟨strt, heq, hperm, hsame⟩ := resize_spec s₂ hpos
    rw [heq]
    refine hcreates strt (hperm.trans hchain) fun hst x hx => ?_
    rw [hsame hst]
    exact mem_drop_modify o hx
  next => exact hcreates _ hchain fun _ x hx => mem_drop_modify o hx

/-- The string is there afterwards, and not dead. -/
theorem newlstr_inv (hs : s.Inv) (hstrt : s.strt ≠ []) (hfresh : s.heap o = none)
    (bytes : List UInt8) : (s.newlstr bytes o).1.Inv ∧
      (∀ r, s.Holds r → (s.newlstr bytes o).1.Holds r) ∧
      (s.newlstr bytes o).1.body (s.newlstr bytes o).2 = some (.string bytes) ∧
      (s.newlstr bytes o).1.keeps (s.newlstr bytes o).2 = true ∧
      (s.newlstr bytes o).1.running = s.running := by
  unfold newlstr
  dsimp only
  split
  next a hfind =>
    have hb : s.body a = some (.string bytes) := by
      have hp := List.find?_some hfind
      exact of_decide_eq_true hp
    cases hdead : s.isdead a with
    | false =>
      rw [if_neg Bool.false_ne_true]
      exact ⟨hs, fun _ => id, hb, keeps_iff.mpr (.inl hdead), rfl⟩
    | true =>
      rw [if_pos rfl]
      have hst : s.gcstate ≠ .propagate := fun hst => by
        rw [(hs.marking hst).alive a _ hb] at hdead
        cases hdead
      have hk : (s.makewhite a).keeps a = true :=
        keeps_iff.mpr (.inl (isdead_of_white setColor_self))
      refine ⟨makewhite_inv hs hst hb fun r hr => (by cases hr), fun r hr => ⟨hr.1, ?_⟩, hb, hk,
        rfl⟩
      by_cases hx : r.2 = a
      · rw [hx]
        exact hk
      · have hsame : (s.makewhite a).keeps r.2 = s.keeps r.2 :=
          keeps_congr rfl (setColor_of_ne hx) rfl
        rw [hsame]
        exact hr.2
  next =>
    have hc := creates_newstring hstrt hfresh bytes
    refine ⟨hc.inv hs fun r hr => (by cases hr), fun r => hc.holds, hc.body_self, hc.keeps_self, ?_⟩
    rw [hc.frame]
    rfl

end State
end JLua.Collector
