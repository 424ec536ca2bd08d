import JLua.Propagation

/-!
# The invariant of the collector

Every object is in the list that it is freed from; what is not dead refers to what is not dead; and
the colors are right for the phase. In the marking phase nothing is dead, and the frontier is as
`Tri` says; in the others whatever does not have the current white is yet to be swept.
-/

namespace JLua.Collector

set_option autoImplicit false

/-- Strings are in the table of strings, open upvalues in the list of their thread. -/
def Body.isRoot : Body → Bool
  | string _ | upval (.opened _ _) => false
  | _ => true

namespace State
variable {s s' s'' : State} {o x : Addr} {c : Color} {b : Body} {v : TValue} {T T' : Addr → Prop}

/-- Every object is in one list, once. -/
structure Lists (s : State) : Prop where
  rootNodup : (s.swept ++ s.unswept ++ s.tmudata).Nodup
  mem_root : ∀ o, o ∈ s.swept ++ s.unswept ++ s.tmudata ↔
    ∃ b, s.body o = some b ∧ b.isRoot = true
  tmudata : ∀ o ∈ s.tmudata, ∃ mt env, s.body o = some (.userdata mt env)
  finalized : ∀ o ∈ s.tmudata, s.isfinalized o = true
  strNodup : s.strt.flatten.Nodup
  mem_strt : ∀ o, o ∈ s.strt.flatten ↔ ∃ bytes, s.body o = some (.string bytes)
  uvNodup : s.uvhead.Nodup
  mem_uvhead : ∀ o, o ∈ s.uvhead ↔ ∃ th level, s.body o = some (.upval (.opened th level))
  openNodup : ∀ th t, s.body th = some (.thread t) → t.openupval.Nodup
  mem_open : ∀ th t, s.body th = some (.thread t) → ∀ o, o ∈ t.openupval ↔
    ∃ level, s.body o = some (.upval (.opened th level))
  thread : ∀ o th level, s.body o = some (.upval (.opened th level)) →
    ∃ t, s.body th = some (.thread t)
  main : s.mainthread ∈ s.swept ++ s.unswept

def roots (s : State) : List Ref :=
  (.thread, s.mainthread) :: (.thread, s.running) :: s.registry.refs ++
    s.mt.flatMap (optionRefs .table)

/-- The object is there, of the right kind, and the sweep will not free it. -/
def Holds (s : State) (r : Ref) : Prop := s.Fits r ∧ s.keeps r.2 = true

structure Sound (s : State) : Prop where
  refs : ∀ o b, s.body o = some b → s.keeps o = true → ∀ r ∈ s.refs b, s.Holds r
  roots : ∀ r ∈ s.roots, s.Holds r
  fixed : ∀ o, s.isfixed o = true → (∃ bytes, s.body o = some (.string bytes)) ∨ o = s.mainthread

def Colored (s : State) : Prop :=
  ∀ o b, s.body o = some b → s.marked o → b.mayBe (s.color o) = true

/-- The marking phase. -/
structure Marking (s : State) : Prop where
  tri : Tri (fun _ => True) s
  alive : ∀ o b, s.body o = some b → s.isdead o = false
  main : s.marked s.mainthread
  registry : ∀ r ∈ s.registry.refs, s.marked r.2

/-- The sweep has not come to the object yet, or its finalizer waits. -/
def Pending (s : State) (o : Addr) : Body → Prop
  | .string _ => s.gcstate = .sweepstring ∧ o ∈ (s.strt.drop s.sweepstrgc).flatten
  | .upval (.opened th _) => (s.gcstate = .sweepstring ∨ s.gcstate = .sweep) ∧ th ∈ s.unswept
  | _ => (s.gcstate = .sweepstring ∨ s.gcstate = .sweep) ∧ o ∈ s.unswept ∨ o ∈ s.tmudata

/-- The other phases. -/
structure Sweeping (s : State) : Prop where
  pending : ∀ o b, s.body o = some b → s.color o = .white s.currentwhite ∨ s.Pending o b
  tmudata : ∀ o ∈ s.tmudata, s.isdead o = false

structure Inv (s : State) : Prop where
  lists : s.Lists
  sound : s.Sound
  colored : s.Colored
  marking : s.gcstate = .propagate → s.Marking
  sweeping : s.gcstate ≠ .propagate → s.Sweeping

/-! ### Colors -/

theorem isdead_iff : s.isdead o = true ↔ s.color o = .white (!s.currentwhite) := by
  rw [isdead, otherwhite, decide_eq_true_iff]

theorem isdead_of_marked (h : s.marked o) : s.isdead o = false := by
  rw [← Bool.not_eq_true, isdead_iff]
  intro hc
  rw [State.marked, hc] at h
  cases h

theorem keeps_iff : s.keeps o = true ↔ s.isdead o = false ∨ s.isfixed o = true := by
  rw [keeps, Bool.or_eq_true, Bool.not_eq_true']

theorem keeps_of_marked (h : s.marked o) : s.keeps o = true :=
  keeps_iff.mpr (.inl (isdead_of_marked h))

/-- What is neither marked nor dead has the current white. -/
theorem color_of_not_marked (h : ¬s.marked o) (hdead : s.isdead o = false) :
    s.color o = .white s.currentwhite := by
  cases hc : s.color o with
  | white bit =>
    refine congrArg Color.white ?_
    by_contra hne
    have hbit : bit = !s.currentwhite := by
      cases bit <;> cases hw : s.currentwhite <;> simp_all
    rw [hbit, ← isdead_iff, hdead] at hc
    cases hc
  | gray | black => exact absurd (by rw [State.marked, hc]; rfl) h

theorem Sound.typed (h : s.Sound) (halive : ∀ o b, s.body o = some b → s.isdead o = false) :
    s.Typed := by
  intro o b hb r hr
  exact (h.refs o b hb (keeps_iff.mpr (.inl (halive o b hb))) r hr).1

theorem Lists.covers (h : s.Lists) : s.Covers s.rootgc := by
  intro o b hb hl
  have hroot : o ∈ s.swept ++ s.unswept ++ s.tmudata := by
    refine (h.mem_root o).mpr ⟨b, hb, ?_⟩
    cases b <;> first | rfl | cases hl
  rcases List.mem_append.mp hroot with ho | ho
  · exact ho
  · obtain ⟨mt, env, hb'⟩ := h.tmudata o ho
    obtain rfl := Option.some.inj (hb.symm.trans hb')
    cases hl

/-! ### Propagation -/

theorem SameTables.isfixed (h : SameTables s s') : s'.isfixed = s.isfixed := by
  funext x
  rw [State.isfixed, State.isfixed]
  rcases h x with heq | ⟨obj, t, t', hobj, -, hobj', -⟩
  · rw [heq]
  · rw [hobj, hobj']
    rfl

theorem SameTables.isfinalized (h : SameTables s s') : s'.isfinalized = s.isfinalized := by
  funext x
  rw [State.isfinalized, State.isfinalized]
  rcases h x with heq | ⟨obj, t, t', hobj, -, hobj', -⟩
  · rw [heq]
  · rw [hobj, hobj']
    rfl

/-- The lists do not change and hold the same kinds of objects. -/
theorem Lists.congr (h : s.Lists) (hs : SameTables s s') (hswept : s'.swept = s.swept)
    (hunswept : s'.unswept = s.unswept) (htm : s'.tmudata = s.tmudata) (hstrt : s'.strt = s.strt)
    (huv : s'.uvhead = s.uvhead) (hmain : s'.mainthread = s.mainthread) : s'.Lists where
  rootNodup := by
    rw [hswept, hunswept, htm]
    exact h.rootNodup
  mem_root o := by
    rw [hswept, hunswept, htm, h.mem_root, hs.pred fun _ _ => rfl]
  tmudata o ho := by
    obtain ⟨mt, env, hb⟩ := h.tmudata o (htm ▸ ho)
    exact ⟨mt, env, (hs.body (by simp [Body.kind])).mpr hb⟩
  finalized o ho := by
    rw [hs.isfinalized]
    exact h.finalized o (htm ▸ ho)
  strNodup := by
    rw [hstrt]
    exact h.strNodup
  mem_strt o := by
    rw [hstrt, h.mem_strt]
    exact exists_congr fun _ => (hs.body (by simp [Body.kind])).symm
  uvNodup := by
    rw [huv]
    exact h.uvNodup
  mem_uvhead o := by
    rw [huv, h.mem_uvhead]
    exact exists_congr fun _ => exists_congr fun _ => (hs.body (by simp [Body.kind])).symm
  openNodup th t ht := h.openNodup th t ((hs.body (by simp [Body.kind])).mp ht)
  mem_open th t ht o := by
    rw [h.mem_open th t ((hs.body (by simp [Body.kind])).mp ht)]
    exact exists_congr fun _ => (hs.body (by simp [Body.kind])).symm
  thread o th level ho := by
    obtain ⟨t, ht⟩ := h.thread o th level ((hs.body (by simp [Body.kind])).mp ho)
    exact ⟨t, (hs.body (by simp [Body.kind])).mpr ht⟩
  main := by
    rw [hswept, hunswept, hmain]
    exact h.main

/-- The objects of `rootgc` and the waiting userdata in another order. -/
theorem Lists.of_perm (h : s.Lists) (hbody : s'.body = s.body)
    (hperm : (s'.swept ++ s'.unswept ++ s'.tmudata).Perm (s.swept ++ s.unswept ++ s.tmudata))
    (htm : ∀ o ∈ s'.tmudata, (∃ mt env, s.body o = some (.userdata mt env)) ∧
      s'.isfinalized o = true)
    (hstrt : s'.strt = s.strt) (huv : s'.uvhead = s.uvhead)
    (hmain : s'.mainthread ∈ s'.swept ++ s'.unswept) : s'.Lists where
  rootNodup := hperm.nodup_iff.mpr h.rootNodup
  mem_root o := by rw [hbody, ← h.mem_root, hperm.mem_iff]
  tmudata o ho := by
    rw [hbody]
    exact (htm o ho).1
  finalized o ho := (htm o ho).2
  strNodup := by
    rw [hstrt]
    exact h.strNodup
  mem_strt := by
    rw [hstrt, hbody]
    exact h.mem_strt
  uvNodup := by
    rw [huv]
    exact h.uvNodup
  mem_uvhead := by
    rw [huv, hbody]
    exact h.mem_uvhead
  openNodup := by
    rw [hbody]
    exact h.openNodup
  mem_open := by
    rw [hbody]
    exact h.mem_open
  thread := by
    rw [hbody]
    exact h.thread
  main := hmain

theorem Lists.advances (h : s.Lists) (hs : Advances s s') : s'.Lists := by
  have hf := hs.frame
  exact h.congr hs.tables (by rw [hf]) (by rw [hf]) (by rw [hf]) (by rw [hf]) (by rw [hf])
    (by rw [hf])

/-- What was not dead still is not. -/
theorem Advances.isdead (h : Advances s s') (hx : s.isdead x = false) : s'.isdead x = false := by
  by_cases hm : s'.marked x
  · exact isdead_of_marked hm
  · rw [State.isdead, State.otherwhite, h.whites x hm, h.frame]
    exact hx

end State
end JLua.Collector
