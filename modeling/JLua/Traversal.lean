import JLua.Rehash

/-!
# Traversals

A traversal goes through the slots of a table. It goes on after assignments to the fields the
table has, and after the collector has come by, and meets no field twice.
-/

namespace JLua.Tables

open BinaryFloat Chains TransitionRuns
set_option autoImplicit false

namespace Table
variable {t t' : Table} {key k v : Value} {i j p q : Nat}

/-! ### Slots by their index -/

def keyAt (t : Table) (i : Nat) : Value :=
  if i < t.sizearray then .number (.ofInt _ ((i : Int) + 1))
  else (t.node (i - t.sizearray)).key.value

def valueAt (t : Table) (i : Nat) : Value :=
  if i < t.sizearray then t.array i else (t.node (i - t.sizearray)).val

/-- The slot is that of a key that can still be found. -/
def LiveAt (t : Table) (i : Nat) : Prop :=
  i < t.sizearray ∨ ∃ k, (t.node (i - t.sizearray)).key = .live k

/-- The first slot from `i` on that holds a value. -/
structure FirstFrom (t : Table) (i q : Nat) : Prop where
  le : i ≤ q
  val : t.valueAt q ≠ .nil
  none : ∀ j, i ≤ j → j < q → t.valueAt j = .nil

theorem findSome?_range'_some {β : Type} {c : Nat → Prop} [DecidablePred c] {g : Nat → β} {n : Nat}
    {e : β} (h : (List.range' i n).findSome? (fun j => if c j then some (g j) else none) = some e) :
    ∃ q, i ≤ q ∧ q < i + n ∧ c q ∧ e = g q ∧ ∀ j, i ≤ j → j < q → ¬ c j := by
  induction n generalizing i with
  | zero => cases h
  | succ n ih =>
    rw [List.range'_succ, List.findSome?_cons] at h
    by_cases hc : c i
    · rw [if_pos hc] at h
      exact ⟨i, le_rfl, by omega, hc, (Option.some.inj h).symm, fun j hlo hhi => by omega⟩
    · rw [if_neg hc] at h
      obtain ⟨q, hlo, hhi, hq, heq, hnone⟩ := ih h
      refine ⟨q, by omega, by omega, hq, heq, fun j hj hjq => ?_⟩
      rcases Nat.eq_or_lt_of_le hj with rfl | hlt
      · exact hc
      · exact hnone j hlt hjq

theorem findSome?_range'_none {β : Type} {c : Nat → Prop} [DecidablePred c] {g : Nat → β} {n : Nat}
    (h : (List.range' i n).findSome? (fun j => if c j then some (g j) else none) = none) :
    ∀ j, i ≤ j → j < i + n → ¬ c j := by
  intro j hlo hhi hc
  have hmem : j ∈ List.range' i n := List.mem_range'_1.mpr ⟨hlo, hhi⟩
  simpa [hc] using List.findSome?_eq_none_iff.mp h j hmem

theorem nextArray_eq_some {e : Value × Value} (h : t.nextArray i = some e) :
    ∃ q < t.sizearray, FirstFrom t i q ∧ e = (t.keyAt q, t.valueAt q) := by
  obtain ⟨q, hlo, hhi, hv, heq, hnone⟩ := findSome?_range'_some h
  have hq : q < t.sizearray := by omega
  refine ⟨q, hq, ⟨hlo, ?_, fun j hj hjq => ?_⟩, ?_⟩
  · rwa [valueAt, if_pos hq]
  · rw [valueAt, if_pos (hjq.trans hq)]
    exact not_not.mp (hnone j hj hjq)
  · rw [heq, keyAt, valueAt, if_pos hq, if_pos hq]

theorem nextArray_eq_none (h : t.nextArray i = none) :
    ∀ j, i ≤ j → j < t.sizearray → t.valueAt j = .nil := by
  intro j hj hlt
  rw [valueAt, if_pos hlt]
  exact not_not.mp (findSome?_range'_none h j hj (by omega))

theorem nextNode_eq_some {e : Value × Value} (h : t.nextNode (i - t.sizearray) = some e)
    (harray : ∀ j, i ≤ j → j < t.sizearray → t.valueAt j = .nil) :
    ∃ q < t.sizearray + t.sizenode, FirstFrom t i q ∧ e = (t.keyAt q, t.valueAt q) := by
  obtain ⟨q, hlo, hhi, hv, heq, hnone⟩ := findSome?_range'_some h
  have hge : ¬ q + t.sizearray < t.sizearray := by omega
  refine ⟨q + t.sizearray, by omega, ⟨by omega, ?_, fun j hj hjq => ?_⟩, ?_⟩
  · rwa [valueAt, if_neg hge, Nat.add_sub_cancel]
  · by_cases hlt : j < t.sizearray
    · exact harray j hj hlt
    · rw [valueAt, if_neg hlt]
      exact not_not.mp (hnone _ (by omega) (by omega))
  · rw [heq, keyAt, valueAt, if_neg hge, if_neg hge, Nat.add_sub_cancel]

theorem nextNode_eq_none (h : t.nextNode (i - t.sizearray) = none) :
    ∀ j, i ≤ j → t.sizearray ≤ j → j < t.sizearray + t.sizenode → t.valueAt j = .nil := by
  intro j hj hge hlt
  rw [valueAt, if_neg (Nat.not_lt.mpr hge)]
  exact not_not.mp (findSome?_range'_none h _ (by omega) (by omega))

theorem WellFormed.valueAt_of_ge (h : WellFormed t) (hj : t.sizearray + t.sizenode ≤ j) :
    t.valueAt j = .nil := by
  rw [valueAt, if_neg (by omega), h.outside _ (by omega)]
  rfl

/-- From the index of the last key the next value follows, or there is none any more. -/
theorem luaHNext_of_index (h : WellFormed t) {index : Int} (hindex : t.findindex key = .ok index) :
    (∃ q < t.sizearray + t.sizenode, FirstFrom t (index + 1).toNat q ∧
      t.luaHNext key = .ok (some (t.keyAt q, t.valueAt q))) ∨
      (∀ j, (index + 1).toNat ≤ j → t.valueAt j = .nil) ∧ t.luaHNext key = .ok none := by
  have hnext : t.luaHNext key = .ok (t.nextFrom (index + 1).toNat) := by rw [luaHNext, hindex]; rfl
  rw [hnext, nextFrom]
  cases harray : t.nextArray (index + 1).toNat with
  | some e =>
    obtain ⟨q, hq, hfirst, rfl⟩ := nextArray_eq_some harray
    exact .inl ⟨q, by omega, hfirst, rfl⟩
  | none =>
    have hnil := nextArray_eq_none harray
    rw [Option.none_or]
    cases hnode : t.nextNode ((index + 1).toNat - t.sizearray) with
    | some e =>
      obtain ⟨q, hq, hfirst, rfl⟩ := nextNode_eq_some hnode hnil
      exact .inl ⟨q, hq, hfirst, rfl⟩
    | none =>
      refine .inr ⟨fun j hj => ?_, rfl⟩
      by_cases hlt : j < t.sizearray
      · exact hnil j hj hlt
      · by_cases hout : j < t.sizearray + t.sizenode
        · exact nextNode_eq_none hnode j hj (Nat.le_of_not_lt hlt) hout
        · exact h.valueAt_of_ge (Nat.le_of_not_lt hout)

/-- The first key in the chain that is the same object is the live one. -/
theorem findindex_of_live (h : WellFormed t) (hk : (t.node i).key = .live k) (hkey : IsKey k)
    (hin : ¬ t.InArray k) : t.findindex k = .ok (i + t.sizearray) := by
  have hin' : ¬ (0 < arrayindex k ∧ arrayindex k ≤ t.sizearray) := fun hpos =>
    hin ⟨by omega, hpos.2⟩
  have hplaced := h.placed i (by rw [hk]; exact hkey.ne_nil)
  rw [hk, TKey.value] at hplaced
  have hchain := h.chain_eq (t.mainposition_lt k)
  have hmem := hchain.mem_iff.mpr hplaced
  rw [findindex, if_neg hkey.ne_nil, if_neg hin']
  dsimp only
  have hself : ((t.node i).key.rawequalObj k || (t.node i).key.sameObject k) = true := by
    rw [hk, TKey.rawequalObj, hkey.rawEqual_self, Bool.true_or]
  cases hfind : (t.chain (t.mainposition k)).find? fun n =>
      (t.node n).key.rawequalObj k || (t.node n).key.sameObject k with
  | none => exact absurd hself (List.find?_eq_none.mp hfind i hmem)
  | some m =>
    obtain ⟨hm, before, after, hsplit, hnone⟩ := List.find?_eq_some_iff_append.mp hfind
    -- the node found does not come after the live one, and the dead ones do
    have hmi : Leads t.next m i := by
      rw [hsplit] at hchain hmem
      rcases List.mem_append.mp hmem with hbefore | hrest
      · exact absurd hself (by simpa using hnone i hbefore)
      · exact hchain.leads_of_append hrest
    have him : m = i := by
      rcases Bool.or_eq_true_iff.mp hm with hraw | hdead
      · obtain ⟨k', hk', hraw⟩ := rawequalObj_iff.mp hraw
        exact (h.distinct i m k k' hk hk' hkey.ne_nil (Value.rawEqual_symm hraw)).symm
      · cases hkm : (t.node m).key with
        | live k' => simp [hkm, TKey.sameObject] at hdead
        | dead k' =>
          rw [hkm] at hdead
          have heq : k' = k := by simpa [TKey.sameObject] using (Bool.and_eq_true_iff.mp hdead).2
          exact h.ends.antisymm hmi (h.ordered i m k hk (heq ▸ hkm))
    rw [him]

theorem findindex_keyAt (h : WellFormed t) (hv : t.valueAt q ≠ .nil) :
    t.findindex (t.keyAt q) = .ok q := by
  rw [valueAt] at hv
  rw [keyAt]
  split_ifs at hv ⊢ with hq
  · have hidx := arrayindex_slot h hq
    rw [findindex, if_neg Value.noConfusion, if_pos (by omega), hidx, Int.add_sub_cancel]
  · obtain ⟨k, hk, hkey, hin⟩ := h.live_of_val hv
    rw [hk, TKey.value, findindex_of_live h hk hkey hin]
    congr 1
    omega

theorem get_keyAt (h : WellFormed t) (hv : t.valueAt q ≠ .nil) :
    t.get (t.keyAt q) = t.valueAt q := by
  rw [valueAt] at hv
  rw [keyAt, valueAt]
  split_ifs at hv ⊢ with hq
  · have hidx := arrayindex_slot h hq
    have hin : t.InArray (.number (.ofInt _ ((q : Int) + 1))) := by rw [InArray]; omega
    rw [get_of_inArray hin, hidx]
    congr
    omega
  · obtain ⟨k, hk, hkey, hin⟩ := h.live_of_val hv
    rw [hk, TKey.value]
    exact (h.get_eq_iff hkey.ne_nil hin hv).mpr ⟨hv, _, k, hk, hkey.rawEqual_self, rfl⟩

/-- Every value that the table holds is in a slot of its key. -/
theorem exists_valueAt (h : WellFormed t) (hget : t.get key ≠ .nil) :
    ∃ q, t.valueAt q = t.get key ∧ (t.keyAt q).rawEqual key = true := by
  have hkey : key ≠ .nil := by
    rintro rfl
    exact hget (get_nil t)
  by_cases hin : t.InArray key
  · have hlo := hin.1
    have hhi := hin.2
    refine ⟨(arrayindex key - 1).toNat, ?_, ?_⟩
    · rw [valueAt, if_pos (by omega), get_of_inArray hin]
    · rw [keyAt, if_pos (by omega)]
      exact rawEqual_of_arrayindex (by omega) (by omega)
  · obtain ⟨hv, i, k, hk, hraw, hval⟩ := (h.get_eq_iff hkey hin hget).mp rfl
    refine ⟨i + t.sizearray, ?_, ?_⟩
    · rw [valueAt, if_neg (by omega), Nat.add_sub_cancel, hval]
    · rw [keyAt, if_neg (by omega), Nat.add_sub_cancel, hk]
      exact hraw

/-- Slots with values have different keys. -/
theorem eq_of_keyAt (h : WellFormed t) (hp : t.LiveAt p) (hq : t.LiveAt q)
    (hpkey : IsKey (t.keyAt p)) (hqkey : IsKey (t.keyAt q))
    (hraw : (t.keyAt p).rawEqual (t.keyAt q) = true) : p = q := by
  have hidx := arrayindex_of_rawEqual hraw
  -- a slot of the array part and a node never have the same key
  have hmixed : ∀ p q, p < t.sizearray → ¬ q < t.sizearray → t.LiveAt q → IsKey (t.keyAt q) →
      arrayindex (t.keyAt p) ≠ arrayindex (t.keyAt q) := by
    intro p q hp hq hlive hqkey heq
    obtain ⟨k, hk⟩ := hlive.resolve_left hq
    have hkq : t.keyAt q = k := by rw [keyAt, if_neg hq, hk, TKey.value]
    rw [hkq] at hqkey heq
    rw [keyAt, if_pos hp, arrayindex_slot h hp] at heq
    exact (h.isKey _ k hk hqkey.ne_nil).2 (by rw [InArray]; omega)
  by_cases hpa : p < t.sizearray <;> by_cases hqa : q < t.sizearray
  · rw [keyAt, keyAt, if_pos hpa, if_pos hqa, arrayindex_slot h hpa, arrayindex_slot h hqa] at hidx
    omega
  · exact absurd hidx (hmixed p q hpa hqa hq hqkey)
  · exact absurd hidx.symm (hmixed q p hqa hpa hp hpkey)
  · obtain ⟨k, hk⟩ := hp.resolve_left hpa
    obtain ⟨k', hk'⟩ := hq.resolve_left hqa
    rw [keyAt, keyAt, if_neg hpa, if_neg hqa, hk, hk'] at hraw
    rw [keyAt, if_neg hpa, hk] at hpkey
    have := h.distinct _ _ k k' hk hk' hpkey.ne_nil hraw
    omega

/-! ### Steps of a traversal -/

/-- The table and the last key of a traversal. -/
structure Visit where
  table : Table
  key : Value

/-- What may happen between the first step of a traversal and the last one. -/
inductive Event where
  | assign (key v : Value)
  | removeEntries
  | next (key v : Value)

/-- Fields that the table has may be assigned to. -/
inductive Traverses : Visit → Event → Visit → Prop where
  | assign {t : Table} {last key v : Value} {s : Slot} (h : t.luaHGet key = some s) :
      Traverses ⟨t, last⟩ (.assign key v) ⟨t.write v s, last⟩
  | removeEntries {t : Table} {last : Value} :
      Traverses ⟨t, last⟩ .removeEntries ⟨t.removeEntries, last⟩
  | next {t : Table} {last key v : Value} (h : t.luaHNext last = .ok (some (key, v))) :
      Traverses ⟨t, last⟩ (.next key v) ⟨t, key⟩

/-- Another state of a table while it is traversed: no slot has a new key. -/
structure SameSlots (t₀ t : Table) : Prop where
  wellFormed : WellFormed t
  sizearray : t.sizearray = t₀.sizearray
  sizenode : t.sizenode = t₀.sizenode
  keyAt : t.keyAt = t₀.keyAt
  live : ∀ i, t.LiveAt i → t₀.LiveAt i
  findindex : t.findindex = t₀.findindex

theorem keyAt_write (t : Table) (v : Value) (s : Slot) : (t.write v s).keyAt = t.keyAt := by
  funext i
  simp [keyAt]

theorem liveAt_write (t : Table) (v : Value) (s : Slot) (i : Nat) :
    (t.write v s).LiveAt i ↔ t.LiveAt i := by
  simp [LiveAt]

theorem findindex_write (t : Table) (v : Value) (s : Slot) :
    (t.write v s).findindex = t.findindex := by
  funext key
  simp [findindex, chain]

theorem keyAt_removeEntries (t : Table) : t.removeEntries.keyAt = t.keyAt := by
  funext i
  rw [keyAt, keyAt, value_removeEntries]
  rfl

theorem liveAt_removeEntries (h : t.removeEntries.LiveAt i) : t.LiveAt i :=
  h.imp id fun ⟨k, hk⟩ => ⟨k, live_of_removeEntries hk⟩

/-- A key is the same object, dead or not. -/
theorem sameKey_removeEntries (t : Table) (i : Nat) (key : Value) :
    ((t.removeEntries.node i).key.rawequalObj key || (t.removeEntries.node i).key.sameObject key) =
      ((t.node i).key.rawequalObj key || (t.node i).key.sameObject key) := by
  simp only [removeEntries, removeentry]
  split_ifs with hv hc
  · cases hk : (t.node i).key with
    | dead k => rfl
    | live k =>
      rw [hk] at hc
      have hraw : k.rawEqual key = (TKey.dead k).sameObject key := by
        cases k <;> cases key <;>
          simp_all [iscollectable, Value.rawEqual, TKey.value, TKey.sameObject]
      exact (hraw.symm.trans (Bool.or_false _).symm)
  · rfl
  · rfl

theorem findindex_removeEntries (t : Table) : t.removeEntries.findindex = t.findindex := by
  funext key
  have hchain : t.removeEntries.chain = t.chain := by
    funext n
    rw [chain, chain, next_removeEntries]
    rfl
  have hmain : t.removeEntries.mainposition = t.mainposition := mainposition_congr rfl
  simp only [findindex, hchain, hmain, sameKey_removeEntries]
  rfl

theorem SameSlots.step {t₀ : Table} {x y : Visit} {e : Event} (h : SameSlots t₀ x.table)
    (hstep : Traverses x e y) : SameSlots t₀ y.table := by
  cases hstep with
  | @assign t last key v s hs =>
    have hkey : key ≠ .nil := by
      rintro rfl
      cases hs
    exact ⟨h.wellFormed.write hkey hs v, (sizearray_write t v s).trans h.sizearray,
      (sizenode_write t v s).trans h.sizenode, (keyAt_write t v s).trans h.keyAt,
      fun i hi => h.live i ((liveAt_write t v s i).mp hi),
      (findindex_write t v s).trans h.findindex⟩
  | @removeEntries t last =>
    exact ⟨h.wellFormed.removeEntries, h.sizearray, h.sizenode,
      (keyAt_removeEntries t).trans h.keyAt, fun i hi => h.live i (liveAt_removeEntries hi),
      (findindex_removeEntries t).trans h.findindex⟩
  | next => exact h

/-! ### Runs of a traversal -/

/-- The keys that a traversal has met. -/
def met (log : List (Visit × Event)) : List Value :=
  log.filterMap fun x => match x.2 with
    | .next key _ => some key
    | _ => none

/-- How far a traversal has come: the slots it has stopped at, in order, up to that of the last
key. It has left out a slot only where there was no value. -/
structure Progress (t₀ : Table) (log : List (Visit × Event)) (x : Visit) (index : Int)
    (slots : List Nat) : Prop where
  last : t₀.findindex x.key = .ok index
  met : met log = slots.map t₀.keyAt
  sorted : slots.Pairwise (· < ·)
  le : ∀ q ∈ slots, (q : Int) ≤ index
  lt : ∀ q ∈ slots, q < t₀.sizearray + t₀.sizenode
  live : ∀ q ∈ slots, t₀.LiveAt q ∧ IsKey (t₀.keyAt q)
  skipped : ∀ q : Nat, (q : Int) ≤ index → q ∈ slots ∨ ∃ y ∈ log, y.1.table.valueAt q = .nil

theorem isKey_keyAt (h : WellFormed t) (hv : t.valueAt q ≠ .nil) :
    t.LiveAt q ∧ IsKey (t.keyAt q) := by
  rw [valueAt] at hv
  rw [LiveAt, keyAt]
  split_ifs at hv ⊢ with hq
  · exact ⟨.inl hq, isKey_ofInt _⟩
  · obtain ⟨k, hk, hkey, _⟩ := h.live_of_val hv
    exact ⟨.inr ⟨k, hk⟩, by rwa [hk]⟩

theorem lt_of_valueAt (h : WellFormed t) (hv : t.valueAt q ≠ .nil) :
    q < t.sizearray + t.sizenode := by
  by_contra hge
  exact hv (h.valueAt_of_ge (Nat.le_of_not_lt hge))

/-- An event that is no step of the traversal itself. -/
theorem Progress.other {t₀ : Table} {log : List (Visit × Event)} {x y : Visit} {e : Event}
    {index : Int} {slots : List Nat} (h : Progress t₀ log x index slots) (hkey : y.key = x.key)
    (he : Table.met (log ++ [(x, e)]) = Table.met log) :
    Progress t₀ (log ++ [(x, e)]) y index slots where
  last := hkey ▸ h.last
  met := he.trans h.met
  sorted := h.sorted
  le := h.le
  lt := h.lt
  live := h.live
  skipped q hq := (h.skipped q hq).imp id fun ⟨y, hy, hnil⟩ =>
    ⟨y, List.mem_append_left _ hy, hnil⟩

theorem Progress.next {t₀ : Table} {log : List (Visit × Event)} {x : Visit} {key v : Value}
    {index : Int} {slots : List Nat} (h : Progress t₀ log x index slots)
    (hsame : SameSlots t₀ x.table) (hindex : -1 ≤ index)
    (hnext : x.table.luaHNext x.key = .ok (some (key, v))) :
    ∃ q : Nat, Progress t₀ (log ++ [(x, .next key v)]) ⟨x.table, key⟩ q (slots ++ [q]) := by
  have hlast : x.table.findindex x.key = .ok index := by rw [hsame.findindex]; exact h.last
  rcases luaHNext_of_index hsame.wellFormed hlast with ⟨q, hq, hfirst, hok⟩ | ⟨_, hok⟩
  · cases hok.symm.trans hnext
    have hgt : index < q := by
      have := hfirst.le
      omega
    have hlive := isKey_keyAt hsame.wellFormed hfirst.val
    refine ⟨q, ?_, ?_, ?_, ?_, ?_, ?_, ?_⟩
    · rw [← hsame.findindex]
      exact findindex_keyAt hsame.wellFormed hfirst.val
    · rw [Table.met, List.filterMap_append, ← Table.met, h.met, List.map_append, ← hsame.keyAt]
      rfl
    · refine List.pairwise_append.mpr ⟨h.sorted, List.pairwise_singleton _ _, ?_⟩
      intro a ha b hb
      cases List.mem_singleton.mp hb
      have := h.le a ha
      omega
    · intro a ha
      rcases List.mem_append.mp ha with ha | ha
      · exact (h.le a ha).trans hgt.le
      · cases List.mem_singleton.mp ha
        exact le_rfl
    · intro a ha
      rcases List.mem_append.mp ha with ha | ha
      · exact h.lt a ha
      · cases List.mem_singleton.mp ha
        rwa [← hsame.sizearray, ← hsame.sizenode]
    · intro a ha
      rcases List.mem_append.mp ha with ha | ha
      · exact h.live a ha
      · cases List.mem_singleton.mp ha
        exact ⟨hsame.live q hlive.1, hsame.keyAt ▸ hlive.2⟩
    · intro a ha
      by_cases hold : (a : Int) ≤ index
      · rcases h.skipped a hold with hmem | ⟨y, hy, hnil⟩
        · exact .inl (List.mem_append_left _ hmem)
        · exact .inr ⟨y, List.mem_append_left _ hy, hnil⟩
      · by_cases haq : a = q
        · exact .inl (List.mem_append_right _ (by simp [haq]))
        · refine .inr ⟨_, List.mem_append_right _ (List.mem_singleton_self _), ?_⟩
          exact hfirst.none a (by omega) (by omega)
  · cases hok.symm.trans hnext

theorem Progress.start (t₀ : Table) : Progress t₀ [] ⟨t₀, .nil⟩ (-1) [] where
  last := rfl
  met := rfl
  sorted := .nil
  le := by simp
  lt := by simp
  live := by simp
  skipped := by omega

/-- Every state of a traversal has the slots of the first one, and has come somewhere. -/
theorem traversal_progress {t₀ : Table} (h : WellFormed t₀) {log : List (Visit × Event)} {x : Visit}
    (run : Run Traverses ⟨t₀, .nil⟩ log x) :
    Visits (fun y => SameSlots t₀ y.table) log x ∧
      ∃ index slots, -1 ≤ index ∧ Progress t₀ log x index slots := by
  have hsame : Visits (fun y => SameSlots t₀ y.table) log x := by
    have hany : Meets (fun (_ : Visit) (_ : Event) => True) log := fun _ _ => trivial
    exact run.visits_of_meets ⟨h, rfl, rfl, rfl, fun _ hi => hi, rfl⟩
      (fun _ _ _ hs _ hstep => hs.step hstep) hany
  refine ⟨hsame, ?_⟩
  induction run with
  | start => exact ⟨-1, [], le_rfl, .start t₀⟩
  | @next log x y e run hstep ih =>
    obtain ⟨hbefore, _⟩ := visits_snoc.mp hsame
    obtain ⟨index, slots, hindex, hprog⟩ := ih hbefore
    cases hstep with
    | assign hs =>
      exact ⟨index, slots, hindex, hprog.other rfl (by simp [met])⟩
    | removeEntries => exact ⟨index, slots, hindex, hprog.other rfl (by simp [met])⟩
    | next hnext =>
      obtain ⟨q, hq⟩ := hprog.next hbefore.2 hindex hnext
      exact ⟨q, _, by omega, hq⟩

theorem SameSlots.value_of_next {t₀ : Table} {x y : Visit} {e : Event} (h : SameSlots t₀ x.table)
    (hstep : Traverses x e y) (k v : Value) (he : e = .next k v) :
    v ≠ .nil ∧ x.table.get k = v := by
  subst he
  cases hstep with
  | @next t last _ _ hnext =>
    dsimp only at h ⊢
    cases hindex : t.findindex last with
    | error message =>
      rw [luaHNext, hindex] at hnext
      cases hnext
    | ok index =>
      rcases luaHNext_of_index h.wellFormed hindex with ⟨q, _, hfirst, hok⟩ | ⟨_, hok⟩
      · cases hok.symm.trans hnext
        exact ⟨hfirst.val, get_keyAt h.wellFormed hfirst.val⟩
      · cases hok.symm.trans hnext

/-- A traversal meets no key twice, each with its value, and never loses its way; when it ends, it
has met every key that had a value all the time. -/
theorem traversal_complete {t₀ : Table} (h : WellFormed t₀) {log : List (Visit × Event)} {x : Visit}
    (run : Run Traverses ⟨t₀, .nil⟩ log x) :
    (met log).Pairwise (fun k k' => k.rawEqual k' = false) ∧
      (∀ y ∈ log, ∀ k v, y.2 = .next k v → v ≠ .nil ∧ y.1.table.get k = v) ∧
      (met log).length ≤ t₀.sizearray + t₀.sizenode ∧
      ∃ r, x.table.luaHNext x.key = .ok r ∧ (r = none →
        ∀ j, Visits (fun y => y.table.get j ≠ .nil) log x →
          ∃ k ∈ met log, k.rawEqual j = true) := by
  obtain ⟨hsame, index, slots, hindex, hprog⟩ := traversal_progress h run
  refine ⟨?_, ?_, ?_, ?_⟩
  · rw [hprog.met, List.pairwise_map]
    refine hprog.sorted.imp_of_mem fun {p q} hp hq hlt => ?_
    by_contra hraw
    rw [Bool.not_eq_false] at hraw
    obtain ⟨hplive, hpkey⟩ := hprog.live p hp
    obtain ⟨hqlive, hqkey⟩ := hprog.live q hq
    exact hlt.ne (eq_of_keyAt h hplive hqlive hpkey hqkey hraw)
  · have hany : Meets (fun (_ : Visit) (_ : Event) => True) log := fun _ _ => trivial
    have hvalues : Meets (fun y e => ∀ k v, e = .next k v → v ≠ .nil ∧ y.table.get k = v) log :=
      run.meets_of_step (I := fun y => SameSlots t₀ y.table)
        ⟨h, rfl, rfl, rfl, fun _ hi => hi, rfl⟩ (fun _ _ _ hs hstep => hs.step hstep)
        (fun _ _ _ hs _ hstep => hs.value_of_next hstep) hany
    exact hvalues
  · rw [hprog.met, List.length_map]
    have hnodup : slots.Nodup := hprog.sorted.imp fun hlt => hlt.ne
    have hsub := List.subperm_of_subset hnodup fun q hq => List.mem_range.mpr (hprog.lt q hq)
    simpa using hsub.length_le
  · have hlast : x.table.findindex x.key = .ok index := by
      rw [hsame.2.findindex]
      exact hprog.last
    rcases luaHNext_of_index hsame.2.wellFormed hlast with ⟨q, _, _, hok⟩ | ⟨hnil, hok⟩
    · exact ⟨_, hok, fun hr => by cases hr⟩
    · refine ⟨none, hok, fun _ j hj => ?_⟩
      obtain ⟨q, hq, hraw⟩ := exists_valueAt hsame.2.wellFormed hj.2
      have hval : x.table.valueAt q ≠ .nil := hq ▸ hj.2
      have hqlive := isKey_keyAt hsame.2.wellFormed hval
      rw [hsame.2.keyAt] at hraw hqlive
      have hle : (q : Int) ≤ index := by
        by_contra hgt
        exact hval (hnil q (by omega))
      rcases hprog.skipped q hle with hmem | ⟨y, hy, hynil⟩
      · exact ⟨_, hprog.met ▸ List.mem_map_of_mem hmem, hraw⟩
      · -- the slot held a value in that state, too
        have hysame := hsame.1 y hy
        obtain ⟨p, hp, hpraw⟩ := exists_valueAt hysame.wellFormed (hj.1 y hy)
        have hpval : y.1.table.valueAt p ≠ .nil := hp ▸ hj.1 y hy
        have hplive := isKey_keyAt hysame.wellFormed hpval
        rw [hysame.keyAt] at hpraw hplive
        have hpq : p = q := eq_of_keyAt h (hysame.live p hplive.1) (hsame.2.live q hqlive.1)
          hplive.2 hqlive.2 (Value.rawEqual_trans hpraw (Value.rawEqual_symm hraw))
        exact absurd hynil (hpq ▸ hpval)

def Event.exec (x : Visit) : Event → Option Visit
  | .assign key v => (x.table.luaHGet key).map fun s => ⟨x.table.write v s, x.key⟩
  | .removeEntries => some ⟨x.table.removeEntries, x.key⟩
  | .next key v =>
    if (x.table.luaHNext x.key).toOption = some (some (key, v)) then some ⟨x.table, key⟩ else none

theorem Traverses.of_exec {x y : Visit} {e : Event} (h : e.exec x = some y) :
    Traverses x e y := by
  cases e with
  | assign key v =>
    obtain ⟨s, hs, rfl⟩ := Option.map_eq_some_iff.mp h
    exact .assign hs
  | removeEntries =>
    cases h
    exact .removeEntries
  | next key v =>
    rw [Event.exec] at h
    split_ifs at h with hnext
    cases h
    refine .next ?_
    cases hok : x.table.luaHNext x.key with
    | error e => rw [hok] at hnext; cases hnext
    | ok r => rw [hok] at hnext; exact congrArg Except.ok (Option.some.inj hnext)

/-- A further field of the table that is traversed. -/
def enlarged : List Op := sample ++ [.rawset (.string [99]) (.boolean true)]

/-- The field that was met last is removed, and becomes a dead key; another one, that was not met
yet, is removed, too. -/
def interleaved : List Event :=
  [.next (.number (.ofInt _ 1)) (.lightuserdata 7), .next (.number (.ofInt _ 2)) (.lightuserdata 8),
    .assign (.boolean true) .nil, .next (.string [99]) (.boolean true),
    .assign (.string [99]) .nil, .removeEntries, .next (.boolean false) (.string [98])]

theorem traversal_complete_new : ∃ log t log' x, Run Step emptyTable log t ∧
    log.map Prod.snd = enlarged ∧
    Run Traverses ⟨t, .nil⟩ log' x ∧ log'.map Prod.snd = interleaved ∧
    (met log').Pairwise (fun k k' => k.rawEqual k' = false) ∧
    ∀ j, Visits (fun y => y.table.get j ≠ .nil) log' x → ∃ k ∈ met log', k.rawEqual j = true := by
  obtain ⟨log, t, run, hlog, ht⟩ := exists_run enlarged
    (fun t => (Run.trace Event.exec interleaved ⟨t, .nil⟩ []).any fun last =>
      (last.2.table.luaHNext last.2.key).toOption = some none) (by decide +kernel)
  have hexec : ∀ x e y, Event.exec x e = some y → Traverses x e y := fun _ _ _ =>
    Traverses.of_exec
  obtain ⟨log', x, run', hlog', hend⟩ := Run.exists_of_trace (fun x : Visit =>
    decide ((x.table.luaHNext x.key).toOption = some none)) hexec ht
  have hwf := (run_wellFormed (Nat.zero_le _) (Nat.zero_le _) luaHNew_empty run).1
  obtain ⟨hpairs, _, _, r, hr, hall⟩ := traversal_complete hwf run'
  have hnone : r = none := by
    have hend' := of_decide_eq_true hend
    rw [hr] at hend'
    exact Option.some.inj hend'
  exact ⟨log, t, log', x, run, hlog, run', hlog', hpairs, hall hnone⟩

end Table
end JLua.Tables
