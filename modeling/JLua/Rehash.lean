import JLua.Lib.Runs
import JLua.TableEntries
import Mathlib.Order.Interval.Finset.Nat

/-!
# Growing tables

A rehash counts the integer keys by powers of two, chooses the size of the array part, and moves
everything. There is always room for what is moved, so that no rehash leads to another one, and
nothing is lost: a table is a finite map.
-/

namespace JLua.Tables

open BinaryFloat Chains TransitionRuns
set_option autoImplicit false

/-! ### Maps -/

/-- An assignment to a map of values. -/
def assign (f : Value → Value) (key v : Value) : Value → Value :=
  fun j => if key.rawEqual j = true then v else f j

/-- The assignments of all values that are there. -/
def assignAll : List (Value × Value) → (Value → Value) → Value → Value
  | [], f => f
  | (key, v) :: rest, f => assignAll rest (if v ≠ .nil then assign f key v else f)

section Assign
variable {entries : List (Value × Value)} {f : Value → Value} {j v : Value}

theorem assignAll_of_forall (h : ∀ e ∈ entries, e.2 ≠ .nil → e.1.rawEqual j = true → e.2 = v)
    (hf : f j = v) : assignAll entries f j = v := by
  induction entries generalizing f with
  | nil => exact hf
  | cons e entries ih =>
    refine ih (fun e' he' => h e' (List.mem_cons_of_mem _ he')) ?_
    split_ifs with hv
    · rw [assign]
      split_ifs with hraw
      · exact h e List.mem_cons_self hv hraw
      · exact hf
    · exact hf

theorem assignAll_of_mem (h : ∀ e ∈ entries, e.2 ≠ .nil → e.1.rawEqual j = true → e.2 = v)
    (hv : v ≠ .nil) {key : Value} (hmem : (key, v) ∈ entries) (hraw : key.rawEqual j = true) :
    assignAll entries f j = v := by
  induction entries generalizing f with
  | nil => cases hmem
  | cons e entries ih =>
    have hrest : ∀ e ∈ entries, e.2 ≠ .nil → e.1.rawEqual j = true → e.2 = v :=
      fun e' he' => h e' (List.mem_cons_of_mem _ he')
    rcases List.mem_cons.mp hmem with rfl | hmem
    · rw [assignAll, if_pos hv]
      exact assignAll_of_forall hrest (if_pos hraw)
    · exact ih hrest hmem

end Assign

namespace Table
variable {t t' : Table} {key k v : Value} {i n : Nat} {grow : Insertion}

/-! ### Moving entries -/

/-- How many of the entries have to go to a node. -/
def toNodes (t : Table) (entries : List (Value × Value)) : Nat :=
  entries.countP fun e => e.2 ≠ .nil ∧ ¬ t.InArray e.1

theorem toNodes_congr (h : t'.sizearray = t.sizearray) : t'.toNodes = t.toNodes := by
  funext entries
  exact List.countP_congr fun e _ => by simp [InArray, h]

/-- A table to which entries have been moved. -/
structure Moved (t t' : Table) (entries : List (Value × Value)) : Prop where
  wellFormed : WellFormed t'
  free : FreeBelow t'
  sizearray : t'.sizearray = t.sizearray
  capacity : t'.capacity = t.capacity
  used : t'.used.card ≤ t.used.card + t.toNodes entries
  get : t'.get = assignAll entries t.get

theorem used_write (t : Table) (v : Value) (s : Slot) : (t.write v s).used = t.used := by
  ext i
  rw [mem_used, mem_used, sizenode_write, key_write]

theorem capacity_write (t : Table) (v : Value) (s : Slot) :
    (t.write v s).capacity = t.capacity := by
  rw [capacity, capacity, isDummy_write, sizenode_write]

theorem SameShape.capacity (h : SameShape t t') : t'.capacity = t.capacity := by
  rw [Table.capacity, Table.capacity, h.isDummy, h.sizenode]

theorem get_assign {s : Slot} (hkey : IsKey key) (ht : Accepts t t' key s) (v : Value) :
    (t'.write v s).get = assign t.get key v := by
  funext j
  rw [get_write hkey ht.slot, assign, ht.get]

variable (grow) in
theorem reinsert_moved (entries : List (Value × Value)) (h : WellFormed t) (hf : FreeBelow t)
    (hkeys : ∀ e ∈ entries, e.2 ≠ .nil → IsKey e.1)
    (hroom : t.used.card + t.toNodes entries ≤ t.capacity) :
    ∃ t', reinsert (setWith grow) entries t = .ok t' ∧ Moved t t' entries := by
  induction entries generalizing t with
  | nil => exact ⟨t, rfl, h, hf, rfl, rfl, Nat.le_add_right _ _, rfl⟩
  | cons e entries ih =>
    obtain ⟨key, v⟩ := e
    have hrest : ∀ e ∈ entries, e.2 ≠ .nil → IsKey e.1 :=
      fun e he => hkeys e (List.mem_cons_of_mem _ he)
    rw [toNodes, List.countP_cons] at hroom
    change t.used.card + (t.toNodes entries + _) ≤ _ at hroom
    by_cases hv : v = .nil
    · obtain ⟨t', hok, hmoved⟩ := ih h hf hrest (by omega)
      refine ⟨t', ?_, hmoved.wellFormed, hmoved.free, hmoved.sizearray, hmoved.capacity, ?_, ?_⟩
      · rw [reinsert, if_neg (not_not.mpr hv)]
        exact hok
      · simpa [toNodes, List.countP_cons, hv] using hmoved.used
      · rw [hmoved.get, assignAll, if_neg (not_not.mpr hv)]
    · have hkey : IsKey key := hkeys _ List.mem_cons_self hv
      -- the entry takes a node at most if it is not for the array part
      have hstep : ∃ u s, setWith grow t key = .ok (u, s) ∧ Accepts t u key s ∧ SameShape t u ∧
          u.used.card ≤ t.used.card + if ¬ t.InArray key then 1 else 0 := by
        by_cases hin : t.InArray key
        · obtain ⟨s, hok, htakes⟩ := setWith_of_inArray grow h hf hin
          exact ⟨t, s, hok, htakes.accepts, htakes.shape, by simp⟩
        · have hlt : t.used.card < t.capacity := by
            simp only [hv, hin, ne_eq, not_false_eq_true, and_self, decide_true, if_true] at hroom
            omega
          obtain ⟨u, s, hok, htakes⟩ := setWith_of_room grow h hf hkey hlt
          exact ⟨u, s, hok, htakes.accepts, htakes.shape, by simpa [hin] using htakes.used⟩
      obtain ⟨u, s, hok, hacc, hshape, hused⟩ := hstep
      have hsize : (u.write v s).sizearray = t.sizearray := by simp [hshape.sizearray]
      have hcap : (u.write v s).capacity = t.capacity := by rw [capacity_write, hshape.capacity]
      have hcount : (if ¬ t.InArray key then 1 else 0) =
          if (decide ((key, v).2 ≠ .nil ∧ ¬ t.InArray (key, v).1)) = true then 1 else 0 := by
        simp [hv]
      obtain ⟨t', hok', hmoved⟩ := ih (t := u.write v s)
        (hacc.wellFormed.write hkey.ne_nil hacc.slot v)
        (hacc.free.write v s) hrest (by
          rw [used_write, hcap, toNodes_congr hsize]
          omega)
      refine ⟨t', ?_, hmoved.wellFormed, hmoved.free, hmoved.sizearray.trans hsize,
        hmoved.capacity.trans hcap, ?_, ?_⟩
      · rw [reinsert, if_pos hv, hok]
        exact hok'
      · have hle := hmoved.used
        rw [used_write, toNodes_congr hsize] at hle
        rw [toNodes, List.countP_cons]
        change _ ≤ t.used.card + (t.toNodes entries + _)
        omega
      · rw [hmoved.get, assignAll, if_pos hv, get_assign hkey hacc]

theorem reinsert_map {K : Type} {place : Table → K → Except String (Table × Slot)}
    {place' : Insertion} {f : K → Value} {entries : List (K × Value)}
    (h : ∀ t, ∀ e ∈ entries, place t e.1 = place' t (f e.1)) :
    reinsert place entries t = reinsert place' (entries.map fun e => (f e.1, e.2)) t := by
  induction entries generalizing t with
  | nil => rfl
  | cons e entries ih =>
    have hrest : ∀ t, reinsert place entries t =
        reinsert place' (entries.map fun e => (f e.1, e.2)) t :=
      fun t => ih fun t e he => h t e (List.mem_cons_of_mem _ he)
    rw [List.map_cons, reinsert, reinsert, h t e List.mem_cons_self, hrest]
    simp only [hrest]

theorem reinsert_append (place : Insertion) (entries rest : List (Value × Value)) (t : Table) :
    reinsert place (entries ++ rest) t = reinsert place entries t >>= reinsert place rest := by
  induction entries generalizing t with
  | nil => rfl
  | cons e entries ih =>
    simp only [List.cons_append, reinsert, ih]
    split_ifs
    · cases place t e.1 <;> rfl
    · rfl

/-! ### Resizing -/

/-- The table with all nodes empty. -/
structure Fresh (t t' : Table) (nasize nhsize : Nat) : Prop where
  array : ∀ i < nasize, t'.array i = if i < t.sizearray then t.array i else .nil
  sizearray : t'.sizearray = nasize
  node : ∀ i, t'.node i = emptyNode
  bits : t'.lsizenode ≤ MAXBITS
  room : nhsize ≤ t'.capacity
  lastfree : t'.lastfree = t'.capacity
  dummy : t'.isDummy = true → t'.lsizenode = 0

namespace Fresh
variable {nasize nhsize : Nat} (h : Fresh t t' nasize nhsize)
include h

theorem wellFormed (hsize : nasize ≤ MAXASIZE) : WellFormed t' := by
  have hnext : ∀ i, t'.next i = none := fun i => by rw [next, h.node]; rfl
  have hkey : ∀ i, (t'.node i).key = .live .nil := fun i => by rw [h.node]; rfl
  have hval : ∀ i, (t'.node i).val = .nil := fun i => by rw [h.node]; rfl
  have hvalue : ∀ i, (t'.node i).key.value = .nil := fun i => by rw [hkey]; rfl
  constructor
  · exact fun hd => ⟨h.dummy hd, h.node 0⟩
  · exact h.bits
  · exact h.sizearray ▸ hsize
  · exact fun i _ => h.node i
  · intro i j k hi
    simp [hnext] at hi
  · exact fun i => ⟨[i], .last (hnext i)⟩
  · intro i j hij
    simp [hnext] at hij
  · exact fun i _ => ⟨hval i, hnext i, fun j hj => by simp [hnext] at hj⟩
  · exact fun i hi => absurd (hvalue i) hi
  · exact fun i hi => absurd (hvalue i) hi
  · exact fun i hi => absurd (hval i) hi
  · intro i k hk hne
    exact absurd (TKey.live.inj ((hkey i).symm.trans hk)).symm hne
  · intro i j k k' hk _ hne
    exact absurd (TKey.live.inj ((hkey i).symm.trans hk)).symm hne
  · intro i k hk
    simp [hkey] at hk
  · intro i j k _ hk
    simp [hkey] at hk

theorem freeBelow : FreeBelow t' where
  le := by
    rw [h.lastfree, capacity]
    split_ifs
    · exact Nat.zero_le _
    · exact le_rfl
  used := by
    intro i hi hlt hd
    rw [h.lastfree, capacity, hd] at hi
    exact absurd hlt (Nat.not_lt.mpr hi)
  dummy := by
    intro hd
    rw [h.lastfree, capacity, if_pos hd]

theorem used_eq : t'.used = ∅ := by
  ext i
  simp [mem_used, h.node, emptyNode]

theorem get_eq (hsize : nasize ≤ MAXASIZE) (key : Value) : t'.get key =
    if t'.InArray key ∧ t.InArray key then t.array (arrayindex key - 1).toNat else .nil := by
  by_cases hin : t'.InArray key
  · have hlo := hin.1
    have hhi := hin.2
    rw [h.sizearray] at hhi
    rw [get_of_inArray hin, h.array _ (by omega)]
    have hiff : (arrayindex key - 1).toNat < t.sizearray ↔ t'.InArray key ∧ t.InArray key := by
      rw [and_iff_right hin, InArray]
      omega
    simp only [hiff]
  · rw [if_neg fun hand => hin hand.1]
    by_contra hne
    by_cases hkey : key = .nil
    · exact hne (by rw [hkey, get_nil])
    · obtain ⟨_, i, k, hk, hraw, _⟩ :=
        (h.wellFormed hsize).get_eq_iff hkey hin hne |>.mp rfl
      rw [h.node] at hk
      cases hk
      exact hkey (Value.eq_nil_of_rawEqual (Value.rawEqual_symm hraw))

end Fresh

/-- The array part of the new size, with nil where it is longer. -/
def withArray (t : Table) (nasize : Nat) : Table :=
  if t.sizearray < nasize then t.setarrayvector nasize else t

theorem array_withArray {nasize : Nat} (hi : i < nasize) :
    (t.withArray nasize).array i = if i < t.sizearray then t.array i else .nil := by
  rw [withArray]
  split_ifs with hgrow hlt hlt
  · exact if_pos hlt
  · exact if_neg hlt
  · rfl
  · omega

theorem setnodevector_fresh (nasize : Nat) {nhsize : Nat} (hfits : nhsize ≤ 2 ^ MAXBITS) :
    ∃ u, (t.withArray nasize).setnodevector nhsize = .ok u ∧
      Fresh t { u with sizearray := nasize } nasize nhsize := by
  rw [setnodevector]
  by_cases h0 : nhsize = 0
  · rw [if_pos h0]
    exact ⟨_, rfl, fun i hi => array_withArray hi, rfl, fun _ => rfl, Nat.zero_le _, h0.le, rfl,
      fun _ => rfl⟩
  · have hlog := fun i => ceillog2_le_iff (i := i) (Nat.pos_of_ne_zero h0)
      (hfits.trans (Nat.pow_le_pow_right (by decide) (by decide)))
    rw [if_neg h0, if_neg (Nat.not_lt.mpr ((hlog _).mpr hfits))]
    exact ⟨_, rfl, fun i hi => array_withArray hi, rfl, fun _ => rfl, (hlog _).mpr hfits,
      (hlog _).mp le_rfl, rfl, fun hd => by cases hd⟩

/-- The vanishing slice with its keys as values. -/
def vanishingEntries (t : Table) (nasize : Nat) : List (Value × Value) :=
  (t.vanishing nasize).map fun e => (.number (.ofInt _ e.1), e.2)

/-- Everything that a change of the size of the array part moves. -/
def moving (t : Table) (nasize : Nat) : List (Value × Value) :=
  t.vanishingEntries nasize ++ t.nodes

theorem mem_vanishingEntries {nasize : Nat} {e : Value × Value} :
    e ∈ t.vanishingEntries nasize ↔
      ∃ i, nasize ≤ i ∧ i < t.sizearray ∧ e = (.number (.ofInt _ (i + 1)), t.array i) := by
  simp only [vanishingEntries, vanishing, List.map_map, List.mem_map, List.mem_range'_1,
    Function.comp_apply]
  constructor
  · rintro ⟨i, ⟨hlo, hhi⟩, rfl⟩
    exact ⟨i, hlo, by omega, rfl⟩
  · rintro ⟨i, hlo, hhi, rfl⟩
    exact ⟨i, ⟨hlo, by omega⟩, rfl⟩

theorem mem_nodes {e : Value × Value} :
    e ∈ t.nodes ↔ ∃ i < t.sizenode, e = ((t.node i).key.value, (t.node i).val) := by
  simp only [nodes, List.mem_map, List.mem_reverse, List.mem_range]
  constructor
  · rintro ⟨i, hi, rfl⟩
    exact ⟨i, hi, rfl⟩
  · rintro ⟨i, hi, rfl⟩
    exact ⟨i, hi, rfl⟩

theorem arrayindex_slot (h : WellFormed t) (hi : i < t.sizearray) :
    arrayindex (.number (.ofInt _ ((i : Int) + 1))) = i + 1 := by
  have hfits := h.array_fits
  simp only [MAXASIZE, MAXBITS] at hfits
  exact arrayindex_ofInt (by omega) (by omega)

/-- All that is moved has a key of its own. -/
theorem moving_isKey (h : WellFormed t) {nasize : Nat} {e : Value × Value}
    (he : e ∈ t.moving nasize) (hv : e.2 ≠ .nil) : IsKey e.1 := by
  rcases List.mem_append.mp he with he | he
  · obtain ⟨i, _, _, rfl⟩ := mem_vanishingEntries.mp he
    exact isKey_ofInt _
  · obtain ⟨i, _, rfl⟩ := mem_nodes.mp he
    obtain ⟨k, hk⟩ := h.live i hv
    have hne : k ≠ .nil := by
      rintro rfl
      exact hv (h.blank i hk).1
    dsimp only
    rw [hk]
    exact (h.isKey i k hk hne).1

/-- What is moved is what the table holds. -/
theorem get_of_moving (h : WellFormed t) {nasize : Nat} {e : Value × Value}
    (he : e ∈ t.moving nasize) (hv : e.2 ≠ .nil) (hraw : e.1.rawEqual key = true) :
    t.get key = e.2 := by
  have hkey : key ≠ .nil := by
    rintro rfl
    exact (moving_isKey h he hv).ne_nil (Value.eq_nil_of_rawEqual hraw)
  rcases List.mem_append.mp he with he | he
  · obtain ⟨i, _, hi, rfl⟩ := mem_vanishingEntries.mp he
    have hidx : arrayindex key = i + 1 :=
      (arrayindex_of_rawEqual hraw).symm.trans (arrayindex_slot h hi)
    have hin : t.InArray key := by rw [InArray]; omega
    rw [get_of_inArray hin, hidx]
    congr
    omega
  · obtain ⟨i, _, rfl⟩ := mem_nodes.mp he
    obtain ⟨k, hk⟩ := h.live i hv
    have hkeq : (t.node i).key.value = k := by rw [hk]; rfl
    have hne : k ≠ .nil := by
      rintro rfl
      exact hv (h.blank i hk).1
    have hin : ¬ t.InArray key := by
      have := (h.isKey i k hk hne).2
      rwa [InArray, ← arrayindex_of_rawEqual (hkeq ▸ hraw), ← InArray]
    exact (h.get_eq_iff hkey hin hv).mpr ⟨hv, i, k, hk, hkeq ▸ hraw, rfl⟩

/-- What is not moved stays in the array part. -/
theorem exists_moving (h : WellFormed t) {nasize : Nat} (hget : t.get key ≠ .nil)
    (hin : ¬ (t.InArray key ∧ arrayindex key ≤ nasize)) :
    ∃ k, (k, t.get key) ∈ t.moving nasize ∧ k.rawEqual key = true := by
  have hkey : key ≠ .nil := by
    rintro rfl
    exact hget (get_nil t)
  by_cases hold : t.InArray key
  · have hlo := hold.1
    have hhi := hold.2
    refine ⟨.number (.ofInt _ ((arrayindex key - 1).toNat + 1)), List.mem_append_left _ ?_, ?_⟩
    · refine mem_vanishingEntries.mpr ⟨(arrayindex key - 1).toNat, ?_, ?_, ?_⟩
      · have : ¬ arrayindex key ≤ nasize := fun hle => hin ⟨hold, hle⟩
        omega
      · omega
      · rw [get_of_inArray hold]
    · refine rawEqual_of_arrayindex ?_ (by omega)
      omega
  · obtain ⟨hv, i, k, hk, hraw, hval⟩ := (h.get_eq_iff hkey hold hget).mp rfl
    refine ⟨k, List.mem_append_right _ (mem_nodes.mpr ⟨i, h.lt_sizenode ?_, ?_⟩), hraw⟩
    · rw [hk]
      rintro heq
      exact hkey (Value.eq_nil_of_rawEqual (TKey.live.inj heq ▸ Value.rawEqual_symm hraw))
    · rw [hk, hval]
      rfl

variable (grow) in
/-- Both parts get their new sizes, and nothing is lost. -/
theorem resize_spec (h : WellFormed t) {nasize nhsize : Nat} (hasize : nasize ≤ MAXASIZE)
    (hfits : nhsize ≤ 2 ^ MAXBITS)
    (hroom : toNodes { t with sizearray := nasize } (t.moving nasize) ≤ nhsize) :
    ∃ t', t.resize grow nasize nhsize = .ok t' ∧ WellFormed t' ∧ FreeBelow t' ∧
      t'.sizearray = nasize ∧ nhsize ≤ t'.capacity ∧
      t'.used.card ≤ toNodes { t with sizearray := nasize } (t.moving nasize) ∧
      t'.get = t.get := by
  obtain ⟨u, hu, hfresh⟩ := setnodevector_fresh (t := t) nasize hfits
  set w : Table := { u with sizearray := nasize }
  have hw := hfresh.wellFormed hasize
  have hnodes : w.toNodes = toNodes { t with sizearray := nasize } := toNodes_congr rfl
  obtain ⟨t', hok, hmoved⟩ := reinsert_moved grow (t.moving nasize) hw
    hfresh.freeBelow (fun e he hv => moving_isKey h he hv) (by
      rw [hfresh.used_eq, Finset.card_empty, Nat.zero_add, hnodes]
      exact hroom.trans hfresh.room)
  refine ⟨t', ?_, hmoved.wellFormed, hmoved.free, hmoved.sizearray, hmoved.capacity ▸ hfresh.room,
    ?_, ?_⟩
  · have hsize := h.array_fits
    simp only [MAXASIZE, MAXBITS] at hsize
    have hmap : reinsert (setnumWith grow) (t.vanishing nasize) w =
        reinsert (setWith grow) (t.vanishingEntries nasize) w := by
      refine reinsert_map (f := fun i => .number (.ofInt _ i)) fun t' e he => ?_
      obtain ⟨i, hi, rfl⟩ := List.mem_map.mp he
      have hlt := List.mem_range'_1.mp hi
      exact setnumWith_eq grow t' (by omega) (by omega)
    rw [resize, ← withArray, hu]
    rw [moving, reinsert_append, ← hmap] at hok
    exact hok
  · simpa [hfresh.used_eq, hnodes] using hmoved.used
  · funext key
    rw [hmoved.get]
    by_cases hstays : t.get key = .nil ∨ t.InArray key ∧ arrayindex key ≤ nasize
    · refine assignAll_of_forall (fun e he hv hraw => (get_of_moving h he hv hraw).symm) ?_
      rw [hfresh.get_eq hasize]
      rcases hstays with hnil | ⟨hin, hle⟩
      · split_ifs with hboth
        · rw [← get_of_inArray hboth.2]
        · exact hnil.symm
      · rw [if_pos ⟨⟨hin.1, hle⟩, hin⟩, get_of_inArray hin]
    · rw [not_or] at hstays
      obtain ⟨k, hmem, hraw⟩ := exists_moving h hstays.1 hstays.2
      exact assignAll_of_mem (fun e he hv hraw => (get_of_moving h he hv hraw).symm) hstays.1 hmem
        hraw

end Table

/-! ### Counting integer keys -/

section Counting

/-- The integers among the keys that may come to an array part. -/
def intKeys (keys : List Value) : List Nat :=
  keys.filterMap fun key =>
    if 0 < arrayindex key ∧ arrayindex key ≤ MAXASIZE then some (arrayindex key).toNat else none

/-- The counts of a list of integers. -/
def tally (ks : List Nat) : Counts := fun j => ks.countP fun k => ceillog2 k = j

theorem tally_append (ks ks' : List Nat) (j : Nat) :
    tally (ks ++ ks') j = tally ks j + tally ks' j := List.countP_append ..

theorem mem_intKeys {keys : List Value} {k : Nat} :
    k ∈ intKeys keys ↔ ∃ key ∈ keys, arrayindex key = k ∧ 0 < k ∧ k ≤ MAXASIZE := by
  simp only [intKeys, List.mem_filterMap]
  constructor
  · rintro ⟨key, hkey, hk⟩
    split_ifs at hk with hidx
    cases hk
    exact ⟨key, hkey, by omega, by omega, by omega⟩
  · rintro ⟨key, hkey, hidx, hpos, hle⟩
    refine ⟨key, hkey, ?_⟩
    rw [if_pos (by omega), hidx, Int.toNat_natCast]

theorem intKeys_cons (key : Value) (keys : List Value) :
    intKeys (key :: keys) = intKeys [key] ++ intKeys keys := by
  rw [← List.singleton_append, intKeys, List.filterMap_append]
  rfl

theorem countint_eq (key : Value) (nums : Counts) :
    Table.countint key nums =
      ((intKeys [key]).length, fun j => nums j + tally (intKeys [key]) j) := by
  simp only [Table.countint, intKeys, List.filterMap_cons, List.filterMap_nil]
  split_ifs with hidx
  · refine Prod.ext rfl (funext fun j => ?_)
    by_cases hj : j = ceillog2 (arrayindex key).toNat
    · simp [tally, hj]
    · simp [tally, hj, Ne.symm hj]
  · simp [tally]

end Counting

namespace Table
variable {t : Table} {key : Value} {grow : Insertion}

/-- The keys of the entries that have a value. -/
def keysWithValue (entries : List (Value × Value)) : List Value :=
  (entries.filter fun e => e.2 ≠ .nil).map Prod.fst

/-- What one node adds to the counts. -/
def countEntry (counts : Nat × Nat × Counts) (e : Value × Value) : Nat × Nat × Counts :=
  if e.2 ≠ .nil then
    (counts.1 + 1, counts.2.1 + (countint e.1 counts.2.2).1, (countint e.1 counts.2.2).2)
  else counts

theorem foldl_countEntry (entries : List (Value × Value)) (total ause : Nat) (nums : Counts) :
    entries.foldl countEntry (total, ause, nums) =
      (total + (keysWithValue entries).length, ause + (intKeys (keysWithValue entries)).length,
        fun j => nums j + tally (intKeys (keysWithValue entries)) j) := by
  induction entries generalizing total ause nums with
  | nil => rfl
  | cons e entries ih =>
    rw [List.foldl_cons, countEntry]
    by_cases hv : e.2 = .nil
    · have hkeys : keysWithValue (e :: entries) = keysWithValue entries := by
        simp [keysWithValue, hv]
      rw [if_neg (not_not.mpr hv), ih, hkeys]
    · have hkeys : keysWithValue (e :: entries) = e.1 :: keysWithValue entries := by
        simp [keysWithValue, hv]
      rw [if_pos hv, countint_eq, ih, hkeys, intKeys_cons e.1 (keysWithValue entries),
        List.length_cons, List.length_append]
      refine Prod.ext ?_ (Prod.ext ?_ (funext fun j => ?_)) <;> dsimp only
      · omega
      · omega
      · rw [tally_append]
        omega

def hashKeys (t : Table) : List Value := keysWithValue t.nodes

theorem numusehash_eq (nums : Counts) :
    t.numusehash nums = (t.hashKeys.length, (intKeys t.hashKeys).length,
      fun j => nums j + tally (intKeys t.hashKeys) j) := by
  have hfold : t.numusehash nums = t.nodes.foldl countEntry (0, 0, nums) := by
    rw [numusehash, nodes, List.foldl_map]
    rfl
  rw [hfold, foldl_countEntry, Nat.zero_add, Nat.zero_add, hashKeys]

/-- The keys of the array part that have a value, from `i` on. -/
def arrayKeysFrom (t : Table) (i : Nat) : List Nat :=
  (List.range' i (t.sizearray + 1 - i)).filter fun i => t.array (i - 1) ≠ .nil

def arrayKeys (t : Table) : List Nat := t.arrayKeysFrom 1

/-- Where the slice of the keys between `2 ^ (lg - 1)` and `2 ^ lg` starts. -/
def sliceStart : Nat → Nat
  | 0 => 1
  | lg + 1 => 2 ^ lg + 1

theorem ceillog2_of_slice {lg i : Nat} (hlo : sliceStart lg ≤ i) (hhi : i ≤ 2 ^ lg)
    (hi : i ≤ MAXASIZE) : ceillog2 i = lg := by
  have hpos : 0 < i := by cases lg <;> simp only [sliceStart] at hlo <;> omega
  have hbound : i ≤ 2 ^ 32 := hi.trans (by decide)
  have hle := (ceillog2_le_iff hpos hbound).mpr hhi
  cases lg with
  | zero => omega
  | succ lg =>
    have hnot : ¬ ceillog2 i ≤ lg := by
      rw [ceillog2_le_iff hpos hbound]
      simp only [sliceStart] at hlo
      omega
    omega

theorem arrayKeysFrom_split {i lim : Nat} (hlim : lim ≤ t.sizearray) (hi : i ≤ lim + 1) :
    t.arrayKeysFrom i =
      ((List.range' i (lim + 1 - i)).filter fun i => t.array (i - 1) ≠ .nil) ++
        t.arrayKeysFrom (lim + 1) := by
  obtain ⟨m, hm⟩ : ∃ m, lim + 1 = i + m := ⟨lim + 1 - i, by omega⟩
  have hsum : t.sizearray + 1 - i = m + (t.sizearray + 1 - (i + m)) := by omega
  rw [arrayKeysFrom, arrayKeysFrom, ← List.filter_append, hm, Nat.add_sub_cancel_left,
    List.range'_append_1, ← hsum]

theorem arrayKeysFrom_of_lt {i : Nat} (hi : t.sizearray < i) : t.arrayKeysFrom i = [] := by
  rw [arrayKeysFrom, Nat.sub_eq_zero_of_le hi]
  rfl

theorem numusearrayLoop_past {slices lg i ause : Nat} {nums : Counts} (hlg : t.sizearray < 2 ^ lg)
    (hi : t.sizearray < i) : t.numusearrayLoop slices lg i ause nums = (ause, nums) := by
  cases slices with
  | zero => rfl
  | succ slices =>
    rw [numusearrayLoop]
    dsimp only
    rw [if_pos ⟨hlg, by omega⟩]

theorem numusearrayLoop_eq (hfits : t.sizearray ≤ MAXASIZE) {slices lg : Nat}
    (hlg : slices + lg = MAXBITS + 1) (ause : Nat) (nums : Counts) :
    t.numusearrayLoop slices lg (sliceStart lg) ause nums =
      (ause + (t.arrayKeysFrom (sliceStart lg)).length,
        fun j => nums j + tally (t.arrayKeysFrom (sliceStart lg)) j) := by
  induction slices generalizing lg ause nums with
  | zero =>
    have hpast : t.sizearray < sliceStart lg := by
      have hlg' : lg = MAXBITS + 1 := by omega
      rw [hlg', sliceStart]
      exact Nat.lt_succ_of_le hfits
    rw [arrayKeysFrom_of_lt hpast]
    rfl
  | succ slices ih =>
    rw [numusearrayLoop]
    set lim := min (2 ^ lg) t.sizearray with hlim
    have hstart : sliceStart lg ≤ 2 ^ lg := by
      cases lg with
      | zero => exact le_rfl
      | succ lg =>
        have := Nat.one_le_two_pow (n := lg)
        rw [sliceStart, Nat.pow_succ]
        omega
    dsimp only
    split_ifs with hbreak
    · rw [arrayKeysFrom_of_lt (by omega)]
      rfl
    · set slice := (List.range' (sliceStart lg) (lim + 1 - sliceStart lg)).filter
        fun i => t.array (i - 1) ≠ .nil with hslice
      have hle : sliceStart lg ≤ lim + 1 := by omega
      have hkeys : t.arrayKeysFrom (sliceStart lg) = slice ++ t.arrayKeysFrom (lim + 1) :=
        arrayKeysFrom_split (min_le_right _ _) hle
      have htally : ∀ j, tally slice j = if j = lg then slice.length else 0 := by
        intro j
        have hall : ∀ k ∈ slice, ceillog2 k = lg := by
          intro k hk
          have hk := List.mem_range'_1.mp (List.mem_of_mem_filter hk)
          have hmin := min_le_left (2 ^ lg) t.sizearray
          have hmin' := min_le_right (2 ^ lg) t.sizearray
          exact ceillog2_of_slice hk.1 (by omega) (by omega)
        split_ifs with hj
        · exact List.countP_eq_length.mpr fun k hk => by simp [hall k hk, hj]
        · exact List.countP_eq_zero.mpr fun k hk => by simp [hall k hk, Ne.symm hj]
      have hcount : (List.range' (sliceStart lg) (lim + 1 - sliceStart lg)).countP
          (fun i => t.array (i - 1) ≠ .nil) = slice.length := List.countP_eq_length_filter
      have hloop : t.numusearrayLoop slices (lg + 1) (lim + 1) (ause + slice.length)
          (Function.update nums lg (nums lg + slice.length)) =
          (ause + slice.length + (t.arrayKeysFrom (lim + 1)).length, fun j =>
            Function.update nums lg (nums lg + slice.length) j +
              tally (t.arrayKeysFrom (lim + 1)) j) := by
        by_cases hfull : 2 ^ lg ≤ t.sizearray
        · have hlim' : lim + 1 = sliceStart (lg + 1) := by rw [sliceStart, hlim, min_eq_left hfull]
          rw [hlim']
          exact ih (by omega) _ _
        · have hpast : t.sizearray < 2 ^ (lg + 1) := by
            rw [Nat.pow_succ]
            omega
          rw [numusearrayLoop_past hpast (by omega), arrayKeysFrom_of_lt (by omega)]
          rfl
      rw [hcount, max_eq_right hle, hloop, hkeys, List.length_append]
      refine Prod.ext (by dsimp only; omega) (funext fun j => ?_)
      dsimp only
      rw [tally_append, htally]
      by_cases hj : j = lg
      · rw [hj, Function.update_self, if_pos rfl]
        omega
      · rw [Function.update_of_ne hj, if_neg hj]
        omega

theorem numusearray_eq (hfits : t.sizearray ≤ MAXASIZE) :
    t.numusearray (fun _ => 0) = (t.arrayKeys.length, tally t.arrayKeys) := by
  have h := numusearrayLoop_eq hfits (show MAXBITS + 1 + 0 = MAXBITS + 1 from rfl) 0 fun _ => 0
  simp only [Nat.zero_add, sliceStart] at h
  exact h

end Table

/-! ### The size of the array part -/

section Sizes
variable {ks : List Nat}

/-- How many of the integers are at most `n`. -/
def upTo (ks : List Nat) (n : Nat) : Nat := ks.countP fun k => k ≤ n

/-- Integers that may come to an array part. -/
def Candidates (ks : List Nat) : Prop := ∀ k ∈ ks, 0 < k ∧ k ≤ MAXASIZE

theorem Candidates.ceillog2_le_iff (h : Candidates ks) {k : Nat} (hk : k ∈ ks) (i : Nat) :
    ceillog2 k ≤ i ↔ k ≤ 2 ^ i :=
  Tables.ceillog2_le_iff (h k hk).1 ((h k hk).2.trans (by decide))

theorem Candidates.upTo_eq (h : Candidates ks) (i : Nat) :
    upTo ks (2 ^ i) = ks.countP fun k => ceillog2 k ≤ i :=
  List.countP_congr fun k hk => by simp [h.ceillog2_le_iff hk]

theorem countP_ceillog2 (ks : List Nat) (i : Nat) :
    (ks.countP fun k => ceillog2 k < i) + tally ks i = ks.countP fun k => ceillog2 k ≤ i := by
  induction ks with
  | nil => rfl
  | cons k ks ih =>
    simp only [tally, List.countP_cons] at ih ⊢
    rcases Nat.lt_trichotomy (ceillog2 k) i with hlt | heq | hgt
    · simp [hlt, hlt.le, hlt.ne]
      omega
    · simp [heq]
      omega
    · simp [hgt.not_gt, hgt.not_ge, hgt.ne']
      omega

theorem Candidates.upTo_succ (h : Candidates ks) (i : Nat) :
    upTo ks (2 ^ (i + 1)) = upTo ks (2 ^ i) + tally ks (i + 1) := by
  rw [h.upTo_eq, h.upTo_eq, ← countP_ceillog2]
  simp only [Nat.lt_succ_iff]

/-- More than half of the slots would be in use. -/
def Dense (ks : List Nat) (i : Nat) : Prop := 2 ^ i / 2 < upTo ks (2 ^ i)

/-- A size the loop may have found among the first powers of two. -/
structure Fits (ks : List Nat) (i : Nat) (best : Nat × Nat) : Prop where
  size : best = (0, 0) ∨ ∃ j < i, best = (2 ^ j, upTo ks (2 ^ j)) ∧ Dense ks j
  largest : ks.Nodup → ∀ j < i, Dense ks j → 2 ^ j ≤ best.1

theorem upTo_le_of_nodup (h : Candidates ks) (hks : ks.Nodup) (n : Nat) : upTo ks n ≤ n := by
  have hsub : ks.filter (fun k => k ≤ n) ⊆ List.range' 1 n := by
    intro k hk
    obtain ⟨hmem, hle⟩ := List.mem_filter.mp hk
    have hpos := (h k hmem).1
    exact List.mem_range'_1.mpr ⟨hpos, by simpa [Nat.lt_one_add_iff] using hle⟩
  have hle := (List.subperm_of_subset (hks.filter _) hsub).length_le
  rwa [List.length_range', ← List.countP_eq_length_filter] at hle

/-- Without a key in its upper half, more than half of an array is not in use. -/
theorem not_dense_of_tally (h : Candidates ks) (hks : ks.Nodup) {i : Nat}
    (htally : tally ks i = 0) : ¬ Dense ks i := by
  intro hdense
  rw [Dense] at hdense
  cases i with
  | zero =>
    have hcount : upTo ks (2 ^ 0) = tally ks 0 := by
      rw [h.upTo_eq, ← countP_ceillog2, Nat.add_eq_right, List.countP_eq_zero]
      simp
    omega
  | succ i =>
    rw [h.upTo_succ, htally] at hdense
    have hle := upTo_le_of_nodup h hks (2 ^ i)
    rw [Nat.pow_succ] at hdense
    omega

/-- Beyond the last key the array only gets emptier. -/
theorem not_dense_of_le (h : Candidates ks) (hks : ks.Nodup) {i j : Nat}
    (hall : upTo ks (2 ^ i) = ks.length) (hij : i < j) : ¬ Dense ks j := by
  intro hdense
  have hle := upTo_le_of_nodup h hks (2 ^ i)
  have htop : upTo ks (2 ^ j) ≤ ks.length := List.countP_le_length
  have hpow : 2 * 2 ^ i ≤ 2 ^ j := by
    rw [← Nat.pow_succ']
    exact Nat.pow_le_pow_right (by decide) hij
  rw [Dense] at hdense
  omega

theorem computesizesLoop_fits (h : Candidates ks) {rounds i : Nat} {best : Nat × Nat}
    (hi : rounds + i = MAXBITS + 1) (hbest : Fits ks i best) :
    Fits ks (MAXBITS + 1) (computesizesLoop (tally ks) ks.length rounds i
      (ks.countP fun k => ceillog2 k < i) best) := by
  induction rounds generalizing i best with
  | zero =>
    rw [Nat.zero_add] at hi
    exact hi ▸ hbest
  | succ rounds ih =>
    have ha : (ks.countP fun k => ceillog2 k < i) + tally ks i = upTo ks (2 ^ i) := by
      rw [countP_ceillog2, h.upTo_eq]
    -- what is known when no later size is dense
    have hstop : ∀ {i best}, Fits ks i best → i ≤ MAXBITS + 1 →
        (ks.Nodup → ∀ j, i ≤ j → ¬ Dense ks j) → Fits ks (MAXBITS + 1) best := by
      intro i best hfits hle hnone
      refine ⟨hfits.size.imp id fun ⟨j, hj, hsize⟩ => ⟨j, by omega, hsize⟩, fun hks j _ hd => ?_⟩
      by_cases hji : j < i
      · exact hfits.largest hks j hji hd
      · exact absurd hd (hnone hks j (Nat.le_of_not_lt hji))
    rw [computesizesLoop]
    split_ifs with hloop
    · have hbest' : Fits ks (i + 1) (if 0 < tally ks i ∧ 2 ^ i / 2 < upTo ks (2 ^ i) then
          (2 ^ i, upTo ks (2 ^ i)) else best) := by
        split_ifs with hnew
        · refine ⟨.inr ⟨i, Nat.lt_succ_self i, rfl, hnew.2⟩, fun _ j hj _ => ?_⟩
          exact Nat.pow_le_pow_right (by decide) (Nat.le_of_lt_succ hj)
        · refine ⟨hbest.size.imp id fun ⟨j, hj, hsize⟩ => ⟨j, by omega, hsize⟩,
            fun hks j hj hd => ?_⟩
          rcases Nat.lt_succ_iff_lt_or_eq.mp hj with hj | rfl
          · exact hbest.largest hks j hj hd
          · refine absurd hd (not_dense_of_tally h hks ?_)
            have hpos : ¬ 0 < tally ks j := fun hpos => hnew ⟨hpos, hd⟩
            omega
      dsimp only
      rw [ha]
      by_cases hall : upTo ks (2 ^ i) = ks.length
      · rw [if_pos hall]
        exact hstop hbest' (by omega) fun hks j hj => not_dense_of_le h hks hall hj
      · have hnext : upTo ks (2 ^ i) = ks.countP fun k => ceillog2 k < i + 1 := by
          rw [h.upTo_eq]
          simp only [Nat.lt_succ_iff]
        rw [if_neg hall]
        simp only [hnext] at hbest' ⊢
        exact ih (by omega) hbest'
    · refine hstop hbest (by omega) fun hks j hj hd => ?_
      have htop : upTo ks (2 ^ j) ≤ ks.length := List.countP_le_length
      have hpow : 2 ^ i ≤ 2 ^ j := Nat.pow_le_pow_right (by decide) hj
      rw [Dense] at hd
      omega

/-- The size of the array part is the largest power of two such that more than half of the slots
are in use, and all keys up to there are counted. -/
theorem computesizes_fits (h : Candidates ks) :
    Fits ks (MAXBITS + 1) (computesizes (tally ks) ks.length) := by
  have hstart : Fits ks 0 (0, 0) := ⟨.inl rfl, fun _ j hj => absurd hj (Nat.not_lt_zero j)⟩
  have hfits := computesizesLoop_fits h (show MAXBITS + 1 + 0 = MAXBITS + 1 from rfl) hstart
  have hzero : (ks.countP fun k => ceillog2 k < 0) = 0 := by
    rw [List.countP_eq_zero]
    simp
  rwa [hzero] at hfits

theorem Fits.upTo_eq (h : Candidates ks) {i : Nat} {best : Nat × Nat} (hbest : Fits ks i best) :
    best.2 = upTo ks best.1 := by
  rcases hbest.size with rfl | ⟨j, _, rfl, _⟩
  · symm
    rw [upTo, List.countP_eq_zero]
    intro k hk
    have := (h k hk).1
    simp
    omega
  · rfl

theorem Fits.le {best : Nat × Nat} (hbest : Fits ks (MAXBITS + 1) best) : best.1 ≤ MAXASIZE := by
  rcases hbest.size with rfl | ⟨j, hj, rfl, _⟩
  · exact Nat.zero_le _
  · exact Nat.pow_le_pow_right (by decide) (Nat.le_of_lt_succ hj)

end Sizes

namespace Table
variable {t : Table} {key k : Value} {i : Nat} {grow : Insertion}

/-- The integer keys that a rehash counts. -/
def counted (t : Table) (ek : Value) : List Nat :=
  t.arrayKeys ++ intKeys t.hashKeys ++ intKeys [ek]

theorem candidates_counted (h : WellFormed t) (ek : Value) : Candidates (t.counted ek) := by
  intro k hk
  rw [counted, List.append_assoc, List.mem_append, List.mem_append] at hk
  rcases hk with hk | hk | hk
  · have hmem := List.mem_range'_1.mp (List.mem_of_mem_filter hk)
    have := h.array_fits
    omega
  · obtain ⟨_, _, _, hpos, hle⟩ := mem_intKeys.mp hk
    exact ⟨hpos, hle⟩
  · obtain ⟨_, _, _, hpos, hle⟩ := mem_intKeys.mp hk
    exact ⟨hpos, hle⟩

/-- The new sizes: that of the array part, and that of the hash part. -/
def newSizes (t : Table) (ek : Value) : Nat × Nat :=
  let best := computesizes (tally (t.counted ek)) (t.counted ek).length
  (best.1, t.arrayKeys.length + t.hashKeys.length + 1 - best.2)

theorem rehash_eq (h : WellFormed t) (ek : Value) :
    t.rehash grow ek = t.resize grow (t.newSizes ek).1 (t.newSizes ek).2 := by
  have htally : (fun j => tally t.arrayKeys j + tally (intKeys t.hashKeys) j +
      tally (intKeys [ek]) j) = tally (t.counted ek) := by
    funext j
    rw [counted, tally_append, tally_append]
  have hlen : t.arrayKeys.length + (intKeys t.hashKeys).length + (intKeys [ek]).length =
      (t.counted ek).length := by
    rw [counted, List.length_append, List.length_append]
  simp only [rehash, numusearray_eq h.array_fits, numusehash_eq, countint_eq, htally, hlen,
    newSizes]

/-- The keys that find no place in an array of size `n`. -/
def beyond (keys : List Value) (n : Nat) : Nat :=
  keys.countP fun key => ¬ (1 ≤ arrayindex key ∧ arrayindex key ≤ n)

theorem beyond_add_upTo (keys : List Value) {n : Nat} (hn : n ≤ MAXASIZE) :
    beyond keys n + upTo (intKeys keys) n = keys.length := by
  induction keys with
  | nil => rfl
  | cons key keys ih =>
    rw [intKeys_cons, upTo, List.countP_append, ← upTo, ← upTo, beyond, List.countP_cons, ← beyond,
      List.length_cons]
    by_cases hin : 1 ≤ arrayindex key ∧ arrayindex key ≤ n
    · have hone : intKeys [key] = [(arrayindex key).toNat] := by
        rw [intKeys, List.filterMap_cons, if_pos (by omega)]
        rfl
      have hcount : upTo (intKeys [key]) n = 1 := by
        rw [hone, upTo]
        simp
        omega
      rw [hcount]
      simp only [hin, and_self, not_true_eq_false, decide_false, Bool.false_eq_true, if_false]
      omega
    · have hcount : upTo (intKeys [key]) n = 0 := by
        rw [upTo, List.countP_eq_zero]
        intro k hk
        obtain ⟨key', hkey', hidx, hpos, _⟩ := mem_intKeys.mp hk
        cases List.mem_singleton.mp hkey'
        simp
        omega
      rw [hcount]
      simp only [hin, not_false_eq_true, decide_true, if_true]
      omega

theorem toNodes_nodes (n : Nat) :
    toNodes { t with sizearray := n } t.nodes = beyond t.hashKeys n := by
  simp only [toNodes, beyond, hashKeys, keysWithValue, List.countP_map, List.countP_filter, InArray]
  refine List.countP_congr fun e _ => ?_
  simp
  tauto

theorem toNodes_vanishing {n : Nat} :
    toNodes { t with sizearray := n } (t.vanishingEntries n) + upTo t.arrayKeys n ≤
      t.arrayKeys.length := by
  by_cases hn : n ≤ t.sizearray
  · have hsplit : t.arrayKeys = _ ++ t.arrayKeysFrom (n + 1) := arrayKeysFrom_split hn (by omega)
    have hbeyond : upTo (t.arrayKeysFrom (n + 1)) n = 0 := by
      rw [upTo, List.countP_eq_zero]
      intro k hk
      have := (List.mem_range'_1.mp (List.mem_of_mem_filter hk)).1
      simp
      omega
    have hmoved : toNodes { t with sizearray := n } (t.vanishingEntries n) ≤
        (t.arrayKeysFrom (n + 1)).length := by
      have hshift : List.range' (n + 1) (t.sizearray - n) =
          (List.range' n (t.sizearray - n)).map (· + 1) := by
        simpa [Nat.add_comm] using (List.map_add_range' (a := 1) n (t.sizearray - n) 1).symm
      rw [arrayKeysFrom, Nat.add_sub_add_right, hshift, ← List.countP_eq_length_filter,
        List.countP_map, toNodes, vanishingEntries, vanishing, List.map_map, List.countP_map]
      exact List.countP_mono_left fun i _ hi => by simpa using (by simpa using hi : _ ∧ _).1
    rw [hsplit, upTo, List.countP_append, ← upTo, ← upTo, hbeyond, List.length_append]
    have hle : ∀ ks : List Nat, upTo ks n ≤ ks.length := fun ks => List.countP_le_length
    have := hle ((List.range' 1 (n + 1 - 1)).filter fun i => t.array (i - 1) ≠ .nil)
    omega
  · have hnone : t.vanishingEntries n = [] := by
      rw [vanishingEntries, vanishing, Nat.sub_eq_zero_of_le (Nat.le_of_not_le hn)]
      rfl
    rw [hnone, toNodes, List.countP_nil, Nat.zero_add]
    exact List.countP_le_length

/-- The hash part has room for all that goes there, and for the new key. -/
theorem newSizes_room (h : WellFormed t) (ek : Value) :
    toNodes { t with sizearray := (t.newSizes ek).1 } (t.moving (t.newSizes ek).1) +
      beyond [ek] (t.newSizes ek).1 ≤ (t.newSizes ek).2 := by
  have hfits := computesizes_fits (candidates_counted h ek)
  have hna := hfits.upTo_eq (candidates_counted h ek)
  have hle : (t.newSizes ek).1 ≤ MAXASIZE := hfits.le
  set n := (t.newSizes ek).1 with hn
  have hsum : (computesizes (tally (t.counted ek)) (t.counted ek).length).2 =
      upTo t.arrayKeys n + upTo (intKeys t.hashKeys) n + upTo (intKeys [ek]) n := by
    rw [hna, counted, upTo, List.countP_append, List.countP_append]
    rfl
  have hhash := beyond_add_upTo t.hashKeys hle
  have hek := beyond_add_upTo [ek] hle
  have hvanish := toNodes_vanishing (t := t) (n := n)
  have hsize : (t.newSizes ek).2 = t.arrayKeys.length + t.hashKeys.length + 1 -
      (computesizes (tally (t.counted ek)) (t.counted ek).length).2 := rfl
  rw [hsize, hsum, moving, toNodes, List.countP_append, ← toNodes, ← toNodes, toNodes_nodes]
  rw [List.length_singleton] at hek
  omega

theorem newSizes_le (h : WellFormed t) (ek : Value) : (t.newSizes ek).1 ≤ MAXASIZE :=
  (computesizes_fits (candidates_counted h ek)).le

/-- More keys than the hash part may have nodes. -/
def Overflows (t : Table) (key : Value) : Prop := 2 ^ MAXBITS < (t.newSizes key).2

variable (grow) in
theorem rehash_spec (h : WellFormed t) (ek : Value) (hsmall : ¬ t.Overflows ek) :
    ∃ t', t.rehash grow ek = .ok t' ∧ WellFormed t' ∧ FreeBelow t' ∧ t'.get = t.get ∧
      t'.sizearray = (t.newSizes ek).1 ∧ (t'.InArray ek ∨ t'.used.card < t'.capacity) := by
  have hroom := newSizes_room h ek
  obtain ⟨t', hok, hwf, hfree, hsize, hcap, hused, hget⟩ := resize_spec grow h
    (newSizes_le h ek) (Nat.le_of_not_lt hsmall) (Nat.le_of_add_right_le hroom)
  refine ⟨t', (rehash_eq h ek).trans hok, hwf, hfree, hget, hsize, ?_⟩
  by_cases hin : t'.InArray ek
  · exact .inl hin
  · have hone : beyond [ek] (t.newSizes ek).1 = 1 := by
      rw [InArray, hsize] at hin
      simp [beyond, hin]
    right
    omega

theorem length_hashKeys_le (t : Table) : t.hashKeys.length ≤ t.sizenode := by
  rw [hashKeys, keysWithValue, List.length_map]
  exact (List.length_filter_le _ _).trans (by simp [nodes])

theorem rehash_overflow (h : WellFormed t) (ek : Value) (hbig : t.Overflows ek) :
    t.rehash grow ek = .error "table overflow" := by
  have harray : t.arrayKeys.length ≤ t.sizearray :=
    (List.length_filter_le _ _).trans (by simp)
  have hhash := length_hashKeys_le t
  have hnodes : t.sizenode ≤ 2 ^ MAXBITS := Nat.pow_le_pow_right (by decide) h.bits
  have hle : (t.newSizes ek).2 ≤ 2 ^ 32 := by
    have hfits := h.array_fits
    have htotal : (t.newSizes ek).2 ≤ t.arrayKeys.length + t.hashKeys.length + 1 := Nat.sub_le _ _
    simp only [MAXASIZE, MAXBITS] at hfits hnodes
    omega
  have hlog : MAXBITS < ceillog2 (t.newSizes ek).2 := by
    by_contra hsmall
    have hpow := (ceillog2_le_iff (Nat.zero_lt_of_lt hbig) hle).mp (Nat.le_of_not_lt hsmall)
    exact absurd hbig (Nat.not_lt.mpr hpow)
  rw [rehash_eq h, resize, ← withArray, setnodevector, if_neg (Nat.ne_zero_of_lt hbig), if_pos hlog]
  rfl

/-- An assignment succeeds unless the table would have too many nodes. No rehash is nested in
another one. -/
theorem luaHSet_cases (h : WellFormed t) (hf : FreeBelow t) (hkey : IsKey key) :
    (∃ t' s, luaHSet t key = .ok (t', s) ∧ Accepts t t' key s) ∨
      (t.Overflows key ∧ luaHSet t key = .error "table overflow") := by
  rw [luaHSet, setAt]
  rcases setWith_cases _ h hf hkey with ⟨t', s, hok, htakes⟩ | ⟨_, _, hgrow⟩
  · exact .inl ⟨t', s, hok, htakes.accepts⟩
  · rw [hgrow]
    have hu := h.setLastfree 0
    by_cases hbig : t.Overflows key
    · right
      refine ⟨hbig, ?_⟩
      rw [rehash_overflow hu key hbig]
      rfl
    · left
      obtain ⟨u, hok, hwf, hfree, hget, _, hroom⟩ :=
        rehash_spec (setAt 0) (t := { t with lastfree := 0 }) hu key hbig
      have hstep : ∃ t' s, setAt 0 u key = .ok (t', s) ∧ Takes u t' key s := by
        rcases hroom with hin | hlt
        · obtain ⟨s, hs⟩ := setWith_of_inArray _ hwf hfree hin
          exact ⟨u, s, hs⟩
        · exact setWith_of_room _ hwf hfree hkey hlt
      obtain ⟨t', s, hset, htakes⟩ := hstep
      refine ⟨t', s, ?_, htakes.accepts.wellFormed, htakes.accepts.free, htakes.accepts.slot,
        fun j => ?_⟩
      · rw [hok]
        exact hset
      · rw [htakes.accepts.get, hget]
        rfl

/-- The special case of numbers is that of `luaH_set`. -/
theorem luaHSetnum_eq (t : Table) {n : Int} (hlo : -2 ^ 31 ≤ n) (hhi : n < 2 ^ 31) :
    t.luaHSetnum n = luaHSet t (.number (.ofInt _ n)) :=
  setnumWith_eq grow t hlo hhi

theorem rawEqual_nan (k : Value) : k.rawEqual (.number .nan) = false := by
  cases k with
  | number x => cases x <;> rfl
  | _ => rfl

theorem luaHGet_nan (t : Table) : t.luaHGet (.number .nan) = none := by
  have hidx : arrayindex (.number .nan) = -1 := by decide
  rw [luaHGet_eq Value.noConfusion, if_neg (by simp [InArray, hidx]), search,
    Option.map_eq_none_iff, List.find?_eq_none]
  intro i _
  cases (t.node i).key with
  | live k => simp [TKey.rawequalObj, rawEqual_nan]
  | dead k => simp [TKey.rawequalObj]

/-- The error that a key raises which no table can have. -/
def keyError (key : Value) : Option String :=
  if key = .nil then some "table index is nil"
  else if key = .number .nan then some "table index is NaN" else none

theorem keyError_eq_none : keyError key = none ↔ IsKey key := by
  rw [keyError]
  split_ifs with hnil hnan
  · exact iff_of_false (by simp) fun h => h.ne_nil hnil
  · exact iff_of_false (by simp) fun h => h.ne_nan hnan
  · exact iff_of_true rfl ⟨hnil, hnan⟩

theorem luaHSet_of_keyError {e : String} (h : keyError key = some e) :
    luaHSet t key = .error e := by
  rw [keyError] at h
  split_ifs at h with hnil hnan
  · cases h
    rw [hnil]
    rfl
  · cases h
    rw [hnan, luaHSet, setAt, setWith, luaHGet_nan]
    rfl

/-- An assignment ends in the new contents, in the error of the key, or in too large a table. -/
theorem rawset_cases (h : WellFormed t) (hf : FreeBelow t) (key v : Value) :
    (∃ t', t.rawset key v = .ok t' ∧ IsKey key ∧ WellFormed t' ∧ FreeBelow t' ∧
        t'.get = assign t.get key v) ∨
      (∃ e, keyError key = some e ∧ t.rawset key v = .error e) ∨
      (IsKey key ∧ t.Overflows key ∧ t.rawset key v = .error "table overflow") := by
  cases he : keyError key with
  | some e =>
    refine .inr (.inl ⟨e, rfl, ?_⟩)
    rw [rawset, luaHSet_of_keyError he]
    rfl
  | none =>
    have hkey := keyError_eq_none.mp he
    rcases luaHSet_cases h hf hkey with ⟨t', s, hok, hacc⟩ | ⟨hbig, herr⟩
    · refine .inl ⟨t'.write v s, ?_, hkey, hacc.wellFormed.write hkey.ne_nil hacc.slot v,
        hacc.free.write v s, get_assign hkey hacc v⟩
      rw [rawset, hok]
      rfl
    · refine .inr (.inr ⟨hkey, hbig, ?_⟩)
      rw [rawset, herr]
      rfl

/-! ### Runs -/

theorem sizearray_setnodevector {u : Table} {size : Nat} (h : t.setnodevector size = .ok u) :
    u.sizearray = t.sizearray := by
  rw [setnodevector] at h
  split_ifs at h <;> cases h <;> rfl

theorem luaHNew_spec {narray nhash : Nat} (harray : narray ≤ MAXASIZE)
    (hhash : nhash ≤ 2 ^ MAXBITS) :
    ∃ t, luaHNew narray nhash = .ok t ∧ WellFormed t ∧ FreeBelow t ∧ t.get = fun _ => .nil := by
  let blank : Table := ⟨fun _ => .nil, 0, fun _ => emptyNode, 0, true, 0⟩
  have hblank : blank.withArray narray = blank.setarrayvector narray := by
    rw [withArray]
    split_ifs with hpos
    · rfl
    · cases Nat.eq_zero_of_not_pos hpos
      simp [blank, setarrayvector]
  obtain ⟨u, hu, hfresh⟩ := setnodevector_fresh (t := blank) narray hhash
  rw [hblank] at hu
  have hsame : ({ u with sizearray := narray } : Table) = u := by
    rw [show narray = u.sizearray from (sizearray_setnodevector hu).symm]
  rw [hsame] at hfresh
  refine ⟨u, hu, hfresh.wellFormed harray, hfresh.freeBelow, funext fun key => ?_⟩
  rw [hfresh.get_eq harray]
  split_ifs <;> rfl

section Collect

theorem value_removeEntries (t : Table) (i : Nat) :
    (t.removeEntries.node i).key.value = (t.node i).key.value := by
  simp only [removeEntries, removeentry]
  split_ifs <;> rfl

theorem val_removeEntries (t : Table) (i : Nat) :
    (t.removeEntries.node i).val = (t.node i).val := by
  simp only [removeEntries, removeentry]
  split_ifs <;> rfl

theorem next_removeEntries (t : Table) : t.removeEntries.next = t.next := by
  funext i
  simp only [next, removeEntries, removeentry]
  split_ifs <;> rfl

theorem live_of_removeEntries (h : (t.removeEntries.node i).key = .live k) :
    (t.node i).key = .live k := by
  simp only [removeEntries, removeentry] at h
  split_ifs at h
  · exact h
  · exact h

theorem dead_of_removeEntries (h : (t.removeEntries.node i).key = .dead k) :
    ((t.node i).key = .live k ∧ iscollectable k = true) ∨ (t.node i).key = .dead k := by
  simp only [removeEntries, removeentry] at h
  split_ifs at h with hv hc
  · cases hkey : (t.node i).key with
    | live k' =>
      rw [hkey] at h hc
      cases h
      exact .inl ⟨rfl, hc⟩
    | dead k' =>
      rw [hkey] at h
      cases h
      exact .inr rfl
  · exact .inr h
  · exact .inr h

theorem key_removeEntries (h : (t.node i).val ≠ .nil) :
    (t.removeEntries.node i).key = (t.node i).key := by
  simp only [removeEntries, if_neg h]

theorem blank_removeEntries :
    (t.removeEntries.node i).key = .live .nil ↔ (t.node i).key = .live .nil := by
  refine ⟨live_of_removeEntries, fun h => ?_⟩
  simp only [removeEntries, removeentry]
  split_ifs with hv hc
  · simp [h, TKey.value, iscollectable] at hc
  · exact h
  · exact h

theorem WellFormed.removeEntries (h : WellFormed t) : WellFormed t.removeEntries := by
  have hmain : t.removeEntries.mainposition = t.mainposition := mainposition_congr rfl
  have hempty : ∀ i, t.node i = emptyNode → t.removeEntries.node i = emptyNode := by
    intro i hi
    simp [Table.removeEntries, removeentry, hi, emptyNode, TKey.value, iscollectable]
  constructor
  · exact fun hd => ⟨(h.dummy hd).1, hempty 0 (h.dummy hd).2⟩
  · exact h.bits
  · exact h.array_fits
  · exact fun i hi => hempty i (h.outside i hi)
  · exact next_removeEntries t ▸ h.linear
  · exact next_removeEntries t ▸ h.ends
  · exact next_removeEntries t ▸ h.bounded
  · intro i hi
    rw [val_removeEntries, next_removeEntries]
    exact h.blank i (blank_removeEntries.mp hi)
  · intro i hi
    rw [value_removeEntries] at hi ⊢
    rw [hmain, next_removeEntries]
    exact h.placed i hi
  · intro i hi
    rw [value_removeEntries] at hi ⊢
    rw [hmain, AtHome, value_removeEntries, hmain]
    exact h.home i hi
  · intro i hi
    rw [val_removeEntries] at hi
    rw [key_removeEntries hi]
    exact h.live i hi
  · exact fun i k hk => h.isKey i k (live_of_removeEntries hk)
  · exact fun i j k k' hk hk' =>
      h.distinct i j k k' (live_of_removeEntries hk) (live_of_removeEntries hk')
  · intro i k hk
    rcases dead_of_removeEntries hk with ⟨_, hc⟩ | hdead
    · exact hc
    · exact h.dead i k hdead
  · intro i j k hk hk'
    rw [next_removeEntries]
    have hlive := live_of_removeEntries hk
    rcases dead_of_removeEntries hk' with ⟨hj, hc⟩ | hdead
    · have hkey : IsKey k := by
        constructor <;> rintro rfl <;> exact absurd hc (by decide)
      have hij := h.distinct i j k k hlive hj hkey.ne_nil hkey.rawEqual_self
      cases hk.symm.trans (hij ▸ hk')
    · exact h.ordered i j k hlive hdead

theorem FreeBelow.removeEntries (hf : FreeBelow t) : FreeBelow t.removeEntries where
  le := hf.le
  used := fun i hi hlt hd => fun heq => hf.used i hi hlt hd (blank_removeEntries.mp heq)
  dummy := hf.dummy

theorem get_removeEntries (h : WellFormed t) : t.removeEntries.get = t.get := by
  funext key
  by_cases hkey : key = .nil
  · rw [hkey, get_nil, get_nil]
  by_cases hin : t.InArray key
  · rw [get_of_inArray hin, get_of_inArray (t := t.removeEntries) hin]
    rfl
  · refine h.get_congr h.removeEntries hkey hin hin fun v => ?_
    constructor
    · rintro ⟨hv, i, k, hk, hraw, hval⟩
      exact ⟨hv, i, k, live_of_removeEntries hk, hraw, (val_removeEntries t i).symm.trans hval⟩
    · rintro ⟨hv, i, k, hk, hraw, hval⟩
      exact ⟨hv, i, k, (key_removeEntries (hval ▸ hv)).trans hk, hraw,
        (val_removeEntries t i).trans hval⟩

end Collect

variable (grow) in
/-- A longer array part leaves room for all nodes there are. -/
theorem luaHResizearray_spec (h : WellFormed t) {n : Nat} (hlo : t.sizearray ≤ n)
    (hhi : n ≤ MAXASIZE) :
    ∃ t', t.luaHResizearray grow n = .ok t' ∧ WellFormed t' ∧ FreeBelow t' ∧ t'.get = t.get := by
  have hvanish : t.vanishingEntries n = [] := by
    rw [vanishingEntries, vanishing, Nat.sub_eq_zero_of_le hlo]
    rfl
  have hnodes : toNodes { t with sizearray := n } (t.moving n) ≤ t.hashKeys.length := by
    rw [moving, hvanish, List.nil_append, toNodes_nodes]
    exact List.countP_le_length
  have hroom : t.hashKeys.length ≤ if t.isDummy then 0 else t.sizenode := by
    split_ifs with hd
    · obtain ⟨hsize, hnode⟩ := h.dummy hd
      simp [hashKeys, keysWithValue, nodes, sizenode, hsize, hnode, emptyNode]
    · exact length_hashKeys_le t
  have hbits : (if t.isDummy then 0 else t.sizenode) ≤ 2 ^ MAXBITS := by
    split_ifs
    · exact Nat.zero_le _
    · exact Nat.pow_le_pow_right (by decide) h.bits
  obtain ⟨t', hok, hwf, hfree, _, _, _, hget⟩ := resize_spec grow h hhi hbits
    (hnodes.trans hroom)
  exact ⟨t', hok, hwf, hfree, hget⟩

/-- What happens to a table: an assignment, a traversal by the collector, and the growth of the
array part before a list of values is stored. -/
inductive Op where
  | rawset (key v : Value)
  | removeEntries
  | resizearray (n : Nat)

inductive Step : Table → Op → Table → Prop where
  | rawset {t t' : Table} {key v : Value} (h : t.rawset key v = .ok t') :
      Step t (.rawset key v) t'
  | removeEntries (t : Table) : Step t .removeEntries t.removeEntries
  | resizearray {t t' : Table} {n : Nat} (hlo : t.sizearray ≤ n) (hhi : n ≤ MAXASIZE)
      (h : t.luaHResizearray luaHSet n = .ok t') : Step t (.resizearray n) t'

/-- What the operations mean for a map. -/
def Op.apply : (Value → Value) → Op → Value → Value
  | f, .rawset key v => assign f key v
  | f, .removeEntries => f
  | f, .resizearray _ => f

/-- A table that represents a map. -/
structure Represents (t : Table) (f : Value → Value) : Prop where
  wellFormed : WellFormed t
  free : FreeBelow t
  get : t.get = f

theorem Step.represents {t t' : Table} {op : Op} {f : Value → Value} (hstep : Step t op t')
    (h : Represents t f) : Represents t' (op.apply f) := by
  cases hstep with
  | @rawset _ key v hset =>
    rcases rawset_cases h.wellFormed h.free key v with
      ⟨u, hok, _, hwf, hfree, hget⟩ | ⟨e, _, herr⟩ | ⟨_, _, herr⟩
    · cases hok.symm.trans hset
      exact ⟨hwf, hfree, hget.trans (by rw [h.get]; rfl)⟩
    · cases herr.symm.trans hset
    · cases herr.symm.trans hset
  | removeEntries =>
    exact ⟨h.wellFormed.removeEntries, h.free.removeEntries,
      (get_removeEntries h.wellFormed).trans h.get⟩
  | resizearray hlo hhi hresize =>
    obtain ⟨u, hok, hwf, hfree, hget⟩ :=
      luaHResizearray_spec luaHSet h.wellFormed hlo hhi
    cases hok.symm.trans hresize
    exact ⟨hwf, hfree, hget.trans h.get⟩

theorem luaHNew_represents {narray nhash : Nat} (harray : narray ≤ MAXASIZE)
    (hhash : nhash ≤ 2 ^ MAXBITS) (hnew : luaHNew narray nhash = .ok t) :
    Represents t fun _ => .nil := by
  obtain ⟨u, hu, hwf, hfree, hget⟩ := luaHNew_spec harray hhash
  cases hu.symm.trans hnew
  exact ⟨hwf, hfree, hget⟩

/-- What an operation makes of a table. -/
def Op.next (t : Table) : Op → Option Table
  | .rawset key v => (t.rawset key v).toOption
  | .removeEntries => some t.removeEntries
  | .resizearray n =>
    if t.sizearray ≤ n ∧ n ≤ MAXASIZE then (t.luaHResizearray luaHSet n).toOption else none

theorem Step.of_next {t t' : Table} {op : Op} (h : op.next t = some t') : Step t op t' := by
  cases op with
  | rawset key v =>
    cases hset : t.rawset key v with
    | error e => rw [Op.next, hset] at h; cases h
    | ok u =>
      rw [Op.next, hset] at h
      cases h
      exact .rawset hset
  | removeEntries =>
    cases h
    exact .removeEntries t
  | resizearray n =>
    rw [Op.next] at h
    split_ifs at h with hn
    cases hresize : t.luaHResizearray luaHSet n with
    | error e => rw [hresize] at h; cases h
    | ok u =>
      rw [hresize] at h
      cases h
      exact .resizearray hn.1 hn.2 hresize

/-- A table holds what was assigned to it last, key by key, whatever has become of its parts. -/
theorem run_represents {narray nhash : Nat} (harray : narray ≤ MAXASIZE)
    (hhash : nhash ≤ 2 ^ MAXBITS) {t₀ t : Table} (hnew : luaHNew narray nhash = .ok t₀)
    {log : List (Table × Op)} (run : Run Step t₀ log t) :
    Represents t ((log.map Prod.snd).foldl Op.apply fun _ => .nil) := by
  induction run with
  | start => exact luaHNew_represents harray hhash hnew
  | next _ hstep ih =>
    rw [List.map_append, List.foldl_append]
    exact hstep.represents ih

/-- The table of `luaH_new` without places. -/
def emptyTable : Table :=
  setarrayvector
    { array := fun _ => .nil, sizearray := 0, node := fun _ => emptyNode, lsizenode := 0,
      isDummy := true, lastfree := 0 } 0

theorem luaHNew_empty : luaHNew 0 0 = .ok emptyTable := rfl

/-- Operations on a new table that can be computed. -/
theorem exists_run (ops : List Op) (p : Table → Bool)
    (h : ((Run.trace Op.next ops emptyTable []).any fun last => p last.2) = true) :
    ∃ log t, Run Step emptyTable log t ∧ log.map Prod.snd = ops ∧ p t = true :=
  Run.exists_of_trace p (fun _ _ _ => Step.of_next) h

/-- Assignments that make both parts grow; two of the keys collide, and one loses its value. -/
def sample : List Op :=
  [.rawset (.boolean true) (.boolean false), .rawset (.string [97]) (.boolean true),
    .rawset (.number (.ofInt _ 1)) (.lightuserdata 7),
    .rawset (.number (.ofInt _ 2)) (.lightuserdata 8), .rawset (.boolean false) (.string [98]),
    .rawset (.string [97]) .nil, .removeEntries]

theorem run_represents_once : ∃ log t, Run Step emptyTable log t ∧ log.map Prod.snd = sample ∧
    (t.sizearray = 2 ∧ t.sizenode = 4 ∧ t.next 0 = some 3) ∧
    Represents t (sample.foldl Op.apply fun _ => .nil) := by
  obtain ⟨log, t, run, hlog, ht⟩ := exists_run sample
    (fun t => t.sizearray = 2 ∧ t.sizenode = 4 ∧ t.next 0 = some 3) (by decide +kernel)
  have hrep := run_represents (Nat.zero_le _) (Nat.zero_le _) luaHNew_empty run
  rw [hlog] at hrep
  exact ⟨log, t, run, hlog, of_decide_eq_true ht, hrep⟩

theorem run_wellFormed {narray nhash : Nat} (harray : narray ≤ MAXASIZE)
    (hhash : nhash ≤ 2 ^ MAXBITS) {t₀ t : Table} (hnew : luaHNew narray nhash = .ok t₀)
    {log : List (Table × Op)} (run : Run Step t₀ log t) : WellFormed t ∧ FreeBelow t := by
  have hinit : ∃ f, Represents t₀ f := ⟨_, luaHNew_represents harray hhash hnew⟩
  obtain ⟨f, hf⟩ := run.invariant (P := fun t => ∃ f, Represents t f) hinit
    fun _ _ _ ⟨_, hf⟩ hstep => ⟨_, hstep.represents hf⟩
  exact ⟨hf.wellFormed, hf.free⟩

/-- How many values are in a table. -/
def values (t : Table) : Nat := t.arrayKeys.length + t.hashKeys.length

theorem Overflows.le_values (h : t.Overflows key) : 2 ^ MAXBITS ≤ t.values := by
  rw [Overflows, newSizes] at h
  rw [values]
  omega

/-- Whatever was done to a table, an assignment ends in the error of its key, or takes place; only
a table of very many values overflows. -/
theorem rawset_in_run {narray nhash : Nat} (harray : narray ≤ MAXASIZE)
    (hhash : nhash ≤ 2 ^ MAXBITS) {t₀ t : Table} (hnew : luaHNew narray nhash = .ok t₀)
    {log : List (Table × Op)} (run : Run Step t₀ log t) (key v : Value) :
    (∃ e, keyError key = some e ∧ t.rawset key v = .error e) ∨
      keyError key = none ∧
        ((∃ t', t.rawset key v = .ok t' ∧ t'.get = assign t.get key v) ∨
          2 ^ MAXBITS ≤ t.values ∧ t.rawset key v = .error "table overflow") := by
  obtain ⟨hwf, hfree⟩ := run_wellFormed harray hhash hnew run
  rcases rawset_cases hwf hfree key v with
    ⟨t', hok, hkey, _, _, hget⟩ | herr | ⟨hkey, hbig, herr⟩
  · exact .inr ⟨keyError_eq_none.mpr hkey, .inl ⟨t', hok, hget⟩⟩
  · exact .inl herr
  · exact .inr ⟨keyError_eq_none.mpr hkey, .inr ⟨hbig.le_values, herr⟩⟩

theorem rawset_in_run_twice : ∃ log t t', Run Step emptyTable log t ∧ log.map Prod.snd = sample ∧
    t.rawset (.string [99]) (.boolean true) = .ok t' ∧
    t'.get = assign t.get (.string [99]) (.boolean true) := by
  obtain ⟨log, t, run, hlog, hvalues⟩ := exists_run sample (fun t => t.values = 4)
    (by decide +kernel)
  rcases rawset_in_run (Nat.zero_le _) (Nat.zero_le _) luaHNew_empty run (.string [99])
    (.boolean true) with ⟨e, he, _⟩ | ⟨_, ⟨t', hok, hget⟩ | ⟨hbig, _⟩⟩
  · cases he
  · exact ⟨log, t, t', run, hlog, hok, hget⟩
  · rw [of_decide_eq_true hvalues] at hbig
    exact absurd hbig (by decide)

/-! ### The best size -/

/-- The integer keys up to `m` that have a value, or get one. -/
def inUse (t : Table) (ek : Value) (m : Nat) : Finset Nat :=
  (Finset.Icc 1 m).filter fun i =>
    t.get (.number (.ofInt _ i)) ≠ .nil ∨ (Value.number (.ofInt _ i)).rawEqual ek = true

theorem mem_hashKeys : key ∈ t.hashKeys ↔
    ∃ i < t.sizenode, (t.node i).val ≠ .nil ∧ key = (t.node i).key.value := by
  simp only [hashKeys, keysWithValue, List.mem_map, List.mem_filter, mem_nodes]
  constructor
  · rintro ⟨e, ⟨⟨i, hi, rfl⟩, hv⟩, rfl⟩
    exact ⟨i, hi, by simpa using hv, rfl⟩
  · rintro ⟨i, hi, hv, rfl⟩
    exact ⟨_, ⟨⟨i, hi, rfl⟩, by simpa using hv⟩, rfl⟩

/-- A node with a value has a live key, which is none for the array part. -/
theorem WellFormed.live_of_val (h : WellFormed t) (hv : (t.node i).val ≠ .nil) :
    ∃ k, (t.node i).key = .live k ∧ IsKey k ∧ ¬ t.InArray k := by
  obtain ⟨k, hk⟩ := h.live i hv
  have hne : k ≠ .nil := by
    rintro rfl
    exact hv (h.blank i hk).1
  exact ⟨k, hk, h.isKey i k hk hne⟩

theorem mem_counted (h : WellFormed t) {ek : Value} {k : Nat} :
    k ∈ t.counted ek ↔ (0 < k ∧ k ≤ MAXASIZE) ∧
      (t.get (.number (.ofInt _ k)) ≠ .nil ∨ (Value.number (.ofInt _ k)).rawEqual ek = true) := by
  have hidx : k ≤ MAXASIZE → arrayindex (.number (.ofInt _ k)) = k := by
    intro hk
    simp only [MAXASIZE, MAXBITS] at hk
    exact arrayindex_ofInt (by omega) (by omega)
  have hek : k ∈ intKeys [ek] ↔
      (0 < k ∧ k ≤ MAXASIZE) ∧ (Value.number (.ofInt _ k)).rawEqual ek = true := by
    rw [mem_intKeys]
    constructor
    · rintro ⟨key, hkey, hi, hpos, hle⟩
      cases List.mem_singleton.mp hkey
      exact ⟨⟨hpos, hle⟩, rawEqual_of_arrayindex hi (by omega)⟩
    · rintro ⟨⟨hpos, hle⟩, hraw⟩
      exact ⟨ek, List.mem_singleton_self _, (arrayindex_of_rawEqual hraw).symm.trans (hidx hle),
        hpos, hle⟩
  have hused : k ∈ t.arrayKeys ∨ k ∈ intKeys t.hashKeys ↔
      (0 < k ∧ k ≤ MAXASIZE) ∧ t.get (.number (.ofInt _ k)) ≠ .nil := by
    constructor
    · rintro (hk | hk)
      · obtain ⟨hmem, hv⟩ := List.mem_filter.mp hk
        have hrange := List.mem_range'_1.mp hmem
        have hfits := h.array_fits
        have hi := hidx (by omega)
        have hin : t.InArray (.number (.ofInt _ k)) := by rw [InArray]; omega
        refine ⟨by omega, ?_⟩
        rw [get_of_inArray hin, hi]
        simpa using hv
      · obtain ⟨key, hkey, hi, hpos, hle⟩ := mem_intKeys.mp hk
        obtain ⟨i, _, hv, rfl⟩ := mem_hashKeys.mp hkey
        obtain ⟨k', hk', _, hin⟩ := h.live_of_val hv
        rw [hk'] at hi
        have hraw := Value.rawEqual_symm (rawEqual_of_arrayindex hi (by omega))
        have hin' : ¬ t.InArray (.number (.ofInt _ k)) := by
          rwa [InArray, ← arrayindex_of_rawEqual hraw]
        refine ⟨⟨hpos, hle⟩, ?_⟩
        rwa [(h.get_eq_iff Value.noConfusion hin' hv).mpr ⟨hv, i, k', hk', hraw, rfl⟩]
    · rintro ⟨⟨hpos, hle⟩, hget⟩
      have hi := hidx hle
      by_cases hin : t.InArray (.number (.ofInt _ k))
      · left
        have hhi := hin.2
        rw [get_of_inArray hin, hi] at hget
        refine List.mem_filter.mpr ⟨List.mem_range'_1.mpr (by omega), ?_⟩
        simpa using hget
      · right
        obtain ⟨_, i, k', hk', hraw, hval⟩ := (h.get_eq_iff Value.noConfusion hin hget).mp rfl
        refine mem_intKeys.mpr ⟨k', mem_hashKeys.mpr ⟨i, h.lt_sizenode ?_, ?_, ?_⟩, ?_, hpos, hle⟩
        · rw [hk']
          intro heq
          cases heq
          cases hraw
        · rw [hval]
          exact hget
        · rw [hk']
          rfl
        · exact (arrayindex_of_rawEqual hraw).trans hi
  rw [counted, List.mem_append, List.mem_append, hek, hused]
  tauto

theorem nodup_hashKeys (h : WellFormed t) : t.hashKeys.Nodup := by
  rw [hashKeys, keysWithValue, nodes, List.filter_map, List.map_map]
  refine List.Nodup.map_on ?_ ((List.nodup_reverse.mpr List.nodup_range).filter _)
  intro i hi j hj hij
  obtain ⟨k, hk, hkey, _⟩ := h.live_of_val (by simpa using (List.mem_filter.mp hi).2)
  obtain ⟨k', hk', _⟩ := h.live_of_val (by simpa using (List.mem_filter.mp hj).2)
  have heq : k = k' := by simpa [hk, hk', TKey.value] using hij
  exact h.distinct i j k k' hk hk' hkey.ne_nil (heq ▸ hkey.rawEqual_self)

theorem nodup_intKeys {keys : List Value} (h : keys.Nodup) : (intKeys keys).Nodup := by
  refine h.filterMap fun a a' b hb hb' => ?_
  simp only [Option.mem_def] at hb hb'
  split_ifs at hb hb' with hidx hidx'
  cases hb
  have heq : arrayindex a = arrayindex a' := by
    have := Option.some.inj hb'
    omega
  have hraw : a.rawEqual a' = true :=
    Value.rawEqual_trans (Value.rawEqual_symm (rawEqual_of_arrayindex heq (by omega)))
      (rawEqual_of_arrayindex rfl (by omega))
  rcases Value.eq_or_zeros_of_rawEqual hraw with heq | ⟨x, y, rfl, rfl⟩
  · exact heq
  · cases x <;> exact absurd hidx.1 (by decide)

theorem nodup_counted (h : WellFormed t) {ek : Value} (hnew : t.IsNew ek) :
    (t.counted ek).Nodup := by
  have harray : t.arrayKeys.Nodup := List.Nodup.filter _ List.nodup_range'
  have hhash := nodup_intKeys (nodup_hashKeys h)
  have hone := nodup_intKeys (List.nodup_singleton ek)
  have hle : ∀ k ∈ t.arrayKeys, 1 ≤ k ∧ k ≤ t.sizearray := by
    intro k hk
    have := List.mem_range'_1.mp (List.mem_of_mem_filter hk)
    omega
  rw [counted]
  refine List.nodup_append'.mpr ⟨List.nodup_append'.mpr ⟨harray, hhash, ?_⟩, hone, ?_⟩
  · intro k hk hk'
    obtain ⟨key, hkey, hi, _⟩ := mem_intKeys.mp hk'
    obtain ⟨i, _, hv, rfl⟩ := mem_hashKeys.mp hkey
    obtain ⟨k', hk', _, hin⟩ := h.live_of_val hv
    rw [hk'] at hi
    refine hin ?_
    have := hle k hk
    rw [InArray]
    change arrayindex k' = k at hi
    omega
  · intro k hk hk'
    obtain ⟨key, hkey, hi, hpos, _⟩ := mem_intKeys.mp hk'
    cases List.mem_singleton.mp hkey
    rcases List.mem_append.mp hk with hk | hk
    · refine hnew.notInArray ?_
      have := hle k hk
      rw [InArray]
      omega
    · obtain ⟨key, hkey, hj, _⟩ := mem_intKeys.mp hk
      obtain ⟨i, _, hv, rfl⟩ := mem_hashKeys.mp hkey
      obtain ⟨k', hk', _⟩ := h.live_of_val hv
      rw [hk'] at hj
      have hraw : k'.rawEqual ek = true :=
        Value.rawEqual_trans (Value.rawEqual_symm (rawEqual_of_arrayindex hj (by omega)))
          (rawEqual_of_arrayindex hi (by omega))
      simp [hnew.absent i k' hk'] at hraw

theorem upTo_counted (h : WellFormed t) {ek : Value} (hnew : t.IsNew ek) {m : Nat}
    (hm : m ≤ MAXASIZE) : upTo (t.counted ek) m = (t.inUse ek m).card := by
  have hfinset : t.inUse ek m = ((t.counted ek).filter fun k => k ≤ m).toFinset := by
    ext k
    simp only [inUse, Finset.mem_filter, Finset.mem_Icc, List.mem_toFinset, List.mem_filter,
      mem_counted h, decide_eq_true_eq]
    constructor
    · rintro ⟨⟨hpos, hle⟩, huse⟩
      exact ⟨⟨⟨hpos, hle.trans hm⟩, huse⟩, hle⟩
    · rintro ⟨⟨⟨hpos, _⟩, huse⟩, hle⟩
      exact ⟨⟨hpos, hle⟩, huse⟩
  rw [hfinset, List.toFinset_card_of_nodup ((nodup_counted h hnew).filter _), upTo,
    List.countP_eq_length_filter]

/-- The array part that a rehash makes is the largest one, by powers of two, of which more than
half is in use. -/
theorem rehash_sizearray (h : WellFormed t) {ek : Value} (hnew : t.IsNew ek) {t' : Table}
    (hok : t.rehash grow ek = .ok t') :
    (t'.sizearray = 0 ∨ ∃ j, t'.sizearray = 2 ^ j ∧ 2 ^ j / 2 < (t.inUse ek (2 ^ j)).card) ∧
      ∀ j ≤ MAXBITS, 2 ^ j / 2 < (t.inUse ek (2 ^ j)).card → 2 ^ j ≤ t'.sizearray := by
  by_cases hbig : t.Overflows ek
  · cases hok.symm.trans (rehash_overflow h ek hbig)
  obtain ⟨u, hu, _, _, _, hsize, _⟩ := rehash_spec grow h ek hbig
  cases hu.symm.trans hok
  have hfits := computesizes_fits (candidates_counted h ek)
  have hpow : ∀ j ≤ MAXBITS, 2 ^ j ≤ MAXASIZE := fun j hj => Nat.pow_le_pow_right (by decide) hj
  rw [hsize]
  constructor
  · rcases hfits.size with hzero | ⟨j, hj, hbest, hdense⟩
    · exact .inl (congrArg Prod.fst hzero)
    · refine .inr ⟨j, congrArg Prod.fst hbest, ?_⟩
      rwa [← upTo_counted h hnew (hpow j (Nat.le_of_lt_succ hj))]
  · intro j hj hdense
    refine hfits.largest (nodup_counted h hnew) j (Nat.lt_succ_of_le hj) ?_
    rwa [Dense, upTo_counted h hnew (hpow j hj)]

/-- Two indices are in the array part, and the next one comes. -/
theorem rehash_sizearray_new : ∃ log t t', Run Step emptyTable log t ∧
    log.map Prod.snd = sample ∧ t.rehash luaHSet (.number (.ofInt _ 3)) = .ok t' ∧
    ∃ j, t'.sizearray = 2 ^ j ∧ 2 ^ j / 2 < (t.inUse (.number (.ofInt _ 3)) (2 ^ j)).card := by
  obtain ⟨log, t, run, hlog, ht⟩ := exists_run sample
    (fun t => (t.luaHGet (.number (.ofInt _ 3))).isNone &&
      (t.rehash luaHSet (.number (.ofInt _ 3))).toOption.any fun t' => t'.sizearray = 4)
    (by decide +kernel)
  obtain ⟨hget, hok⟩ := (Bool.and_eq_true _ _).mp ht
  have hwf := (run_wellFormed (Nat.zero_le _) (Nat.zero_le _) luaHNew_empty run).1
  have hnew := hwf.isNew (isKey_ofInt _) (Option.isNone_iff_eq_none.mp hget)
  cases hrehash : t.rehash luaHSet (.number (.ofInt _ 3)) with
  | error e =>
    rw [hrehash] at hok
    cases hok
  | ok t' =>
    rw [hrehash] at hok
    have hsize : t'.sizearray = 4 := of_decide_eq_true hok
    refine ⟨log, t, t', run, hlog, hrehash, ?_⟩
    exact (rehash_sizearray hwf hnew hrehash).1.resolve_left (by rw [hsize]; decide)

end Table
end JLua.Tables
