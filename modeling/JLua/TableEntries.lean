import JLua.Tables
import Mathlib.Data.Finset.Card
import Mathlib.Data.Nat.Log
import Mathlib.Tactic.NormNum

/-!
# The entries of a table

In a well-formed table a search from the main position of a key finds its node if there is one.
A new key leaves the table well formed and the entries of all other keys as they are.
-/

namespace JLua

open BinaryFloat Chains
set_option autoImplicit false

namespace Value
variable {k k' k'' : Value}

theorem rawEqual_symm (h : k.rawEqual k' = true) : k'.rawEqual k = true := by
  cases k <;> cases k' <;> simp_all [rawEqual]
  rename_i x y
  cases x <;> cases y <;> simp_all [Number.ieeeEq]

theorem rawEqual_trans (h : k.rawEqual k' = true) (h' : k'.rawEqual k'' = true) :
    k.rawEqual k'' = true := by
  cases k <;> cases k' <;> cases k'' <;> simp_all [rawEqual]
  rename_i x y z
  cases x <;> cases y <;> cases z <;> simp_all [Number.ieeeEq]

theorem rawEqual_right (h : k.rawEqual k' = true) (j : Value) : j.rawEqual k = j.rawEqual k' :=
  Bool.eq_iff_iff.mpr ⟨fun hj => rawEqual_trans hj h, fun hj => rawEqual_trans hj (rawEqual_symm h)⟩

theorem eq_nil_of_rawEqual (h : k.rawEqual .nil = true) : k = .nil := by
  cases k <;> simp_all [rawEqual]

/-- Equal keys that are different values are the two zeros. -/
theorem eq_or_zeros_of_rawEqual (h : k.rawEqual k' = true) :
    k = k' ∨ ∃ a b, k = .number (.zero a) ∧ k' = .number (.zero b) := by
  cases k <;> cases k' <;> simp_all [rawEqual]
  rename_i x y
  cases x <;> cases y <;> simp_all [Number.ieeeEq]

end Value

namespace Tables

/-! ### Keys -/

theorem log_2_eq : ∀ x < 256, log_2.getD x 0 = x.size := by decide +kernel

theorem size_shiftRight {x : Nat} (hx : 256 ≤ x) : (x >>> 8).size + 8 = x.size := by
  have hle : ∀ n, (x >>> 8).size ≤ n ↔ x.size ≤ n + 8 := by
    intro n
    rw [Nat.size_le, Nat.size_le, Nat.shiftRight_eq_div_pow, Nat.div_lt_iff_lt_mul (by decide),
      ← Nat.pow_add]
  have hlt : 8 < x.size := Nat.lt_size.mpr hx
  have hself := (hle (x >>> 8).size).mp le_rfl
  have hback := (hle (x.size - 8)).mpr (by omega)
  omega

theorem log2Loop_eq {rounds x : Nat} {l : Int} (hx : x < 2 ^ (8 * rounds + 8)) :
    log2Loop rounds l x = l + x.size := by
  induction rounds generalizing x l with
  | zero => rw [log2Loop, log_2_eq x hx]
  | succ rounds ih =>
    rw [log2Loop]
    split_ifs with h
    · rw [ih, ← size_shiftRight h]
      · push_cast
        ring
      · rw [Nat.shiftRight_eq_div_pow, Nat.div_lt_iff_lt_mul (by decide), ← Nat.pow_add]
        exact hx
    · rw [log_2_eq x (Nat.lt_of_not_le h)]

theorem ceillog2_le_iff {x i : Nat} (hpos : 0 < x) (hx : x ≤ 2 ^ 32) :
    ceillog2 x ≤ i ↔ x ≤ 2 ^ i := by
  have hlog : luaOLog2 (x - 1) = -1 + (x - 1).size := log2Loop_eq (by omega)
  rw [ceillog2, hlog, neg_add_cancel_comm, Int.toNat_natCast, Nat.size_le]
  omega

theorem lmod_two_pow (s k : Nat) : lmod s (2 ^ k) = s % 2 ^ k :=
  Nat.and_two_pow_sub_one_eq_mod s k

theorem arrayindex_of_rawEqual {k k' : Value} (h : k.rawEqual k' = true) :
    arrayindex k = arrayindex k' := by
  rcases Value.eq_or_zeros_of_rawEqual h with rfl | ⟨a, b, rfl, rfl⟩
  · rfl
  · simp [arrayindex, number2int, Number.toInt, Number.ofInt, Number.ieeeEq]

/-- A key with an index is the number of that index. -/
theorem rawEqual_of_arrayindex {k : Value} {i : Int} (h : arrayindex k = i) (hi : i ≠ -1) :
    (Value.number (.ofInt binary64 i)).rawEqual k = true := by
  cases k with
  | number n =>
    simp only [arrayindex] at h
    split_ifs at h with heq
    · exact h ▸ heq
    · exact absurd h.symm hi
  | _ => exact absurd h.symm hi

theorem exact_of_int {i : Int} (hlo : -2 ^ 31 ≤ i) (hhi : i < 2 ^ 31) :
    Number.Exact binary64 i :=
  Number.exact_of_natAbs_lt (by simp only [binary64]; omega) (by decide) (by decide)

theorem number2int_ofInt {i : Int} (hlo : -2 ^ 31 ≤ i) (hhi : i < 2 ^ 31) :
    number2int (.ofInt _ i) = i :=
  Number.toInt_ofInt (exact_of_int hlo hhi) hlo (by omega)

theorem ofInt_ne_nan (i : Int) : Number.ofInt binary64 i ≠ .nan := by
  rw [Number.ofInt]
  split_ifs
  · simp
  · unfold Number.round Number.pack
    dsimp only
    split_ifs <;> simp

theorem arrayindex_ofInt {i : Int} (hlo : -2 ^ 31 ≤ i) (hhi : i < 2 ^ 31) :
    arrayindex (.number (.ofInt _ i)) = i := by
  simp [arrayindex, number2int_ofInt hlo hhi, (Number.ieeeEq_self_iff _).mpr (ofInt_ne_nan i)]

/-- A key that a table can have. -/
structure IsKey (key : Value) : Prop where
  ne_nil : key ≠ .nil
  ne_nan : key ≠ .number .nan

theorem IsKey.rawEqual_self {key : Value} (h : IsKey key) : key.rawEqual key = true :=
  (Value.rawEqual_self_iff key).mpr h.ne_nan

theorem isKey_ofInt (i : Int) : IsKey (.number (.ofInt _ i)) where
  ne_nil := Value.noConfusion
  ne_nan h := ofInt_ne_nan i (Value.number.inj h)

namespace Table
variable {t t' : Table} {key k k' v : Value} {i j n p mp : Nat}

theorem sizenode_pos (t : Table) : 0 < t.sizenode := Nat.two_pow_pos _

theorem hashpow2_lt (t : Table) (n : Nat) : t.hashpow2 n < t.sizenode := by
  rw [hashpow2, sizenode, lmod_two_pow]
  exact Nat.mod_lt _ (Nat.two_pow_pos _)

theorem hashmod_lt (t : Table) (n : Nat) : t.hashmod n < t.sizenode := by
  have hpos := t.sizenode_pos
  have hmod : t.hashmod n < (t.sizenode - 1) ||| 1 := Nat.mod_lt _ (by
    have := @Nat.right_le_or (t.sizenode - 1) 1
    omega)
  rcases Nat.eq_zero_or_pos t.lsizenode with h0 | hk
  · simpa [sizenode, h0] using hmod
  · have hodd : (t.sizenode - 1) ||| 1 = t.sizenode - 1 := by
      have heven : t.sizenode % 2 = 0 := by
        rw [sizenode]
        exact Nat.mod_eq_zero_of_dvd (dvd_pow_self 2 hk.ne')
      apply Nat.eq_of_testBit_eq
      intro b
      cases b with
      | zero =>
        simp only [Nat.testBit_zero]
        simp
        omega
      | succ b =>
        have hbit : Nat.testBit 1 (b + 1) = false := by simp [Nat.testBit_succ]
        rw [Nat.testBit_or, hbit, Bool.or_false]
    omega

theorem mainposition_lt (t : Table) (key : Value) : t.mainposition key < t.sizenode := by
  cases key with
  | number n =>
    rw [mainposition, hashnum]
    split_ifs
    · exact t.sizenode_pos
    · exact t.hashmod_lt _
  | string s => exact t.hashpow2_lt _
  | boolean b => exact t.hashpow2_lt _
  | _ => exact t.hashmod_lt _

theorem mainposition_of_rawEqual (h : k.rawEqual k' = true) :
    t.mainposition k = t.mainposition k' := by
  rcases Value.eq_or_zeros_of_rawEqual h with rfl | ⟨a, b, rfl, rfl⟩
  · rfl
  · simp [mainposition, hashnum, Number.ieeeEq]

theorem mainposition_congr (h : t'.lsizenode = t.lsizenode) :
    t'.mainposition = t.mainposition := by
  funext key
  cases key <;> simp [mainposition, hashnum, hashpow2, hashmod, sizenode, h]

/-! ### Well-formed tables -/

/-- The key lives in the array part. -/
def InArray (t : Table) (key : Value) : Prop := 1 ≤ arrayindex key ∧ arrayindex key ≤ t.sizearray

instance (t : Table) (key : Value) : Decidable (t.InArray key) := by
  unfold InArray
  infer_instance

/-- The node `p` has a key, which is in its main position. -/
def AtHome (t : Table) (p : Nat) : Prop :=
  (t.node p).key.value ≠ .nil ∧ t.mainposition (t.node p).key.value = p

/-- Every chain of nodes starts at the main position of its keys, and a key that is not in its
main position is kept out of there by a key that is. A live key comes before the same key where
it is dead. -/
structure WellFormed (t : Table) : Prop where
  dummy : t.isDummy = true → t.lsizenode = 0 ∧ t.node 0 = emptyNode
  bits : t.lsizenode ≤ MAXBITS
  array_fits : t.sizearray ≤ MAXASIZE
  outside : ∀ i, t.sizenode ≤ i → t.node i = emptyNode
  linear : Linear t.next
  ends : Ends t.next
  bounded : ∀ i j, t.next i = some j → j < t.sizenode
  blank : ∀ i, (t.node i).key = .live .nil → (t.node i).val = .nil ∧ Outside t.next i
  placed : ∀ i, (t.node i).key.value ≠ .nil → Leads t.next (t.mainposition (t.node i).key.value) i
  home : ∀ i, (t.node i).key.value ≠ .nil → t.AtHome (t.mainposition (t.node i).key.value)
  live : ∀ i, (t.node i).val ≠ .nil → ∃ k, (t.node i).key = .live k
  isKey : ∀ i k, (t.node i).key = .live k → k ≠ .nil → IsKey k ∧ ¬ t.InArray k
  distinct : ∀ i j k k', (t.node i).key = .live k → (t.node j).key = .live k' → k ≠ .nil →
    k.rawEqual k' = true → i = j
  dead : ∀ i k, (t.node i).key = .dead k → iscollectable k = true
  ordered : ∀ i j k, (t.node i).key = .live k → (t.node j).key = .dead k → Leads t.next i j

/-- All nodes from `lastfree` on have been used. -/
structure FreeBelow (t : Table) : Prop where
  le : t.lastfree ≤ t.sizenode
  used : ∀ i, t.lastfree ≤ i → i < t.sizenode → t.isDummy = false → (t.node i).key ≠ .live .nil
  dummy : t.isDummy = true → t.lastfree = 0

section Search

theorem WellFormed.chain_eq (h : WellFormed t) (hp : p < t.sizenode) :
    Chain t.next p (t.chain p) := by
  obtain ⟨l, hl⟩ := h.ends p
  have hlt : ∀ j ∈ l, j < t.sizenode :=
    fun j hj => (hl.mem_iff.mp hj).lt_of_next hp h.bounded
  rw [chain, hl.walk_of_lt hlt]
  exact hl

theorem search_congr (h : k.rawEqual k' = true) (p : Nat) : t.search k p = t.search k' p := by
  have hsame : ∀ c : TKey, c.rawequalObj k = c.rawequalObj k' := by
    intro c
    cases c with
    | live j => exact Value.rawEqual_right h j
    | dead j => rfl
  simp only [search, hsame]

theorem rawequalObj_iff {c : TKey} : c.rawequalObj key = true ↔
    ∃ k, c = .live k ∧ k.rawEqual key = true := by
  cases c <;> simp [TKey.rawequalObj]

theorem WellFormed.search_eq_some (h : WellFormed t) (hkey : key ≠ .nil)
    (hnode : (t.node i).key = .live k) (hk : k.rawEqual key = true) :
    t.search key (t.mainposition key) = some (.node i) := by
  have hne : k ≠ .nil := by
    rintro rfl
    exact hkey (Value.eq_nil_of_rawEqual (Value.rawEqual_symm hk))
  have hleads : Leads t.next (t.mainposition key) i := by
    have hplaced := h.placed i (by rwa [hnode])
    rwa [hnode, TKey.value, mainposition_of_rawEqual hk] at hplaced
  have hmem := (h.chain_eq (t.mainposition_lt key)).mem_iff.mpr hleads
  have hself : (t.node i).key.rawequalObj key = true := rawequalObj_iff.mpr ⟨k, hnode, hk⟩
  cases hfind : (t.chain (t.mainposition key)).find? fun n => (t.node n).key.rawequalObj key with
  | none => simp [List.find?_eq_none.mp hfind i hmem] at hself
  | some j =>
    obtain ⟨k', hj, hk'⟩ := rawequalObj_iff.mp
      (List.find?_some (p := fun n => (t.node n).key.rawequalObj key) hfind)
    have hij : i = j :=
      h.distinct i j k k' hnode hj hne (Value.rawEqual_trans hk (Value.rawEqual_symm hk'))
    simp [search, hfind, hij]

theorem search_some (h : t.search key p = some (.node i)) :
    ∃ k, (t.node i).key = .live k ∧ k.rawEqual key = true := by
  obtain ⟨j, hfind, hj⟩ := Option.map_eq_some_iff.mp h
  cases hj
  exact rawequalObj_iff.mp (List.find?_some (p := fun n => (t.node n).key.rawequalObj key) hfind)

theorem exists_node_of_search {s : Slot} (h : t.search key p = some s) : ∃ i, s = .node i := by
  obtain ⟨j, _, hj⟩ := Option.map_eq_some_iff.mp h
  exact ⟨j, hj.symm⟩

/-- A key has at most one place to be found in. -/
theorem luaHGet_eq (hkey : key ≠ .nil) :
    t.luaHGet key = if t.InArray key then some (.array (arrayindex key - 1).toNat)
      else t.search key (t.mainposition key) := by
  cases key with
  | nil => exact absurd rfl hkey
  | string s => simp [luaHGet, luaHGetstr, InArray, arrayindex, mainposition]
  | number n =>
    simp only [luaHGet]
    split_ifs with hint hin hin
    · have hindex : arrayindex (.number n) = number2int n := if_pos hint
      rw [luaHGetnum, if_pos (hindex ▸ hin), hindex]
    · have hindex : arrayindex (.number n) = number2int n := if_pos hint
      rw [luaHGetnum, if_neg (hindex ▸ hin)]
      have hraw : (Value.number (.ofInt binary64 (number2int n))).rawEqual (.number n) = true :=
        hint
      exact (search_congr hraw _).trans (by rw [← mainposition_of_rawEqual hraw, mainposition])
    · have hindex : arrayindex (.number n) = -1 := if_neg hint
      simp [InArray, hindex] at hin
    · rfl
  | _ => simp [luaHGet, InArray, arrayindex]

theorem luaHGetnum_eq {i : Int} (hlo : -2 ^ 31 ≤ i) (hhi : i < 2 ^ 31) :
    t.luaHGetnum i = t.luaHGet (.number (.ofInt _ i)) := by
  have hself := (Number.ieeeEq_self_iff _).mpr (ofInt_ne_nan i)
  simp only [luaHGet, number2int_ofInt hlo hhi, hself, if_true]

/-- The value is in the node of the key. -/
def Entry (t : Table) (key v : Value) : Prop :=
  v ≠ .nil ∧ ∃ i k, (t.node i).key = .live k ∧ k.rawEqual key = true ∧ (t.node i).val = v

theorem get_nil (t : Table) : t.get .nil = .nil := rfl

theorem InArray.ne_nil (h : t.InArray key) : key ≠ .nil := by
  rintro rfl
  exact absurd h.1 (by decide)

theorem get_of_inArray (h : t.InArray key) : t.get key = t.array (arrayindex key - 1).toNat := by
  rw [get, luaHGet_eq h.ne_nil, if_pos h]
  rfl

theorem WellFormed.get_eq_iff (h : WellFormed t) (hkey : key ≠ .nil) (hin : ¬ t.InArray key)
    (hv : v ≠ .nil) : t.get key = v ↔ t.Entry key v := by
  rw [get, luaHGet_eq hkey, if_neg hin]
  constructor
  · intro hget
    cases hs : t.search key (t.mainposition key) with
    | none => exact absurd (by simpa [hs] using hget.symm) hv
    | some s =>
      obtain ⟨i, rfl⟩ := exists_node_of_search hs
      obtain ⟨k, hk, hraw⟩ := search_some hs
      exact ⟨hv, i, k, hk, hraw, by simpa [hs, read] using hget⟩
  · rintro ⟨_, i, k, hk, hraw, hval⟩
    rw [h.search_eq_some hkey hk hraw]
    exact hval

theorem WellFormed.get_congr (h : WellFormed t) (h' : WellFormed t') (hkey : key ≠ .nil)
    (hin : ¬ t.InArray key) (hin' : ¬ t'.InArray key)
    (hentry : ∀ v, t'.Entry key v ↔ t.Entry key v) : t'.get key = t.get key := by
  by_cases hnil : t.get key = .nil
  · by_contra hne
    have hne' : t'.get key ≠ .nil := hnil ▸ hne
    have := (h.get_eq_iff hkey hin hne').mpr ((hentry _).mp ((h'.get_eq_iff hkey hin' hne').mp rfl))
    exact hne this.symm
  · exact (h'.get_eq_iff hkey hin' hnil).mpr ((hentry _).mpr ((h.get_eq_iff hkey hin hnil).mp rfl))

end Search

/-! ### Writing to a slot -/

section Write

@[simp] theorem lsizenode_write (t : Table) (v : Value) (s : Slot) :
    (t.write v s).lsizenode = t.lsizenode := by cases s <;> rfl

@[simp] theorem sizenode_write (t : Table) (v : Value) (s : Slot) :
    (t.write v s).sizenode = t.sizenode := by cases s <;> rfl

@[simp] theorem sizearray_write (t : Table) (v : Value) (s : Slot) :
    (t.write v s).sizearray = t.sizearray := by cases s <;> rfl

@[simp] theorem isDummy_write (t : Table) (v : Value) (s : Slot) :
    (t.write v s).isDummy = t.isDummy := by cases s <;> rfl

@[simp] theorem lastfree_write (t : Table) (v : Value) (s : Slot) :
    (t.write v s).lastfree = t.lastfree := by cases s <;> rfl

@[simp] theorem key_write (t : Table) (v : Value) (s : Slot) (i : Nat) :
    ((t.write v s).node i).key = (t.node i).key := by
  cases s with
  | array j => rfl
  | node j =>
    simp only [write]
    by_cases hij : i = j <;> simp [hij]

@[simp] theorem next_write (t : Table) (v : Value) (s : Slot) : (t.write v s).next = t.next := by
  funext i
  cases s with
  | array j => rfl
  | node j =>
    simp only [write, next]
    by_cases hij : i = j <;> simp [hij]

@[simp] theorem mainposition_write (t : Table) (v : Value) (s : Slot) :
    (t.write v s).mainposition = t.mainposition := mainposition_congr (lsizenode_write t v s)

theorem inArray_write (t : Table) (v : Value) (s : Slot) (key : Value) :
    (t.write v s).InArray key ↔ t.InArray key := by simp [InArray]

theorem val_write (t : Table) (v : Value) (s : Slot) (i : Nat) :
    ((t.write v s).node i).val = if s = .node i then v else (t.node i).val := by
  cases s with
  | array j => simp [write]
  | node j =>
    simp only [write, Slot.node.injEq]
    by_cases hij : j = i
    · simp [hij]
    · simp [hij, Ne.symm hij]

theorem array_write (t : Table) (v : Value) (s : Slot) (i : Nat) :
    (t.write v s).array i = if s = .array i then v else t.array i := by
  cases s with
  | array j =>
    simp only [write, Slot.array.injEq]
    by_cases hij : j = i
    · simp [hij]
    · simp [hij, Ne.symm hij]
  | node j => simp [write]

/-- The slot of a key that is not in the array part is the node of that key. -/
theorem luaHGet_node (hkey : key ≠ .nil) (hs : t.luaHGet key = some (.node i)) :
    ¬ t.InArray key ∧ ∃ k, (t.node i).key = .live k ∧ k.rawEqual key = true := by
  rw [luaHGet_eq hkey] at hs
  split_ifs at hs with hin
  · cases Option.some.inj hs
  · exact ⟨hin, search_some hs⟩

theorem luaHGet_array (hkey : key ≠ .nil) (hs : t.luaHGet key = some (.array i)) :
    t.InArray key ∧ i = (arrayindex key - 1).toNat := by
  rw [luaHGet_eq hkey] at hs
  split_ifs at hs with hin
  · exact ⟨hin, (Slot.array.inj (Option.some.inj hs)).symm⟩
  · obtain ⟨j, hj⟩ := exists_node_of_search hs
    exact absurd hj (by simp)

theorem WellFormed.write {s : Slot} (h : WellFormed t) (hkey : key ≠ .nil)
    (hs : t.luaHGet key = some s) (v : Value) : WellFormed (t.write v s) := by
  have hlive : ∀ i, s = .node i → ∃ k, (t.node i).key = .live k ∧ k ≠ .nil := by
    rintro i rfl
    obtain ⟨_, k, hk, hraw⟩ := luaHGet_node hkey hs
    refine ⟨k, hk, ?_⟩
    rintro rfl
    exact hkey (Value.eq_nil_of_rawEqual (Value.rawEqual_symm hraw))
  have hblank : ∀ i, (t.node i).key = .live .nil → s ≠ .node i := by
    intro i hi hsi
    obtain ⟨k, hk, hne⟩ := hlive i hsi
    exact hne (TKey.live.inj (hk.symm.trans hi))
  have hempty : ∀ i, t.node i = emptyNode → (t.write v s).node i = emptyNode := by
    intro i hi
    have hne := hblank i (by rw [hi]; rfl)
    cases s with
    | array j => exact hi
    | node j =>
      have hij : i ≠ j := fun heq => hne (heq ▸ rfl)
      simp [Table.write, hij, hi]
  constructor
  · intro hd
    rw [isDummy_write] at hd
    exact ⟨(lsizenode_write ..).trans (h.dummy hd).1, hempty 0 (h.dummy hd).2⟩
  · simpa using h.bits
  · simpa using h.array_fits
  · intro i hi
    exact hempty i (h.outside i (by simpa using hi))
  · simpa using h.linear
  · simpa using h.ends
  · simpa using h.bounded
  · intro i hi
    rw [key_write] at hi
    rw [val_write, if_neg (hblank i hi), next_write]
    exact h.blank i hi
  · simpa using h.placed
  · simpa [AtHome] using h.home
  · intro i hi
    rw [val_write] at hi
    rw [key_write]
    split_ifs at hi with hsi
    · obtain ⟨k, hk, _⟩ := hlive i hsi
      exact ⟨k, hk⟩
    · exact h.live i hi
  · intro i k hk hne
    rw [key_write] at hk
    exact ⟨(h.isKey i k hk hne).1, fun hin => (h.isKey i k hk hne).2 ((inArray_write ..).mp hin)⟩
  · simpa using h.distinct
  · simpa using h.dead
  · simpa using h.ordered

theorem FreeBelow.write (h : FreeBelow t) (v : Value) (s : Slot) : FreeBelow (t.write v s) where
  le := by simpa using h.le
  used := by simpa using h.used
  dummy := by simpa using h.dummy

theorem luaHGet_write (t : Table) (v : Value) (s : Slot) (key : Value) :
    (t.write v s).luaHGet key = t.luaHGet key := by
  by_cases hkey : key = .nil
  · subst hkey
    rfl
  · have hsearch : (t.write v s).search key (t.mainposition key) =
        t.search key (t.mainposition key) := by simp [search, chain]
    simp only [luaHGet_eq hkey, inArray_write, mainposition_write, hsearch]

/-- Keys share a slot when they are equal. -/
theorem luaHGet_eq_some_iff {s : Slot} (hkey : IsKey key)
    (hs : t.luaHGet key = some s) (j : Value) :
    t.luaHGet j = some s ↔ key.rawEqual j = true := by
  constructor
  · intro hj
    have hjnil : j ≠ .nil := by
      rintro rfl
      cases hj
    cases s with
    | array i =>
      obtain ⟨hin, hi⟩ := luaHGet_array hkey.ne_nil hs
      obtain ⟨hjin, hji⟩ := luaHGet_array hjnil hj
      have hidx : arrayindex key = arrayindex j := by
        have := hin.1
        have := hjin.1
        omega
      have hneg : arrayindex j ≠ -1 := by
        have := hjin.1
        omega
      exact Value.rawEqual_trans (Value.rawEqual_symm (rawEqual_of_arrayindex hidx hneg))
        (rawEqual_of_arrayindex rfl hneg)
    | node i =>
      obtain ⟨_, k, hk, hraw⟩ := luaHGet_node hkey.ne_nil hs
      obtain ⟨_, k', hk', hraw'⟩ := luaHGet_node hjnil hj
      cases hk.symm.trans hk'
      exact Value.rawEqual_trans (Value.rawEqual_symm hraw) hraw'
  · intro hraw
    have hjnil : j ≠ .nil := by
      rintro rfl
      exact hkey.ne_nil (Value.eq_nil_of_rawEqual hraw)
    have hin : t.InArray key ↔ t.InArray j := by rw [InArray, InArray, arrayindex_of_rawEqual hraw]
    rw [luaHGet_eq hkey.ne_nil] at hs
    rw [luaHGet_eq hjnil, ← hs, ← arrayindex_of_rawEqual hraw, ← mainposition_of_rawEqual hraw,
      search_congr hraw]
    simp only [hin]

/-- A write changes the value under its key, and no other one. -/
theorem get_write {s : Slot} (hkey : IsKey key)
    (hs : t.luaHGet key = some s) (v j : Value) :
    (t.write v s).get j = if key.rawEqual j = true then v else t.get j := by
  rw [get, luaHGet_write]
  split_ifs with hraw
  · rw [(luaHGet_eq_some_iff hkey hs j).mpr hraw]
    cases s <;> simp [read, Table.write]
  · have hne : t.luaHGet j ≠ some s := fun hj => hraw ((luaHGet_eq_some_iff hkey hs j).mp hj)
    rw [get]
    cases hj : t.luaHGet j with
    | none => rfl
    | some r =>
      have hrs : s ≠ r := fun heq => hne (heq ▸ hj)
      cases r with
      | array i => exact (array_write ..).trans (if_neg hrs)
      | node i => exact (val_write ..).trans (if_neg hrs)

end Write

/-! ### Nodes for new keys -/

section Nodes

theorem key_setKey (t : Table) (i j : Nat) (key : Value) :
    ((t.setKey i key).node j).key = if j = i then .live key else (t.node j).key := by
  by_cases hji : j = i <;> simp [setKey, hji]

theorem val_setKey (t : Table) (i j : Nat) (key : Value) :
    ((t.setKey i key).node j).val = (t.node j).val := by
  by_cases hji : j = i <;> simp [setKey, hji]

theorem next_setKey (t : Table) (i : Nat) (key : Value) : (t.setKey i key).next = t.next := by
  funext j
  by_cases hji : j = i <;> simp [setKey, next, hji]

theorem key_setNext (t : Table) (i j : Nat) (n : Option Nat) :
    ((t.setNext i n).node j).key = (t.node j).key := by
  by_cases hji : j = i <;> simp [setNext, hji]

theorem val_setNext (t : Table) (i j : Nat) (n : Option Nat) :
    ((t.setNext i n).node j).val = (t.node j).val := by
  by_cases hji : j = i <;> simp [setNext, hji]

theorem next_setNext (t : Table) (i : Nat) (n : Option Nat) :
    (t.setNext i n).next = Function.update t.next i n := by
  funext j
  by_cases hji : j = i <;> simp [setNext, next, hji]

theorem next_setNode (t : Table) (i : Nat) (m : Node) :
    (t.setNode i m).next = Function.update t.next i m.next := by
  funext j
  by_cases hji : j = i <;> simp [setNode, next, hji]

/-- The node `mp`, which comes after `prev`, moves to `n`. -/
def vacate (t : Table) (prev mp n : Nat) : Table :=
  ((t.setNext prev n).setNode n (t.node mp)).setNode mp emptyNode

/-- The node `n` comes after `mp` with a new key. -/
def append (t : Table) (mp n : Nat) (key : Value) : Table :=
  ((t.setNext n (t.next mp)).setNext mp n).setKey n key

variable {prev : Nat}

theorem next_vacate : (t.vacate prev mp n).next = replace t.next prev mp n := by
  rw [vacate, next_setNode, next_setNode, next_setNext]
  rfl

theorem key_vacate : ((t.vacate prev mp n).node i).key =
    if i = mp then .live .nil else if i = n then (t.node mp).key else (t.node i).key := by
  simp only [vacate, setNode]
  split_ifs with him hin
  · simp [him, emptyNode]
  · subst hin
    simp [him]
  · simpa [him, hin] using key_setNext t prev i n

theorem val_vacate : ((t.vacate prev mp n).node i).val =
    if i = mp then .nil else if i = n then (t.node mp).val else (t.node i).val := by
  simp only [vacate, setNode]
  split_ifs with him hin
  · simp [him, emptyNode]
  · subst hin
    simp [him]
  · simpa [him, hin] using val_setNext t prev i n

theorem next_append : (t.append mp n key).next = insertAfter t.next mp n := by
  rw [append, next_setKey, next_setNext, next_setNext]
  rfl

theorem key_append : ((t.append mp n key).node i).key =
    if i = n then .live key else (t.node i).key := by
  rw [append, key_setKey, key_setNext, key_setNext]

theorem val_append : ((t.append mp n key).node i).val = (t.node i).val := by
  rw [append, val_setKey, val_setNext, val_setNext]

/-- No node has the key yet, and it is none for the array part. -/
structure IsNew (t : Table) (key : Value) : Prop where
  isKey : IsKey key
  notInArray : ¬ t.InArray key
  absent : ∀ i k, (t.node i).key = .live k → k.rawEqual key = false

theorem IsNew.symm_absent (h : t.IsNew key) {i : Nat} {k : Value} (hk : (t.node i).key = .live k) :
    key.rawEqual k = false := by
  by_contra hne
  have hraw := Value.rawEqual_symm (Bool.eq_true_of_not_eq_false hne)
  simp [h.absent i k hk] at hraw

/-- A node of the vector without a key. -/
structure IsFree (t : Table) (n : Nat) : Prop where
  lt : n < t.sizenode
  key : (t.node n).key = .live .nil
  notDummy : t.isDummy = false

theorem WellFormed.lt_sizenode (h : WellFormed t) (hi : (t.node i).key ≠ .live .nil) :
    i < t.sizenode := by
  by_contra hge
  exact hi (by rw [h.outside i (Nat.le_of_not_lt hge)]; rfl)

theorem WellFormed.value_ne_nil (h : WellFormed t) (hi : (t.node i).key ≠ .live .nil) :
    (t.node i).key.value ≠ .nil := by
  cases hk : (t.node i).key with
  | live k =>
    rintro rfl
    exact hi hk
  | dead k =>
    rintro rfl
    exact absurd (h.dead i .nil hk) (by decide)

/-- A new key goes to its main position. -/
theorem WellFormed.setKey (h : WellFormed t) (hnew : t.IsNew key) (hd : t.isDummy = false) :
    WellFormed (t.setKey (t.mainposition key) key) := by
  set mp := t.mainposition key with hmp
  have hmain : (t.setKey mp key).mainposition = t.mainposition := mainposition_congr rfl
  have hlt : mp < t.sizenode := t.mainposition_lt key
  constructor
  · exact fun hd' => absurd (hd.symm.trans hd') (by decide)
  · exact h.bits
  · exact h.array_fits
  · intro i hi
    have hne : i ≠ mp := by
      rintro rfl
      exact absurd hlt (Nat.not_lt.mpr hi)
    simpa [Table.setKey, hne] using h.outside i hi
  · rw [next_setKey]
    exact h.linear
  · rw [next_setKey]
    exact h.ends
  · rw [next_setKey]
    exact h.bounded
  · intro i hi
    rw [key_setKey] at hi
    split_ifs at hi with him
    · exact absurd (TKey.live.inj hi) hnew.isKey.ne_nil
    · rw [val_setKey, next_setKey]
      exact h.blank i hi
  · intro i hi
    rw [key_setKey] at hi ⊢
    rw [hmain, next_setKey]
    split_ifs at hi ⊢ with him
    · exact him ▸ .refl
    · exact h.placed i hi
  · have hhome : ∀ p, p = mp ∨ t.AtHome p → (t.setKey mp key).AtHome p := by
      intro p hp
      rw [AtHome, hmain, key_setKey]
      split_ifs with hpm
      · exact ⟨hnew.isKey.ne_nil, hpm.symm⟩
      · exact hp.resolve_left hpm
    intro i hi
    rw [hmain]
    apply hhome
    rw [key_setKey] at hi ⊢
    split_ifs at hi ⊢ with him
    · exact .inl rfl
    · exact .inr (h.home i hi)
  · intro i hi
    rw [val_setKey] at hi
    rw [key_setKey]
    split_ifs with him
    · exact ⟨key, rfl⟩
    · exact h.live i hi
  · intro i k hk hne
    rw [key_setKey] at hk
    split_ifs at hk with him
    · cases hk
      exact ⟨hnew.isKey, hnew.notInArray⟩
    · exact h.isKey i k hk hne
  · intro i j k k' hk hk' hne hraw
    rw [key_setKey] at hk hk'
    split_ifs at hk hk' with him hjm hjm
    · exact him.trans hjm.symm
    · cases hk
      exact absurd hraw (by simp [hnew.symm_absent hk'])
    · cases hk'
      exact absurd hraw (by simp [hnew.absent i k hk])
    · exact h.distinct i j k k' hk hk' hne hraw
  · intro i k hk
    rw [key_setKey] at hk
    split_ifs at hk
    exact h.dead i k hk
  · intro i j k hk hk'
    rw [key_setKey] at hk hk'
    rw [next_setKey]
    split_ifs at hk hk' with him hjm
    · cases hk
      have hplaced := h.placed j (by rw [hk']; exact hnew.isKey.ne_nil)
      rwa [hk', TKey.value, ← hmp, ← him] at hplaced
    · exact h.ordered i j k hk hk'

/-- What is known when a node is to move to a free one. -/
structure Movable (t : Table) (prev mp n : Nat) : Prop where
  wellFormed : WellFormed t
  prev : t.next prev = some mp
  away : t.mainposition (t.node mp).key.value ≠ mp
  val : (t.node mp).val ≠ .nil
  free : t.IsFree n

namespace Movable
variable (h : Movable t prev mp n)
include h

theorem ne : mp ≠ n := by
  rintro rfl
  exact h.val (h.wellFormed.blank mp h.free.key).1

theorem replaceable : Replaceable t.next prev mp n where
  linear := h.wellFormed.linear
  ends := h.wellFormed.ends
  prev := h.prev
  outside := (h.wellFormed.blank n h.free.key).2
  ne := h.ne

theorem key_ne_nil : (t.node mp).key.value ≠ .nil := by
  refine h.wellFormed.value_ne_nil fun hk => ?_
  exact h.val (h.wellFormed.blank mp hk).1

/-- No other key has its main position there: it would be kept out by the key of the node. -/
theorem atHome_ne {p : Nat} (hp : t.AtHome p) : p ≠ mp ∧ p ≠ n := by
  constructor
  · rintro rfl
    exact h.away hp.2
  · rintro rfl
    exact hp.1 (by rw [h.free.key]; rfl)

theorem atHome_vacate {p : Nat} (hp : t.AtHome p) : (t.vacate prev mp n).AtHome p := by
  obtain ⟨hpm, hpn⟩ := h.atHome_ne hp
  have hmain : (t.vacate prev mp n).mainposition = t.mainposition := mainposition_congr rfl
  rw [AtHome, hmain, key_vacate, if_neg hpm, if_neg hpn]
  exact hp

theorem vacate_wellFormed : WellFormed (t.vacate prev mp n) := by
  have hmain : (t.vacate prev mp n).mainposition = t.mainposition := mainposition_congr rfl
  have hmlt : mp < t.sizenode := h.wellFormed.bounded prev mp h.prev
  have hplt : prev < t.sizenode := by
    refine h.wellFormed.lt_sizenode fun hk => ?_
    exact absurd h.prev (by simp [(h.wellFormed.blank prev hk).2.last])
  constructor
  · exact fun hd => absurd (h.free.notDummy.symm.trans hd) (by decide)
  · exact h.wellFormed.bits
  · exact h.wellFormed.array_fits
  · intro i hi
    have hin : i ≠ n := fun heq => absurd (heq ▸ h.free.lt) (Nat.not_lt.mpr hi)
    have him : i ≠ mp := fun heq => absurd (heq ▸ hmlt) (Nat.not_lt.mpr hi)
    have hip : i ≠ prev := fun heq => absurd (heq ▸ hplt) (Nat.not_lt.mpr hi)
    simpa [vacate, setNode, setNext, him, hin, hip] using h.wellFormed.outside i hi
  · exact next_vacate ▸ h.replaceable.linear_replace
  · exact next_vacate ▸ h.replaceable.ends_replace
  · intro i j hij
    rw [next_vacate] at hij
    rcases h.replaceable.next_cases hij with ⟨_, rfl⟩ | ⟨_, hj⟩ | ⟨_, _, _, hj⟩
    · exact h.free.lt
    · exact h.wellFormed.bounded _ j hj
    · exact h.wellFormed.bounded _ j hj
  · intro i hi
    rw [key_vacate] at hi
    rw [val_vacate, next_vacate]
    split_ifs at hi ⊢ with him hin
    · exact ⟨rfl, him ▸ h.replaceable.outside_old⟩
    · exact absurd (congrArg TKey.value hi) h.key_ne_nil
    · obtain ⟨hval, hout⟩ := h.wellFormed.blank i hi
      have hip : i ≠ prev := by
        rintro rfl
        exact absurd h.prev (by simp [hout.last])
      refine ⟨hval, (replace_of_ne hip him hin).trans hout.last, fun j hj => ?_⟩
      rcases h.replaceable.next_cases hj with ⟨_, heq⟩ | ⟨_, hm⟩ | ⟨_, _, _, hj⟩
      · exact hin heq
      · exact hout.first mp hm
      · exact hout.first j hj
  · intro i hi
    rw [key_vacate] at hi ⊢
    rw [hmain, next_vacate]
    split_ifs at hi ⊢ with him hin
    · exact absurd rfl hi
    · have hleads := h.replaceable.leads (h.wellFormed.placed mp hi) h.away
      rw [if_pos rfl] at hleads
      exact hin ▸ hleads
    · have hpm := (h.atHome_ne (h.wellFormed.home i hi)).1
      have hleads := h.replaceable.leads (h.wellFormed.placed i hi) hpm
      rwa [if_neg him] at hleads
  · intro i hi
    rw [hmain]
    apply h.atHome_vacate
    rw [key_vacate] at hi ⊢
    split_ifs at hi ⊢ with him hin
    · exact absurd rfl hi
    · exact h.wellFormed.home mp hi
    · exact h.wellFormed.home i hi
  · intro i hi
    rw [val_vacate] at hi
    rw [key_vacate]
    split_ifs at hi ⊢ with him hin
    · exact absurd rfl hi
    · exact h.wellFormed.live mp hi
    · exact h.wellFormed.live i hi
  · intro i k hk hne
    rw [key_vacate] at hk
    split_ifs at hk with him hin
    · exact absurd (TKey.live.inj hk).symm hne
    · exact h.wellFormed.isKey mp k hk hne
    · exact h.wellFormed.isKey i k hk hne
  · intro i j k k' hk hk' hne hraw
    have hne' : k' ≠ .nil := by
      rintro rfl
      exact hne (Value.eq_nil_of_rawEqual hraw)
    rw [key_vacate] at hk hk'
    split_ifs at hk hk' with him hjm hjn hin hjm hjn hjm hjn
    · exact him.trans hjm.symm
    · exact absurd (TKey.live.inj hk).symm hne
    · exact absurd (TKey.live.inj hk).symm hne
    · exact absurd (TKey.live.inj hk').symm hne'
    · exact hin.trans hjn.symm
    · exact absurd (h.wellFormed.distinct mp j k k' hk hk' hne hraw).symm hjm
    · exact absurd (TKey.live.inj hk').symm hne'
    · exact absurd (h.wellFormed.distinct i mp k k' hk hk' hne hraw) him
    · exact h.wellFormed.distinct i j k k' hk hk' hne hraw
  · intro i k hk
    rw [key_vacate] at hk
    split_ifs at hk with him hin
    · exact h.wellFormed.dead mp k hk
    · exact h.wellFormed.dead i k hk
  · intro i j k hk hk'
    obtain ⟨k₁, hlive⟩ := h.wellFormed.live mp h.val
    rw [key_vacate] at hk hk'
    rw [next_vacate]
    have hj : j ≠ mp ∧ (t.node j).key = .dead k := by
      split_ifs at hk' with hjm hjn
      · simp [hlive] at hk'
      · exact ⟨hjm, hk'⟩
    split_ifs at hk with him hin
    · cases hk
      exact absurd (h.wellFormed.dead j .nil hj.2) (by decide)
    · exact hin ▸ h.replaceable.leads_new (h.wellFormed.ordered mp j k hk hj.2) hj.1
    · have hleads := h.replaceable.leads (h.wellFormed.ordered i j k hk hj.2) him
      rwa [if_neg hj.1] at hleads

/-- No key with a value is lost, and none is found twice. -/
theorem entry_vacate (key v : Value) : (t.vacate prev mp n).Entry key v ↔ t.Entry key v := by
  constructor
  · rintro ⟨hv, i, k, hk, hraw, hval⟩
    rw [key_vacate] at hk
    rw [val_vacate] at hval
    split_ifs at hk hval with him hin
    · exact absurd hval.symm hv
    · exact ⟨hv, mp, k, hk, hraw, hval⟩
    · exact ⟨hv, i, k, hk, hraw, hval⟩
  · rintro ⟨hv, i, k, hk, hraw, hval⟩
    by_cases him : i = mp
    · subst i
      refine ⟨hv, n, k, ?_, hraw, ?_⟩
      · rwa [key_vacate, if_neg h.ne.symm, if_pos rfl]
      · rwa [val_vacate, if_neg h.ne.symm, if_pos rfl]
    · have hin : i ≠ n := by
        rintro rfl
        exact hv (hval ▸ (h.wellFormed.blank i h.free.key).1)
      refine ⟨hv, i, k, ?_, hraw, ?_⟩
      · rwa [key_vacate, if_neg him, if_neg hin]
      · rwa [val_vacate, if_neg him, if_neg hin]

end Movable

/-- A new key whose main position is taken by a key that belongs there. -/
structure Appendable (t : Table) (n : Nat) (key : Value) : Prop where
  wellFormed : WellFormed t
  isNew : t.IsNew key
  taken : t.AtHome (t.mainposition key)
  live : ∃ k, (t.node (t.mainposition key)).key = .live k
  free : t.IsFree n

namespace Appendable
variable (h : Appendable t n key)
include h

theorem ne : t.mainposition key ≠ n := by
  intro heq
  exact h.taken.1 (by rw [heq, h.free.key]; rfl)

theorem outside : Outside t.next n := (h.wellFormed.blank n h.free.key).2

theorem append_wellFormed : WellFormed (t.append (t.mainposition key) n key) := by
  set mp := t.mainposition key with hmp
  have hmain : (t.append mp n key).mainposition = t.mainposition := mainposition_congr rfl
  have hmlt : mp < t.sizenode := t.mainposition_lt key
  constructor
  · exact fun hd => absurd (h.free.notDummy.symm.trans hd) (by decide)
  · exact h.wellFormed.bits
  · exact h.wellFormed.array_fits
  · intro i hi
    have hin : i ≠ n := fun heq => absurd (heq ▸ h.free.lt) (Nat.not_lt.mpr hi)
    have him : i ≠ mp := fun heq => absurd (heq ▸ hmlt) (Nat.not_lt.mpr hi)
    simpa [append, Table.setKey, setNext, him, hin] using h.wellFormed.outside i hi
  · exact next_append ▸ h.wellFormed.linear.insertAfter h.outside h.ne
  · exact next_append ▸ h.wellFormed.ends.insertAfter h.outside h.ne
  · intro i j hij
    rw [next_append] at hij
    by_cases him : i = mp
    · rw [him, insertAfter_self] at hij
      exact Option.some.inj hij ▸ h.free.lt
    · by_cases hin : i = n
      · rw [hin, insertAfter_new h.ne] at hij
        exact h.wellFormed.bounded mp j hij
      · rw [insertAfter_of_ne him hin] at hij
        exact h.wellFormed.bounded i j hij
  · intro i hi
    rw [key_append] at hi
    rw [val_append, next_append]
    split_ifs at hi with hin
    · exact absurd (TKey.live.inj hi) h.isNew.isKey.ne_nil
    · obtain ⟨hval, hout⟩ := h.wellFormed.blank i hi
      have him : i ≠ mp := by
        rintro rfl
        exact h.taken.1 (by rw [hi]; rfl)
      refine ⟨hval, (insertAfter_of_ne him hin).trans hout.last, fun j hj => ?_⟩
      by_cases hjm : j = mp
      · rw [hjm, insertAfter_self] at hj
        exact hin (Option.some.inj hj).symm
      · by_cases hjn : j = n
        · rw [hjn, insertAfter_new h.ne] at hj
          exact hout.first mp hj
        · rw [insertAfter_of_ne hjm hjn] at hj
          exact hout.first j hj
  · intro i hi
    rw [key_append] at hi ⊢
    rw [hmain, next_append]
    split_ifs at hi ⊢ with hin
    · exact hin ▸ Leads.head insertAfter_self .refl
    · exact (h.wellFormed.placed i hi).insertAfter h.outside h.ne
  · have hhome : ∀ p, t.AtHome p → (t.append mp n key).AtHome p := by
      intro p hp
      have hpn : p ≠ n := by
        rintro rfl
        exact hp.1 (by rw [h.free.key]; rfl)
      rw [AtHome, hmain, key_append, if_neg hpn]
      exact hp
    intro i hi
    rw [hmain]
    apply hhome
    rw [key_append] at hi ⊢
    split_ifs at hi ⊢ with hin
    · exact h.taken
    · exact h.wellFormed.home i hi
  · intro i hi
    rw [val_append] at hi
    rw [key_append]
    split_ifs with hin
    · exact ⟨key, rfl⟩
    · exact h.wellFormed.live i hi
  · intro i k hk hne
    rw [key_append] at hk
    split_ifs at hk with hin
    · cases hk
      exact ⟨h.isNew.isKey, h.isNew.notInArray⟩
    · exact h.wellFormed.isKey i k hk hne
  · intro i j k k' hk hk' hne hraw
    rw [key_append] at hk hk'
    split_ifs at hk hk' with hin hjn hjn
    · exact hin.trans hjn.symm
    · cases hk
      exact absurd hraw (by simp [h.isNew.symm_absent hk'])
    · cases hk'
      exact absurd hraw (by simp [h.isNew.absent i k hk])
    · exact h.wellFormed.distinct i j k k' hk hk' hne hraw
  · intro i k hk
    rw [key_append] at hk
    split_ifs at hk
    exact h.wellFormed.dead i k hk
  · intro i j k hk hk'
    rw [key_append] at hk hk'
    rw [next_append]
    split_ifs at hk hk' with hin hjn
    · cases hk
      have hplaced := h.wellFormed.placed j (by rw [hk']; exact h.isNew.isKey.ne_nil)
      rw [hk', TKey.value, ← hmp] at hplaced
      -- the node in the main position has a live key, so that the dead one is behind it
      rcases Relation.ReflTransGen.cases_head hplaced with heq | ⟨b, hb, hbj⟩
      · obtain ⟨k', hlive⟩ := h.live
        rw [← heq, hlive] at hk'
        cases hk'
      · rw [hin]
        refine .head ((insertAfter_new h.ne).trans hb) ?_
        exact Leads.insertAfter hbj h.outside h.ne
    · exact (h.wellFormed.ordered i j k hk hk').insertAfter h.outside h.ne

end Appendable

/-- Moving a node and giving the place to a key, one assignment after the other. -/
theorem setKey_vacate (hprev : prev ≠ mp) (key : Value) :
    (((t.setNext prev n).setNode n ((t.setNext prev n).node mp)).setNode mp
      { ((t.setNext prev n).setNode n ((t.setNext prev n).node mp)).node mp with
        next := none, val := .nil }).setKey mp key = (t.vacate prev mp n).setKey mp key := by
  have hmp : (t.setNext prev n).node mp = t.node mp := by simp [setNext, hprev.symm]
  rw [hmp]
  simp [vacate, setKey, setNode, emptyNode]

theorem entry_setKey (hval : (t.node i).val = .nil) (key k v : Value) :
    (t.setKey i key).Entry k v ↔ t.Entry k v := by
  constructor
  · rintro ⟨hv, j, k', hk, hraw, hj⟩
    rw [key_setKey] at hk
    rw [val_setKey] at hj
    split_ifs at hk with hji
    · exact absurd (hj.symm.trans (hji ▸ hval)) hv
    · exact ⟨hv, j, k', hk, hraw, hj⟩
  · rintro ⟨hv, j, k', hk, hraw, hj⟩
    have hji : j ≠ i := by
      rintro rfl
      exact hv (hj.symm.trans hval)
    exact ⟨hv, j, k', by rwa [key_setKey, if_neg hji], hraw, by rwa [val_setKey]⟩

theorem entry_append (hval : (t.node n).val = .nil) (mp : Nat) (key k v : Value) :
    (t.append mp n key).Entry k v ↔ t.Entry k v := by
  rw [append, entry_setKey (by rw [val_setNext, val_setNext, hval])]
  simp only [Entry, key_setNext, val_setNext]

/-- What becomes of a table when a key gets a slot: all values are as before. -/
structure Accepts (t t' : Table) (key : Value) (s : Slot) : Prop where
  wellFormed : WellFormed t'
  free : FreeBelow t'
  slot : t'.luaHGet key = some s
  get : ∀ j, t'.get j = t.get j

/-- The parts of a table that only a rehash changes. -/
structure SameShape (t t' : Table) : Prop where
  array : t'.array = t.array
  sizearray : t'.sizearray = t.sizearray
  lsizenode : t'.lsizenode = t.lsizenode
  isDummy : t'.isDummy = t.isDummy

theorem SameShape.inArray (hs : SameShape t t') (key : Value) : t'.InArray key ↔ t.InArray key := by
  rw [InArray, InArray, hs.sizearray]

theorem SameShape.sizenode (hs : SameShape t t') : t'.sizenode = t.sizenode := by
  rw [Table.sizenode, Table.sizenode, hs.lsizenode]

theorem SameShape.accepts (hs : SameShape t t') (h : WellFormed t) (h' : WellFormed t')
    (hf : FreeBelow t') (hnew : t.IsNew key) (hkey : (t'.node i).key = .live key)
    (hentry : ∀ k v, t'.Entry k v ↔ t.Entry k v) : Accepts t t' key (.node i) where
  wellFormed := h'
  free := hf
  slot := by
    have hin : ¬ t'.InArray key := fun hin => hnew.notInArray ((hs.inArray key).mp hin)
    rw [luaHGet_eq hnew.isKey.ne_nil, if_neg hin]
    exact h'.search_eq_some hnew.isKey.ne_nil hkey hnew.isKey.rawEqual_self
  get := by
    intro j
    by_cases hj : j = .nil
    · rw [hj, get_nil, get_nil]
    · by_cases hin : t.InArray j
      · rw [get_of_inArray hin, get_of_inArray ((hs.inArray j).mpr hin), hs.array]
      · exact h.get_congr h' hj hin (fun hin' => hin ((hs.inArray j).mp hin')) fun v => hentry j v

theorem freeBelow_eq_some {m : Nat} (h : t.freeBelow m = some n) :
    n < m ∧ (t.node n).key = .live .nil ∧ ∀ i, n < i → i < m → (t.node i).key ≠ .live .nil := by
  induction m with
  | zero => simp [freeBelow] at h
  | succ m ih =>
    rw [freeBelow] at h
    split_ifs at h with hm
    · cases h
      exact ⟨Nat.lt_succ_self _, hm, fun i hi him => by omega⟩
    · obtain ⟨hlt, hkey, hused⟩ := ih h
      refine ⟨by omega, hkey, fun i hi him => ?_⟩
      rcases Nat.lt_succ_iff_lt_or_eq.mp him with him | rfl
      · exact hused i hi him
      · exact hm

theorem freeBelow_eq_none {m : Nat} (h : t.freeBelow m = none) :
    ∀ i < m, (t.node i).key ≠ .live .nil := by
  induction m with
  | zero => exact fun i hi => absurd hi (Nat.not_lt_zero i)
  | succ m ih =>
    rw [freeBelow] at h
    split_ifs at h with hm
    intro i hi
    rcases Nat.lt_succ_iff_lt_or_eq.mp hi with hi | rfl
    · exact ih h i hi
    · exact hm

/-- The nodes that have been used. -/
def used (t : Table) : Finset Nat :=
  (Finset.range t.sizenode).filter fun i => (t.node i).key ≠ .live .nil

theorem mem_used : i ∈ t.used ↔ i < t.sizenode ∧ (t.node i).key ≠ .live .nil := by simp [used]

/-- How many keys the vector has room for. -/
def capacity (t : Table) : Nat := if t.isDummy then 0 else t.sizenode

theorem FreeBelow.exists_free (hf : FreeBelow t) (hroom : t.used.card < t.capacity) :
    ∃ n, t.freeBelow t.lastfree = some n := by
  by_contra hnone
  have hd : t.isDummy = false := by
    by_contra hd
    rw [Bool.not_eq_false] at hd
    simp [capacity, hd] at hroom
  have hall : t.used = Finset.range t.sizenode := by
    ext i
    rw [mem_used, Finset.mem_range, and_iff_left_iff_imp]
    intro hi
    by_cases hlt : i < t.lastfree
    · have hnone' := Option.eq_none_iff_forall_ne_some.mpr fun n hn => hnone ⟨n, hn⟩
      exact freeBelow_eq_none hnone' i hlt
    · exact hf.used i (Nat.le_of_not_lt hlt) hi hd
  rw [hall, Finset.card_range, capacity, hd] at hroom
  exact absurd hroom (lt_irrefl _)

/-- One node more may be in use. -/
theorem card_used_le (hsub : t'.used ⊆ insert n t.used) : t'.used.card ≤ t.used.card + 1 :=
  (Finset.card_le_card hsub).trans (Finset.card_insert_le _ _)

end Nodes

/-! ### New keys -/

section Newkey
variable {grow : Insertion}

theorem WellFormed.setLastfree (h : WellFormed t) (n : Nat) : WellFormed { t with lastfree := n } :=
  ⟨h.dummy, h.bits, h.array_fits, h.outside, h.linear, h.ends, h.bounded, h.blank, h.placed, h.home,
    h.live, h.isKey, h.distinct, h.dead, h.ordered⟩

theorem WellFormed.previous_eq (h : WellFormed t) (hval : (t.node mp).val ≠ .nil)
    (haway : t.mainposition (t.node mp).key.value ≠ mp) :
    t.next (t.previous (t.mainposition (t.node mp).key.value) mp) = some mp := by
  have hne : (t.node mp).key.value ≠ .nil :=
    h.value_ne_nil fun hk => hval (h.blank mp hk).1
  obtain ⟨k, hk, hnext⟩ := (h.placed mp hne).exists_last haway
  have hmem := (h.chain_eq (t.mainposition_lt _)).mem_iff.mpr hk
  rw [previous]
  cases hfind : (t.chain (t.mainposition (t.node mp).key.value)).find?
      fun i => t.next i = some mp with
  | none =>
    have hlost := List.find?_eq_none.mp hfind k hmem
    simp [hnext] at hlost
  | some i => simpa using List.find?_some hfind

/-- How a table takes a key when it need not grow. -/
structure Takes (t t' : Table) (key : Value) (s : Slot) : Prop where
  accepts : Accepts t t' key s
  shape : SameShape t t'
  used : t'.used.card ≤ t.used.card + 1

theorem newkey_main (h : WellFormed t) (hf : FreeBelow t) (hnew : t.IsNew key)
    (hval : (t.node (t.mainposition key)).val = .nil) (hd : t.isDummy = false) :
    Takes t (t.setKey (t.mainposition key) key) key (.node (t.mainposition key)) := by
  have hshape : SameShape t (t.setKey (t.mainposition key) key) := ⟨rfl, rfl, rfl, rfl⟩
  have hkey : ((t.setKey (t.mainposition key) key).node (t.mainposition key)).key = .live key := by
    rw [key_setKey, if_pos rfl]
  refine ⟨hshape.accepts h (h.setKey hnew hd) ⟨hf.le, ?_, hf.dummy⟩ hnew hkey
    (entry_setKey hval key), hshape, ?_⟩
  · intro i hi hlt hd'
    rw [key_setKey]
    split_ifs
    · exact fun heq => hnew.isKey.ne_nil (TKey.live.inj heq)
    · exact hf.used i hi hlt hd'
  · refine card_used_le (n := t.mainposition key) fun i hi => ?_
    rw [mem_used, key_setKey] at hi
    rw [Finset.mem_insert, mem_used]
    split_ifs at hi with him
    · exact .inl him
    · exact .inr hi

/-- The table after `getfreepos` has found the node `n`. -/
theorem FreeBelow.found (hf : FreeBelow t) (hn : t.freeBelow t.lastfree = some n) :
    t.IsFree n ∧ t.getfreepos = (some n, { t with lastfree := n }) ∧
      ∀ i, n < i → i < t.sizenode → (t.node i).key ≠ .live .nil := by
  obtain ⟨hlt, hkey, hused⟩ := freeBelow_eq_some hn
  have hd : t.isDummy = false := by
    by_contra hd
    rw [Bool.not_eq_false] at hd
    rw [hf.dummy hd] at hlt
    exact absurd hlt (Nat.not_lt_zero n)
  refine ⟨⟨hlt.trans_le hf.le, hkey, hd⟩, by rw [getfreepos, hn]; rfl, fun i hi hilt => ?_⟩
  by_cases hil : i < t.lastfree
  · exact hused i hi hil
  · exact hf.used i (Nat.le_of_not_lt hil) hilt hd

theorem newkey_moved (h : WellFormed t) (hnew : t.IsNew key) (hn : t.IsFree n)
    (hused : ∀ i, n < i → i < t.sizenode → (t.node i).key ≠ .live .nil)
    (hval : (t.node (t.mainposition key)).val ≠ .nil)
    (haway : t.mainposition (t.node (t.mainposition key)).key.value ≠ t.mainposition key) :
    let prev := t.previous (t.mainposition (t.node (t.mainposition key)).key.value)
      (t.mainposition key)
    Takes t ((({ t with lastfree := n } : Table).vacate prev (t.mainposition key) n).setKey
      (t.mainposition key) key) key (.node (t.mainposition key)) := by
  intro prev
  set mp := t.mainposition key with hmp
  set u : Table := { t with lastfree := n }
  have hmov : Movable u prev mp n :=
    ⟨h.setLastfree n, h.previous_eq hval haway, haway, hval, ⟨hn.lt, hn.key, hn.notDummy⟩⟩
  have hu := hmov.vacate_wellFormed
  have hnewu : (u.vacate prev mp n).IsNew key := by
    refine ⟨hnew.isKey, hnew.notInArray, fun i k hk => ?_⟩
    rw [key_vacate] at hk
    split_ifs at hk with him hin
    · cases hk
      by_contra hraw
      exact hnew.isKey.ne_nil (Value.eq_nil_of_rawEqual (Value.rawEqual_symm (by simpa using hraw)))
    · exact hnew.absent mp k hk
    · exact hnew.absent i k hk
  have hwf : WellFormed ((u.vacate prev mp n).setKey mp key) := hu.setKey hnewu hn.notDummy
  have hshape : SameShape t ((u.vacate prev mp n).setKey mp key) := ⟨rfl, rfl, rfl, rfl⟩
  have hkey : ∀ i, (((u.vacate prev mp n).setKey mp key).node i).key =
      if i = mp then .live key else if i = n then (t.node mp).key else (t.node i).key := by
    intro i
    rw [key_setKey, key_vacate]
    split_ifs <;> rfl
  have hmpkey : (t.node mp).key ≠ .live .nil := fun hk => hval (h.blank mp hk).1
  have hne : ∀ i, (t.node i).key ≠ .live .nil ∨ i = n →
      (((u.vacate prev mp n).setKey mp key).node i).key ≠ .live .nil := by
    intro i hi
    rw [hkey]
    split_ifs with him hin
    · exact fun heq => hnew.isKey.ne_nil (TKey.live.inj heq)
    · exact hmpkey
    · exact hi.resolve_right hin
  refine ⟨hshape.accepts h hwf
    ⟨hn.lt.le, ?_, fun hd => absurd (hn.notDummy.symm.trans hd) (by decide)⟩
    hnew (by rw [hkey, if_pos rfl]) fun k v => ?_, hshape, ?_⟩
  · intro i hi hlt _
    rcases Nat.lt_or_eq_of_le hi with hi | hi
    · exact hne i (.inl (hused i hi hlt))
    · exact hne i (.inr hi.symm)
  · rw [entry_setKey (by rw [val_vacate, if_pos rfl])]
    exact hmov.entry_vacate k v
  · refine card_used_le (n := n) fun i hi => ?_
    rw [mem_used, hkey] at hi
    rw [Finset.mem_insert, mem_used]
    split_ifs at hi with him hin
    · exact .inr ⟨hi.1, him ▸ hmpkey⟩
    · exact .inl hin
    · exact .inr hi

theorem newkey_appended (h : WellFormed t) (hnew : t.IsNew key) (hn : t.IsFree n)
    (hused : ∀ i, n < i → i < t.sizenode → (t.node i).key ≠ .live .nil)
    (hval : (t.node (t.mainposition key)).val ≠ .nil)
    (hhome : t.mainposition (t.node (t.mainposition key)).key.value = t.mainposition key) :
    Takes t (({ t with lastfree := n } : Table).append (t.mainposition key) n key) key
      (.node n) := by
  set mp := t.mainposition key with hmp
  set u : Table := { t with lastfree := n }
  have hmpkey : (t.node mp).key ≠ .live .nil := fun hk => hval (h.blank mp hk).1
  have happ : Appendable u n key :=
    ⟨h.setLastfree n, ⟨hnew.isKey, hnew.notInArray, hnew.absent⟩,
      ⟨h.value_ne_nil hmpkey, hhome⟩, h.live mp hval, ⟨hn.lt, hn.key, hn.notDummy⟩⟩
  have hshape : SameShape t (u.append mp n key) := ⟨rfl, rfl, rfl, rfl⟩
  have hne : ∀ i, (t.node i).key ≠ .live .nil ∨ i = n →
      ((u.append mp n key).node i).key ≠ .live .nil := by
    intro i hi
    rw [key_append]
    split_ifs with hin
    · exact fun heq => hnew.isKey.ne_nil (TKey.live.inj heq)
    · exact hi.resolve_right hin
  refine ⟨hshape.accepts h happ.append_wellFormed
    ⟨hn.lt.le, ?_, fun hd => absurd (hn.notDummy.symm.trans hd) (by decide)⟩ hnew
    (by rw [key_append, if_pos rfl]) (entry_append (h.blank n hn.key).1 mp key), hshape, ?_⟩
  · intro i hi hlt _
    rcases Nat.lt_or_eq_of_le hi with hi | hi
    · exact hne i (.inl (hused i hi hlt))
    · exact hne i (.inr hi.symm)
  · refine card_used_le (n := n) fun i hi => ?_
    rw [mem_used, key_append] at hi
    rw [Finset.mem_insert, mem_used]
    split_ifs at hi with hin
    · exact .inl hin
    · exact .inr hi

variable (grow) in
/-- A new key gets a slot, unless no node is free and the table grows. -/
theorem newkey_cases (h : WellFormed t) (hf : FreeBelow t) (hnew : t.IsNew key) :
    (∃ t' s, newkey grow t key = .ok (t', s) ∧ Takes t t' key s) ∨
      t.freeBelow t.lastfree = none ∧ newkey grow t key = grow { t with lastfree := 0 } key := by
  by_cases hfull : (t.node (t.mainposition key)).val ≠ .nil ∨ t.isDummy = true
  · rw [newkey]
    dsimp only
    rw [if_pos hfull]
    cases hn : t.freeBelow t.lastfree with
    | none =>
      right
      rw [getfreepos, hn]
      exact ⟨rfl, rfl⟩
    | some n =>
      left
      obtain ⟨hfree, hpos, hused⟩ := hf.found hn
      have hval : (t.node (t.mainposition key)).val ≠ .nil :=
        hfull.resolve_right (by simp [hfree.notDummy])
      rw [hpos]
      dsimp only
      by_cases haway : t.mainposition (t.node (t.mainposition key)).key.value = t.mainposition key
      · refine ⟨_, _, ?_, newkey_appended h hnew hfree hused hval haway⟩
        have hself : ¬ (({ t with lastfree := n } : Table).mainposition
            (t.node (t.mainposition key)).key.value ≠ t.mainposition key) := not_not.mpr haway
        rw [if_neg hself]
        rfl
      · refine ⟨_, _, ?_, newkey_moved h hnew hfree hused hval haway⟩
        have hprev := h.previous_eq hval haway
        rw [if_pos (show ({ t with lastfree := n } : Table).mainposition
            (t.node (t.mainposition key)).key.value ≠ t.mainposition key from haway)]
        refine congrArg (fun u => Except.ok (u, Slot.node (t.mainposition key))) ?_
        refine setKey_vacate (fun heq => ?_) key
        exact h.ends.next_ne (heq ▸ hprev)
  · rw [not_or, not_not] at hfull
    refine .inl ⟨_, _, ?_, newkey_main h hf hnew hfull.1 (by simpa using hfull.2)⟩
    rw [newkey]
    dsimp only
    rw [if_neg (by simpa using hfull)]

theorem takes_self {s : Slot} (h : WellFormed t) (hf : FreeBelow t) (hs : t.luaHGet key = some s) :
    Takes t t key s :=
  ⟨⟨h, hf, hs, fun _ => rfl⟩, ⟨rfl, rfl, rfl, rfl⟩, Nat.le_succ _⟩

theorem WellFormed.isNew (h : WellFormed t) (hkey : IsKey key) (hget : t.luaHGet key = none) :
    t.IsNew key := by
  rw [luaHGet_eq hkey.ne_nil] at hget
  split_ifs at hget with hin
  refine ⟨hkey, hin, fun i k hk => ?_⟩
  by_contra hraw
  rw [Bool.not_eq_false] at hraw
  rw [h.search_eq_some hkey.ne_nil hk hraw] at hget
  cases hget

variable (grow) in
/-- `luaH_set` finds the slot of the key or makes one, unless the table has to grow. -/
theorem setWith_cases (h : WellFormed t) (hf : FreeBelow t) (hkey : IsKey key) :
    (∃ t' s, setWith grow t key = .ok (t', s) ∧ Takes t t' key s) ∨
      t.freeBelow t.lastfree = none ∧ t.IsNew key ∧
        setWith grow t key = grow { t with lastfree := 0 } key := by
  rw [setWith]
  cases hget : t.luaHGet key with
  | some s => exact .inl ⟨t, s, rfl, takes_self h hf hget⟩
  | none =>
    have hnew := h.isNew hkey hget
    dsimp only
    rw [if_neg hkey.ne_nil, if_neg hkey.ne_nan]
    rcases newkey_cases grow h hf hnew with hok | ⟨hfull, hgrow⟩
    · exact .inl hok
    · exact .inr ⟨hfull, hnew, hgrow⟩

variable (grow) in
/-- With a node to spare no table grows. -/
theorem setWith_of_room (h : WellFormed t) (hf : FreeBelow t) (hkey : IsKey key)
    (hroom : t.used.card < t.capacity) :
    ∃ t' s, setWith grow t key = .ok (t', s) ∧ Takes t t' key s := by
  obtain ⟨n, hn⟩ := hf.exists_free hroom
  rcases setWith_cases grow h hf hkey with hok | ⟨hfull, _⟩
  · exact hok
  · simp [hn] at hfull

variable (grow) in
/-- A key of the array part has its slot already. -/
theorem setWith_of_inArray (h : WellFormed t) (hf : FreeBelow t) (hin : t.InArray key) :
    ∃ s, setWith grow t key = .ok (t, s) ∧ Takes t t key s := by
  have hget := (luaHGet_eq hin.ne_nil).trans (if_pos hin)
  refine ⟨_, ?_, takes_self h hf hget⟩
  rw [setWith, hget]

theorem setnumWith_eq (grow : Insertion) (t : Table) {i : Int} (hlo : -2 ^ 31 ≤ i)
    (hhi : i < 2 ^ 31) :
    setnumWith grow t i = setWith grow t (.number (.ofInt _ i)) := by
  rw [setnumWith, setWith, luaHGetnum_eq hlo hhi, if_neg (isKey_ofInt i).ne_nil,
    if_neg (isKey_ofInt i).ne_nan]

end Newkey

end Table
end Tables
end JLua
