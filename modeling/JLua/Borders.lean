import JLua.Traversal

/-!
# Borders

The length of a table is a border: an index whose value is there, or 0, before one whose value is
not. It is searched for by halves, and from the array part on by doubling.
-/

namespace JLua.Tables

open BinaryFloat TransitionRuns
set_option autoImplicit false

/-- The index `n` is that of a value, or 0, and the next one is not. -/
structure IsBorder (empty : Nat → Prop) (n : Nat) : Prop where
  filled : n = 0 ∨ ¬ empty n
  empty : empty (n + 1)

theorem bisect_isBorder (empty : Nat → Bool) {rounds i j : Nat} (hi : i = 0 ∨ ¬ empty i = true)
    (hj : empty j = true) (hij : i < j) (hrounds : j - i ≤ rounds) :
    IsBorder (fun m => empty m = true) (bisect empty rounds i j) ∧
      i ≤ bisect empty rounds i j ∧ bisect empty rounds i j < j := by
  induction rounds generalizing i j with
  | zero => omega
  | succ rounds ih =>
    rw [bisect]
    split_ifs with hwide
    · dsimp only
      split_ifs with hm
      · obtain ⟨hborder, hlo, hhi⟩ := ih hi hm (by omega) (by omega)
        exact ⟨hborder, hlo, by omega⟩
      · obtain ⟨hborder, hlo, hhi⟩ := ih (.inr hm) hj (by omega) (by omega)
        exact ⟨hborder, by omega, hhi⟩
    · have hnext : i + 1 = j := by omega
      exact ⟨⟨hi, hnext ▸ hj⟩, le_rfl, hij⟩

theorem bisect_le (empty : Nat → Bool) (rounds : Nat) {i j : Nat} (hij : i ≤ j) :
    bisect empty rounds i j ≤ j := by
  induction rounds generalizing i j with
  | zero => exact hij
  | succ rounds ih =>
    rw [bisect]
    split_ifs with hwide
    · dsimp only
      split_ifs
      · exact (ih (i := i) (by omega)).trans (by omega)
      · exact ih (by omega)
    · exact hij

namespace Table
variable {t : Table} {i j n : Nat}

/-- An integer key. -/
def num (i : Int) : Value := .number (.ofInt _ i)

theorem rawEqual_num {i j : Int} (hi : -2 ^ 31 ≤ i ∧ i < 2 ^ 31) (hj : -2 ^ 31 ≤ j ∧ j < 2 ^ 31) :
    (num i).rawEqual (num j) = true ↔ i = j := by
  constructor
  · intro hraw
    have hidx := arrayindex_of_rawEqual hraw
    rwa [num, num, arrayindex_ofInt hi.1 hi.2, arrayindex_ofInt hj.1 hj.2] at hidx
  · rintro rfl
    exact (isKey_ofInt i).rawEqual_self

theorem getnum_eq (hi : i < 2 ^ 31) : t.getnum i = t.get (num i) := by
  rw [getnum, luaHGetnum_eq (by omega) (by omega)]
  rfl

theorem getnum_of_le (hlo : 1 ≤ i) (hhi : i ≤ t.sizearray) : t.getnum i = t.array (i - 1) := by
  rw [getnum, luaHGetnum, if_pos (by omega)]
  change t.array _ = _
  congr
  omega

theorem WellFormed.sizes_le (h : WellFormed t) : t.sizearray + t.sizenode ≤ 2 ^ 27 := by
  have harray := h.array_fits
  have hnode : t.sizenode ≤ 2 ^ MAXBITS := Nat.pow_le_pow_right (by decide) h.bits
  simp only [MAXASIZE, MAXBITS] at harray hnode
  omega

/-- A table has no more values under integer keys than it has slots. -/
theorem length_le_of_filled (h : WellFormed t) (hn : n < 2 ^ 31)
    (hfilled : ∀ i, 1 ≤ i → i ≤ n → t.getnum i ≠ .nil) : n ≤ t.sizearray + t.sizenode := by
  have hslot : ∀ i, ∃ q, i < n → t.valueAt q ≠ .nil ∧
      (t.keyAt q).rawEqual (num ((i : Int) + 1)) = true := by
    intro i
    by_cases hi : i < n
    · have hget := hfilled (i + 1) (by omega) hi
      rw [getnum_eq (by omega)] at hget
      obtain ⟨q, hq, hraw⟩ := exists_valueAt h hget
      exact ⟨q, fun _ => ⟨hq ▸ hget, by simpa using hraw⟩⟩
    · exact ⟨0, fun hi' => absurd hi' hi⟩
  choose slot hval using hslot
  have hinj : Set.InjOn slot (Finset.range n) := by
    intro i hi j hj heq
    rw [Finset.mem_coe, Finset.mem_range] at hi hj
    have hraw := Value.rawEqual_trans (Value.rawEqual_symm (hval i hi).2)
      (heq ▸ (hval j hj).2)
    have := (rawEqual_num (by omega) (by omega)).mp hraw
    omega
  have hmaps : ∀ i ∈ Finset.range n, slot i ∈ Finset.range (t.sizearray + t.sizenode) := by
    intro i hi
    rw [Finset.mem_range] at hi ⊢
    exact lt_of_valueAt h (hval i hi).1
  simpa using Finset.card_le_card_of_injOn slot hmaps hinj

theorem linearSearch_isBorder (h : WellFormed t) {rounds : Nat} (hpos : 1 ≤ i)
    (hfilled : ∀ m, 1 ≤ m → m < i → t.getnum m ≠ .nil)
    (hrounds : t.sizearray + t.sizenode + 2 ≤ i + rounds) :
    IsBorder (fun m => t.getnum m = .nil) (t.linearSearch rounds i) := by
  have hsizes := h.sizes_le
  induction rounds generalizing i with
  | zero =>
    have hle := length_le_of_filled h (n := t.sizearray + t.sizenode + 1) (by omega)
      fun m hlo hhi => hfilled m hlo (by omega)
    omega
  | succ rounds ih =>
    rw [linearSearch]
    split_ifs with hget
    · refine ih (by omega) (fun m hlo hhi => ?_) (by omega)
      rcases Nat.lt_succ_iff_lt_or_eq.mp hhi with hlt | rfl
      · exact hfilled m hlo hlt
      · exact hget
    · refine ⟨?_, ?_⟩
      · rcases Nat.eq_or_lt_of_le hpos with heq | hlt
        · exact .inl (by omega)
        · exact .inr (hfilled _ (by omega) (by omega))
      · rw [Nat.sub_add_cancel hpos]
        exact not_not.mp hget

theorem unboundLoop_isBorder (h : WellFormed t) {rounds : Nat} (hi : i = 0 ∨ t.getnum i ≠ .nil)
    (hij : i < j) (hj : j ≤ MAX_INT) (hrounds : MAX_INT < j * 2 ^ rounds) :
    IsBorder (fun m => t.getnum m = .nil) (t.unboundLoop rounds i j) := by
  induction rounds generalizing i j with
  | zero => omega
  | succ rounds ih =>
    rw [unboundLoop]
    split_ifs with hget hover
    · exact linearSearch_isBorder h le_rfl (fun m hlo hhi => by omega) (by omega)
    · refine ih (.inr hget) (by omega) (by omega) ?_
      rwa [Nat.pow_succ', ← Nat.mul_assoc, Nat.mul_comm j 2] at hrounds
    · have hborder := (bisect_isBorder (fun m => t.getnum m = .nil) (i := i) (j := j)
        (by simpa using hi) (by simpa using not_not.mp hget) hij le_rfl).1
      exact ⟨by simpa using hborder.filled, by simpa using hborder.empty⟩

/-- The length of a table is a border. -/
theorem luaHGetn_isBorder (h : WellFormed t) :
    IsBorder (fun m => t.getnum m = .nil) t.luaHGetn := by
  have hsizes := h.sizes_le
  have hlast : ¬ (0 < t.sizearray ∧ t.array (t.sizearray - 1) = .nil) →
      t.sizearray = 0 ∨ t.getnum t.sizearray ≠ .nil := by
    intro hfull
    rcases Nat.eq_zero_or_pos t.sizearray with h0 | hpos
    · exact .inl h0
    · rw [getnum_of_le hpos le_rfl]
      exact .inr fun hnil => hfull ⟨hpos, hnil⟩
  rw [luaHGetn]
  split_ifs with harray hd
  · obtain ⟨hborder, _, hlt⟩ := bisect_isBorder (fun m => t.array (m - 1) = .nil) (i := 0)
      (j := t.sizearray) (.inl rfl) (by simpa using harray.2) harray.1 (Nat.sub_le _ _)
    refine ⟨?_, ?_⟩
    · rcases Nat.eq_zero_or_pos (bisect (fun m => t.array (m - 1) = .nil) t.sizearray 0
        t.sizearray) with h0 | hpos
      · exact .inl h0
      · refine .inr ?_
        rw [getnum_of_le hpos hlt.le]
        simpa using hborder.filled.resolve_left hpos.ne'
    · rw [getnum_of_le (by omega) hlt]
      simpa using hborder.empty
  · refine ⟨hlast harray, ?_⟩
    by_contra hget
    rw [getnum_eq (by omega)] at hget
    obtain ⟨q, hq, hraw⟩ := exists_valueAt h hget
    by_cases hqa : q < t.sizearray
    · rw [keyAt, if_pos hqa] at hraw
      have := (rawEqual_num (i := q + 1) (by omega) (by omega)).mp hraw
      omega
    · -- the only node is the one that all tables share
      obtain ⟨hsize, hnode⟩ := h.dummy hd
      have hnil : t.valueAt q = .nil := by
        rw [valueAt, if_neg hqa]
        rcases Nat.eq_zero_or_pos (q - t.sizearray) with h0 | hpos
        · rw [h0, hnode]
          rfl
        · rw [h.outside _ (by rw [sizenode, hsize]; omega)]
          rfl
      exact hget (hq ▸ hnil)
  · exact unboundLoop_isBorder h (hlast harray) (Nat.lt_succ_self _)
      (by simp only [MAX_INT]; have := h.array_fits; simp only [MAXASIZE, MAXBITS] at this; omega)
      (by simp only [MAX_INT]; omega)

/-- The array part is full, and the border is among the nodes. -/
theorem luaHGetn_isBorder_new : ∃ log t, Run Step emptyTable log t ∧
    log.map Prod.snd = sample ++ [.rawset (num 3) (.boolean true)] ∧
    (t.sizearray = 2 ∧ t.luaHGetn = 3) ∧ IsBorder (fun m => t.getnum m = .nil) 3 := by
  obtain ⟨log, t, run, hlog, ht⟩ := exists_run (sample ++ [.rawset (num 3) (.boolean true)])
    (fun t => t.sizearray = 2 ∧ t.luaHGetn = 3) (by decide +kernel)
  have hn : t.sizearray = 2 ∧ t.luaHGetn = 3 := of_decide_eq_true ht
  have hwf := (run_wellFormed (Nat.zero_le _) (Nat.zero_le _) luaHNew_empty run).1
  have hborder := luaHGetn_isBorder hwf
  rw [hn.2] at hborder
  exact ⟨log, t, run, hlog, hn, hborder⟩

theorem linearSearch_le (t : Table) (rounds : Nat) : t.linearSearch rounds i ≤ i + rounds := by
  induction rounds generalizing i with
  | zero => exact Nat.sub_le i 1
  | succ rounds ih =>
    rw [linearSearch]
    split_ifs
    · exact ih.trans (by omega)
    · omega

theorem unboundLoop_le (h : WellFormed t) (rounds : Nat) (hij : i ≤ j) (hj : j ≤ MAX_INT) :
    t.unboundLoop rounds i j ≤ MAX_INT := by
  induction rounds generalizing i j with
  | zero => exact hij.trans hj
  | succ rounds ih =>
    rw [unboundLoop]
    split_ifs with hget hover
    · have hle := linearSearch_le (i := 1) t (t.sizearray + t.sizenode + 1)
      have := h.sizes_le
      simp only [MAX_INT] at hj ⊢
      omega
    · exact ih (by omega) (by omega)
    · exact (bisect_le _ _ hij).trans hj

/-- A length is an integer of C. -/
theorem luaHGetn_le (h : WellFormed t) : t.luaHGetn ≤ MAX_INT := by
  have hsize : t.sizearray + 1 ≤ MAX_INT := by
    have := h.sizes_le
    simp only [MAX_INT]
    omega
  rw [luaHGetn]
  split_ifs
  · exact (bisect_le _ _ (Nat.zero_le _)).trans (by omega)
  · exact (Nat.le_succ _).trans hsize
  · exact unboundLoop_le h _ (Nat.le_succ _) hsize

end Table
end JLua.Tables
