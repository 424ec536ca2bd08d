import Mathlib.Data.List.Nodup
import Mathlib.Data.List.Perm.Subperm
import Mathlib.Logic.Function.Basic
import Mathlib.Logic.Relation

/-!
# Chains of cells

Every cell names its successor or none. While no two cells share a successor and every chain ends,
a cell that is outside of all chains can be put behind another one, or in the place of another one.
-/

namespace Chains

set_option autoImplicit false

universe u
variable {I : Type u} {next : I → Option I} {i j k m n p : I} {l l' : List I}

/-- The cells from `i` on, up to the one without a successor. -/
inductive Chain (next : I → Option I) : I → List I → Prop where
  | last {i : I} : next i = none → Chain next i [i]
  | cons {i j : I} {l : List I} : next i = some j → Chain next j l → Chain next i (i :: l)

/-- From `i` the successors lead to `j`. -/
def Leads (next : I → Option I) : I → I → Prop :=
  Relation.ReflTransGen fun a b => next a = some b

/-- No two cells have the same successor. -/
def Linear (next : I → Option I) : Prop := ∀ i j k, next i = some k → next j = some k → i = j

def Ends (next : I → Option I) : Prop := ∀ i, ∃ l, Chain next i l

/-- The cell has no successor, and is none. -/
structure Outside (next : I → Option I) (n : I) : Prop where
  last : next n = none
  first : ∀ i, next i ≠ some n

/-- The first cells from `i` on, at most so many. -/
def walk (next : I → Option I) : Nat → I → List I
  | 0, _ => []
  | fuel + 1, i => i :: (next i).elim [] (walk next fuel)

theorem Chain.unique (h : Chain next i l) (h' : Chain next i l') : l = l' := by
  induction h generalizing l' with
  | last hi =>
    cases h' with
    | last => rfl
    | cons hj => simp [hi] at hj
  | cons hj _ ih =>
    cases h' with
    | last hi => simp [hi] at hj
    | cons hk h' =>
      cases hj.symm.trans hk
      rw [ih h']

theorem Chain.head_mem (h : Chain next i l) : i ∈ l := by
  cases h <;> exact List.mem_cons_self

theorem Chain.mem_iff (h : Chain next i l) : j ∈ l ↔ Leads next i j := by
  constructor
  · intro hj
    induction h with
    | last => exact List.mem_singleton.mp hj ▸ .refl
    | cons hk _ ih =>
      rcases List.mem_cons.mp hj with rfl | hj
      · exact .refl
      · exact .head hk (ih hj)
  · intro hij
    induction hij using Relation.ReflTransGen.head_induction_on generalizing l with
    | refl => exact h.head_mem
    | head hab _ ih =>
      cases h with
      | last hi => simp [hi] at hab
      | cons hk h =>
        cases hk.symm.trans hab
        exact List.mem_cons_of_mem _ (ih h)

/-- What comes after a cell of a chain is what the cell leads to. -/
theorem Chain.leads_of_append {before after : List I} (h : Chain next p (before ++ m :: after))
    (hi : i ∈ m :: after) : Leads next m i := by
  induction before generalizing p with
  | nil =>
    have hpm : p = m := by cases h <;> rfl
    exact hpm ▸ h.mem_iff.mp hi
  | cons b before ih =>
    generalize hl : b :: before ++ m :: after = l at h
    cases h with
    | last => simp at hl
    | cons _ h =>
      rw [List.cons_append, List.cons.injEq] at hl
      exact ih (hl.2 ▸ h)

theorem Chain.exists_suffix (h : Chain next i l) (hj : j ∈ l) :
    ∃ l', Chain next j l' ∧ l'.length ≤ l.length ∧ (j = i ∨ l'.length < l.length) := by
  induction h with
  | last hi =>
    cases List.mem_singleton.mp hj
    exact ⟨_, .last hi, Nat.le_refl _, .inl rfl⟩
  | cons hk h ih =>
    rcases List.mem_cons.mp hj with rfl | hj
    · exact ⟨_, .cons hk h, Nat.le_refl _, .inl rfl⟩
    · obtain ⟨l', hl', hlen, _⟩ := ih hj
      exact ⟨l', hl', Nat.le_succ_of_le hlen, .inr (Nat.lt_succ_of_le hlen)⟩

/-- A cell that came again would have a chain shorter than itself. -/
theorem Chain.nodup (h : Chain next i l) : l.Nodup := by
  induction h with
  | last => exact List.nodup_singleton _
  | @cons i j l hj h ih =>
    refine List.nodup_cons.mpr ⟨fun hmem => ?_, ih⟩
    obtain ⟨l', hl', hlen, _⟩ := h.exists_suffix hmem
    have heq := hl'.unique (.cons hj h)
    rw [heq, List.length_cons] at hlen
    omega

theorem Ends.not_leads_back (h : Ends next) (hij : next i = some j) : ¬ Leads next j i := by
  intro hji
  obtain ⟨l, hl⟩ := h j
  exact (List.nodup_cons.mp (Chain.cons hij hl).nodup).1 (hl.mem_iff.mpr hji)

theorem Ends.antisymm (h : Ends next) (hij : Leads next i j) (hji : Leads next j i) : i = j := by
  rcases Relation.ReflTransGen.cases_head hij with heq | ⟨k, hik, hkj⟩
  · exact heq
  · exact absurd (Relation.ReflTransGen.trans hkj hji) (h.not_leads_back hik)

theorem Ends.next_ne (h : Ends next) : next i ≠ some i := fun hi => h.not_leads_back hi .refl

theorem Chain.walk_eq (h : Chain next i l) {fuel : Nat} (hfuel : l.length ≤ fuel) :
    walk next fuel i = l := by
  induction h generalizing fuel with
  | last hi =>
    cases fuel with
    | zero => simp at hfuel
    | succ fuel => simp [walk, hi]
  | cons hj _ ih =>
    cases fuel with
    | zero => simp at hfuel
    | succ fuel => simp [walk, hj, ih (Nat.le_of_succ_le_succ hfuel)]

/-- A chain among the first `size` cells is walked to its end in `size` steps. -/
theorem Chain.walk_of_lt {next : Nat → Option Nat} {i size : Nat} {l : List Nat}
    (h : Chain next i l) (hlt : ∀ j ∈ l, j < size) : walk next size i = l := by
  refine h.walk_eq ?_
  have hsub := List.subperm_of_subset h.nodup fun j hj => List.mem_range.mpr (hlt j hj)
  simpa using hsub.length_le

theorem Leads.trans (hij : Leads next i j) (hjk : Leads next j k) : Leads next i k :=
  Relation.ReflTransGen.trans hij hjk

theorem Leads.head (hij : next i = some j) (hjk : Leads next j k) : Leads next i k :=
  Relation.ReflTransGen.head hij hjk

/-- The last step of a chain that leads somewhere else. -/
theorem Leads.exists_last (h : Leads next i j) (hne : i ≠ j) :
    ∃ k, Leads next i k ∧ next k = some j := by
  rcases Relation.ReflTransGen.cases_tail h with heq | ⟨k, hik, hkj⟩
  · exact absurd heq.symm hne
  · exact ⟨k, hik, hkj⟩

theorem Leads.lt_of_next {next : Nat → Option Nat} {i j size : Nat} (h : Leads next i j)
    (hi : i < size) (hnext : ∀ a b, next a = some b → b < size) : j < size := by
  rcases Relation.ReflTransGen.cases_tail h with heq | ⟨k, _, hk⟩
  · exact heq ▸ hi
  · exact hnext k j hk

/-- What is needed for one cell to take the place of another. -/
structure Replaceable (next : I → Option I) (p m n : I) : Prop where
  linear : Linear next
  ends : Ends next
  prev : next p = some m
  outside : Outside next n
  ne : m ≠ n

namespace Replaceable
variable (h : Replaceable next p m n)
include h

theorem prev_ne_old : p ≠ m := by
  rintro rfl
  exact h.ends.next_ne h.prev

theorem prev_ne_new : p ≠ n := by
  rintro rfl
  exact Option.some_ne_none m (h.prev.symm.trans h.outside.last)

end Replaceable

section Update
variable [DecidableEq I]

/-- The cell `n` comes between `p` and its successor. -/
def insertAfter (next : I → Option I) (p n : I) : I → Option I :=
  Function.update (Function.update next n (next p)) p (some n)

theorem insertAfter_self : insertAfter next p n p = some n := Function.update_self ..

theorem insertAfter_new (hne : p ≠ n) : insertAfter next p n n = next p := by
  simp [insertAfter, hne.symm]

theorem insertAfter_of_ne (hp : i ≠ p) (hn : i ≠ n) : insertAfter next p n i = next i := by
  simp [insertAfter, hp, hn]

theorem Leads.insertAfter (h : Leads next i j) (hn : Outside next n) (hne : p ≠ n) :
    Leads (insertAfter next p n) i j := by
  induction h with
  | refl => exact .refl
  | @tail a b _ hab ih =>
    have han : a ≠ n := by
      rintro rfl
      simp [hn.last] at hab
    by_cases hap : a = p
    · subst a
      refine ih.trans (.head insertAfter_self (.single ?_))
      rw [insertAfter_new hne, hab]
    · exact ih.trans (.single ((insertAfter_of_ne hap han).trans hab))

theorem Linear.insertAfter (h : Linear next) (hn : Outside next n) (hne : p ≠ n) :
    Linear (insertAfter next p n) := by
  -- only `p` has become another one's predecessor, and only `n` has taken over a successor
  have hback : ∀ a b, Chains.insertAfter next p n a = some b →
      (a = p ∧ b = n) ∨ (a = n ∧ next p = some b) ∨ (a ≠ p ∧ a ≠ n ∧ next a = some b) := by
    intro a b hab
    by_cases hap : a = p
    · subst a
      rw [insertAfter_self] at hab
      exact .inl ⟨rfl, (Option.some.inj hab).symm⟩
    · by_cases han : a = n
      · subst a
        rw [insertAfter_new hne] at hab
        exact .inr (.inl ⟨rfl, hab⟩)
      · rw [insertAfter_of_ne hap han] at hab
        exact .inr (.inr ⟨hap, han, hab⟩)
  intro i j k hi hj
  rcases hback i k hi with ⟨rfl, rfl⟩ | ⟨rfl, hpi⟩ | ⟨hip, _, hik⟩ <;>
    rcases hback j _ hj with ⟨rfl, hk⟩ | ⟨rfl, hpj⟩ | ⟨hjp, _, hjk⟩
  · rfl
  · exact absurd hpj (hn.first _)
  · exact absurd hjk (hn.first _)
  · exact absurd (hk ▸ hpi) (hn.first _)
  · rfl
  · exact absurd (h _ _ _ hjk hpi) hjp
  · exact absurd (hk ▸ hik) (hn.first _)
  · exact absurd (h _ _ _ hik hpj) hip
  · exact h _ _ _ hik hjk

theorem Chain.insertAfter (h : Chain next i l) (hn : Outside next n) (hin : i ≠ n) (hne : p ≠ n) :
    ∃ l', Chain (insertAfter next p n) i l' := by
  induction h with
  | @last i hi =>
    by_cases hip : i = p
    · subst i
      exact ⟨_, .cons insertAfter_self (.last ((insertAfter_new hne).trans hi))⟩
    · exact ⟨_, .last ((insertAfter_of_ne hip hin).trans hi)⟩
  | @cons i j l hj _ ih =>
    have hjn : j ≠ n := fun heq => hn.first i (heq ▸ hj)
    obtain ⟨l', hl'⟩ := ih hjn
    by_cases hip : i = p
    · subst i
      exact ⟨_, .cons insertAfter_self (.cons ((insertAfter_new hne).trans hj) hl')⟩
    · exact ⟨_, .cons ((insertAfter_of_ne hip hin).trans hj) hl'⟩

theorem Ends.insertAfter (h : Ends next) (hn : Outside next n) (hne : p ≠ n) :
    Ends (insertAfter next p n) := by
  intro i
  by_cases hin : i = n
  · subst i
    -- the chain of the new cell is that of `p` without `p`
    obtain ⟨l, hl⟩ := h p
    obtain ⟨l', hl'⟩ := hl.insertAfter hn hne hne
    cases hl' with
    | last hp => simp [insertAfter_self] at hp
    | cons hp hl' =>
      cases insertAfter_self.symm.trans hp
      exact ⟨_, hl'⟩
  · obtain ⟨l, hl⟩ := h i
    exact hl.insertAfter hn hin hne

/-- The cell `n` takes the place of `m`, the successor of `p`, and `m` leaves its chain. -/
def replace (next : I → Option I) (p m n : I) : I → Option I :=
  Function.update (Function.update (Function.update next p (some n)) n (next m)) m none

theorem replace_old : replace next p m n m = none := Function.update_self ..

theorem replace_new (hmn : m ≠ n) : replace next p m n n = next m := by simp [replace, hmn.symm]

theorem replace_prev (hpm : p ≠ m) (hpn : p ≠ n) : replace next p m n p = some n := by
  simp [replace, hpm, hpn]

theorem replace_of_ne (hp : i ≠ p) (hm : i ≠ m) (hn : i ≠ n) :
    replace next p m n i = next i := by
  simp [replace, hp, hm, hn]

namespace Replaceable
variable (h : Replaceable next p m n)
include h

theorem next_of_next (hij : next i = some j) (him : i ≠ m) :
    replace next p m n i = some (if j = m then n else j) := by
  have hin : i ≠ n := by
    rintro rfl
    simp [h.outside.last] at hij
  by_cases hip : i = p
  · subst i
    cases hij.symm.trans h.prev
    rw [replace_prev h.prev_ne_old h.prev_ne_new, if_pos rfl]
  · have hjm : j ≠ m := by
      rintro rfl
      exact hip (h.linear _ _ _ hij h.prev)
    rw [replace_of_ne hip him hin, hij, if_neg hjm]

theorem leads (hij : Leads next i j) (him : i ≠ m) :
    Leads (replace next p m n) i (if j = m then n else j) := by
  induction hij with
  | refl => rw [if_neg him]; exact .refl
  | @tail a b hia hab ih =>
    by_cases ham : a = m
    · -- behind `m` the chain goes on from `n`
      subst a
      rw [if_pos rfl] at ih
      have hbm : b ≠ m := by
        rintro rfl
        exact h.ends.next_ne hab
      rw [if_neg hbm]
      exact ih.trans (.single ((replace_new h.ne).trans hab))
    · rw [if_neg ham] at ih
      exact ih.trans (.single (h.next_of_next hab ham))

/-- What came behind the old cell comes behind the new one. -/
theorem leads_new (hmj : Leads next m j) (hne : j ≠ m) : Leads (replace next p m n) n j := by
  rcases Relation.ReflTransGen.cases_head hmj with heq | ⟨k, hmk, hkj⟩
  · exact absurd heq.symm hne
  · have hkm : k ≠ m := fun heq => h.ends.next_ne (heq ▸ hmk)
    have hleads := h.leads hkj hkm
    rw [if_neg hne] at hleads
    exact .head ((replace_new h.ne).trans hmk) hleads

theorem next_cases (hij : replace next p m n i = some j) :
    (i = p ∧ j = n) ∨ (i = n ∧ next m = some j) ∨
      (i ≠ p ∧ i ≠ m ∧ i ≠ n ∧ next i = some j) := by
  by_cases him : i = m
  · subst i
    simp [replace_old] at hij
  · by_cases hin : i = n
    · subst i
      rw [replace_new h.ne] at hij
      exact .inr (.inl ⟨rfl, hij⟩)
    · by_cases hip : i = p
      · subst i
        rw [replace_prev h.prev_ne_old h.prev_ne_new] at hij
        exact .inl ⟨rfl, (Option.some.inj hij).symm⟩
      · rw [replace_of_ne hip him hin] at hij
        exact .inr (.inr ⟨hip, him, hin, hij⟩)

theorem linear_replace : Linear (replace next p m n) := by
  intro i j k hi hj
  rcases h.next_cases hi with ⟨rfl, rfl⟩ | ⟨rfl, hmi⟩ | ⟨hip, him, _, hik⟩ <;>
    rcases h.next_cases hj with ⟨rfl, hk⟩ | ⟨rfl, hmj⟩ | ⟨hjp, hjm, _, hjk⟩
  · rfl
  · exact absurd hmj (h.outside.first _)
  · exact absurd hjk (h.outside.first _)
  · exact absurd (hk ▸ hmi) (h.outside.first _)
  · rfl
  · exact absurd (h.linear _ _ _ hjk hmi) hjm
  · exact absurd (hk ▸ hik) (h.outside.first _)
  · exact absurd (h.linear _ _ _ hik hmj) him
  · exact h.linear _ _ _ hik hjk

theorem outside_old : Outside (replace next p m n) m where
  last := replace_old
  first := by
    intro i hi
    rcases h.next_cases hi with ⟨_, heq⟩ | ⟨_, hm⟩ | ⟨hip, _, _, him⟩
    · exact h.ne heq
    · exact h.ends.next_ne hm
    · exact hip (h.linear _ _ _ him h.prev)

theorem chain (hl : Chain next i l) (hin : i ≠ n) :
    ∃ l', Chain (replace next p m n) (if i = m then n else i) l' := by
  induction hl with
  | @last i hi =>
    refine ⟨_, .last ?_⟩
    by_cases him : i = m
    · subst i
      rw [if_pos rfl, replace_new h.ne, hi]
    · have hip : i ≠ p := by
        rintro rfl
        simp [h.prev] at hi
      rw [if_neg him, replace_of_ne hip him hin, hi]
  | @cons i j l hj _ ih =>
    have hjn : j ≠ n := fun heq => h.outside.first i (heq ▸ hj)
    obtain ⟨l', hl'⟩ := ih hjn
    by_cases him : i = m
    · subst i
      have hjm : j ≠ m := fun heq => h.ends.next_ne (heq ▸ hj)
      rw [if_neg hjm] at hl'
      rw [if_pos rfl]
      exact ⟨_, .cons ((replace_new h.ne).trans hj) hl'⟩
    · rw [if_neg him]
      exact ⟨_, .cons (h.next_of_next hj him) hl'⟩

theorem ends_replace : Ends (replace next p m n) := by
  intro i
  obtain ⟨l, hl⟩ := h.ends i
  by_cases him : i = m
  · exact ⟨_, .last (him ▸ replace_old)⟩
  · by_cases hin : i = n
    · obtain ⟨l, hl⟩ := h.ends m
      simpa [hin] using h.chain hl h.ne
    · simpa [him] using h.chain hl hin

end Replaceable
end Update
end Chains
