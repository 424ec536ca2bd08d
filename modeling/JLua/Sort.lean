import JLua.Lib.Outcomes
import Mathlib.Algebra.Group.End
import Mathlib.Data.Int.Basic
import Mathlib.Logic.Equiv.Basic

/-!
# Sorting tables

`table.sort` is a quicksort on the integer keys of a table. The comparison is a function of the
script: it may raise an error, and its answers need not fit together. A good one sorts, and no one
makes a table lose a value.
-/

namespace JLua.Sort

open OutcomeRules
set_option autoImplicit false

/-- How a sort ends that does not come to its end. -/
inductive Failure (E : Type) where
  | luaError (message : String)
  | raised (e : E)
  | unfinished

/-- The values under the integer keys, and whatever the comparison keeps. -/
structure World (S V : Type) where
  t : Int → V
  state : S

variable {S E V : Type}

abbrev SortM (S E V X : Type) := EStateM (Failure E) (World S V) X

/-- The comparison that is given to `sort`, or `lua_lessthan`. It leaves the table alone. -/
abbrev Comparison (S E V : Type) := V → V → S → Except E Bool × S

def rawgeti (i : Int) : SortM S E V V := do return (← get).t i

/-- The value on top of the stack goes to `i`, the one below it to `j`. -/
def set2 (i j : Int) (top below : V) : SortM S E V Unit :=
  modify fun w => { w with t := Function.update (Function.update w.t i top) j below }

def sortComp (less : Comparison S E V) (a b : V) : SortM S E V Bool := fun w =>
  match less a b w.state with
  | (.ok answer, state) => .ok answer { w with state }
  | (.error e, state) => .error (.raised e) { w with state }

def invalidOrder : Failure E := .luaError "invalid order function for sorting"

/-- Repeats `++i` until `a[i] >= P`. No more rounds than there are indices up to `u + 1`. -/
def findUp (less : Comparison S E V) (u : Int) (P : V) : Nat → Int → SortM S E V (Int × V)
  | 0, _ => throw .unfinished
  | rounds + 1, i => do
    let x ← rawgeti (i + 1)
    if ← sortComp less x P then
      if u < i + 1 then throw invalidOrder else findUp less u P rounds (i + 1)
    else return (i + 1, x)

def findDown (less : Comparison S E V) (l : Int) (P : V) : Nat → Int → SortM S E V (Int × V)
  | 0, _ => throw .unfinished
  | rounds + 1, j => do
    let y ← rawgeti (j - 1)
    if ← sortComp less P y then
      if j - 1 < l then throw invalidOrder else findDown less l P rounds (j - 1)
    else return (j - 1, y)

/-- The loop around both. It gives the last `i`. -/
def partition (less : Comparison S E V) (l u : Int) (P : V) : Nat → Int → Int → SortM S E V Int
  | 0, _, _ => throw .unfinished
  | rounds + 1, i, j => do
    let (i, x) ← findUp less u P (u + 1 - i).toNat i
    let (j, y) ← findDown less l P (j + 1 - l).toNat j
    if j < i then return i
    else do
      set2 i j y x
      partition less l u P rounds i j

/-- The first comparison of `a[l]`, `a[(l+u)/2]` and `a[u]`. -/
def orderEnds (less : Comparison S E V) (l u : Int) : SortM S E V Unit := do
  let al ← rawgeti l
  let au ← rawgeti u
  if ← sortComp less au al then set2 l u au al else return ()

def median (less : Comparison S E V) (l i u : Int) : SortM S E V Unit := do
  let ai ← rawgeti i
  let al ← rawgeti l
  if ← sortComp less ai al then set2 i l al ai
  else do
    let au ← rawgeti u
    if ← sortComp less au ai then set2 i u au ai else return ()

/-- From the choice of the pivot to its place. -/
def split (less : Comparison S E V) (l i u : Int) : SortM S E V Int := do
  let P ← rawgeti i
  let x ← rawgeti (u - 1)
  set2 i (u - 1) x P
  let i ← partition less l u P (u - l).toNat l (u - 1)
  let p ← rawgeti (u - 1)
  let x ← rawgeti i
  set2 (u - 1) i x p
  return i

/-- `auxsort`: the smaller half is a call, the larger one the next round of the loop. A call and
a round both take one of the `rounds`; with answers that do not fit together there may be no end
of them. -/
def auxsort (less : Comparison S E V) : Nat → Int → Int → SortM S E V Unit
  | 0, l, u => if l < u then throw .unfinished else return ()
  | rounds + 1, l, u =>
    if l < u then do
      orderEnds less l u
      if u - l = 1 then return ()
      else do
        median less l ((l + u) / 2) u
        if u - l = 2 then return ()
        else do
          let i ← split less l ((l + u) / 2) u
          if i - l < u - i then do
            auxsort less rounds l (i - 1)
            auxsort less rounds (i + 1) u
          else do
            auxsort less rounds (i + 1) u
            auxsort less rounds l (i - 1)
    else return ()

/-- `table.sort` of a table of length `n`, which is at most `2 ^ 30`: beyond, `l + u` is no
`int`. -/
def sort (less : Comparison S E V) (rounds n : Nat) : SortM S E V Unit := auxsort less rounds 1 n

/-! ### Rearrangements -/

/-- The values from `l` to `u` in another order, and the others where they were. -/
def Permuted (l u : Int) (t t' : Int → V) : Prop :=
  ∃ p : Equiv.Perm Int, t' = t ∘ p ∧ ∀ k, k < l ∨ u < k → p k = k

variable {l u i j k : Int} {t t' t'' : Int → V} {w : World S V} {P x y : V}
  {less : Comparison S E V}

theorem Permuted.refl (l u : Int) (t : Int → V) : Permuted l u t t :=
  ⟨1, rfl, fun _ _ => rfl⟩

theorem Permuted.trans (h : Permuted l u t t') (h' : Permuted l u t' t'') :
    Permuted l u t t'' := by
  obtain ⟨p, rfl, hp⟩ := h
  obtain ⟨q, rfl, hq⟩ := h'
  refine ⟨p * q, rfl, fun k hk => ?_⟩
  rw [Equiv.Perm.mul_apply, hq k hk, hp k hk]

theorem Permuted.mono {l' u' : Int} (h : Permuted l u t t') (hl : l' ≤ l) (hu : u ≤ u') :
    Permuted l' u' t t' := by
  obtain ⟨p, rfl, hp⟩ := h
  exact ⟨p, rfl, fun k hk => hp k (by omega)⟩

theorem Permuted.outside (h : Permuted l u t t') (hk : k < l ∨ u < k) : t' k = t k := by
  obtain ⟨p, rfl, hp⟩ := h
  rw [Function.comp_apply, hp k hk]

theorem Permuted.forall (h : Permuted l u t t') (Q : V → Prop)
    (hQ : ∀ k, l ≤ k → k ≤ u → Q (t k)) (hl : l ≤ k) (hu : k ≤ u) : Q (t' k) := by
  obtain ⟨p, rfl, hp⟩ := h
  have hin : l ≤ p k ∧ p k ≤ u := by
    by_contra hout
    have hfix : p (p k) = p k := hp (p k) (by omega)
    have := p.injective hfix
    omega
  exact hQ (p k) hin.1 hin.2

def swapped (t : Int → V) (i j : Int) : Int → V :=
  Function.update (Function.update t i (t j)) j (t i)

theorem swapped_right (t : Int → V) (i j : Int) : swapped t i j j = t i := by
  rw [swapped, Function.update_self]

theorem swapped_left (t : Int → V) (i j : Int) : swapped t i j i = t j := by
  by_cases hij : i = j
  · rw [hij, swapped_right]
  · rw [swapped, Function.update_of_ne hij, Function.update_self]

theorem swapped_of_ne (t : Int → V) (hi : k ≠ i) (hj : k ≠ j) : swapped t i j k = t k := by
  rw [swapped, Function.update_of_ne hj, Function.update_of_ne hi]

theorem permuted_swapped (hi : l ≤ i ∧ i ≤ u) (hj : l ≤ j ∧ j ≤ u) :
    Permuted l u t (swapped t i j) := by
  refine ⟨Equiv.swap i j, ?_, fun k hk => ?_⟩
  · funext k
    rw [Function.comp_apply]
    by_cases hkj : k = j
    · rw [hkj, swapped_right, Equiv.swap_apply_right]
    · by_cases hki : k = i
      · rw [hki, swapped_left, Equiv.swap_apply_left]
      · rw [swapped_of_ne t hki hkj, Equiv.swap_apply_of_ne_of_ne hki hkj]
  · exact Equiv.swap_apply_of_ne_of_ne (by omega) (by omega)

/-! ### The parts -/

variable {Q : Bool → World S V → Prop} {R : Failure E → World S V → Prop}

@[simp] theorem ends_rawgeti {Q : V → World S V → Prop} :
    Ends (rawgeti i) w Q R ↔ Q (w.t i) w := Iff.rfl

@[simp] theorem ends_set2 {Q : Unit → World S V → Prop} : Ends (set2 i j x y) w Q R ↔
    Q () { w with t := Function.update (Function.update w.t i x) j y } := Iff.rfl

theorem ends_set2_swapped {Q : Unit → World S V → Prop} (t : Int → V) (hx : x = t j)
    (hy : y = t i) (ht : w.t = t) (h : Q () { w with t := swapped t i j }) :
    Ends (set2 i j x y) w Q R := by
  subst hx hy ht
  exact h

@[simp] theorem ends_throw {X : Type} {Q : X → World S V → Prop} {e : Failure E} :
    Ends (throw e) w Q R ↔ R e w := Iff.rfl

theorem ends_sortComp (hQ : ∀ answer st, Q answer { w with state := st })
    (hR : ∀ e st, R (.raised e) { w with state := st }) : Ends (sortComp less x y) w Q R := by
  unfold Ends sortComp
  rcases less x y w.state with ⟨_ | answer, st⟩
  · exact hR _ st
  · exact hQ answer st

/-! ### Any comparison -/

/-- A scan goes past `u` by one place at most, so it does not run out of rounds. -/
theorem findUp_any (rounds : Nat) (hi : i ≤ u) (hrounds : u < i + rounds) :
    Ends (findUp less u P rounds i) w
      (fun r w' => w'.t = w.t ∧ r.2 = w.t r.1 ∧ i < r.1 ∧ r.1 ≤ u + 1)
      (fun e w' => w'.t = w.t ∧ e ≠ .unfinished) := by
  induction rounds generalizing i w with
  | zero => omega
  | succ rounds ih =>
    simp only [findUp, ends_bind, ends_rawgeti]
    refine ends_sortComp (fun answer st => ?_) fun _ _ => ⟨rfl, fun h => by cases h⟩
    cases answer with
    | false => exact ⟨rfl, rfl, by omega, by omega⟩
    | true =>
      rw [if_pos rfl, ends_ite]
      split
      · exact ⟨rfl, fun h => by cases h⟩
      · refine (ih (by omega) (by omega)).mono ?_ fun _ _ h => h
        rintro r w' ⟨ht, hr, hlt, hle⟩
        exact ⟨ht, hr, by omega, hle⟩

theorem findDown_any (rounds : Nat) (hj : l ≤ j) (hrounds : j < l + rounds) :
    Ends (findDown less l P rounds j) w
      (fun r w' => w'.t = w.t ∧ r.2 = w.t r.1 ∧ r.1 < j ∧ l ≤ r.1 + 1)
      (fun e w' => w'.t = w.t ∧ e ≠ .unfinished) := by
  induction rounds generalizing j w with
  | zero => omega
  | succ rounds ih =>
    simp only [findDown, ends_bind, ends_rawgeti]
    refine ends_sortComp (fun answer st => ?_) fun _ _ => ⟨rfl, fun h => by cases h⟩
    cases answer with
    | false => exact ⟨rfl, rfl, by omega, by omega⟩
    | true =>
      rw [if_pos rfl, ends_ite]
      split
      · exact ⟨rfl, fun h => by cases h⟩
      · refine (ih (by omega) (by omega)).mono ?_ fun _ _ h => h
        rintro r w' ⟨ht, hr, hlt, hle⟩
        exact ⟨ht, hr, by omega, hle⟩

/-- Only places between `l` and `u` change, but the last `i` may be one past `u`. The two indices
come closer in each round. -/
theorem partition_any (rounds : Nat) (hi : l ≤ i ∧ i ≤ u) (hj : l ≤ j ∧ j ≤ u)
    (hrounds : 0 < rounds ∧ j ≤ i + rounds) :
    Ends (partition less l u P rounds i j) w
      (fun i' w' => Permuted l u w.t w'.t ∧ l < i' ∧ i' ≤ u + 1)
      (fun e w' => Permuted l u w.t w'.t ∧ e ≠ .unfinished) := by
  induction rounds generalizing i j w with
  | zero => omega
  | succ rounds ih =>
    simp only [partition, ends_bind]
    refine (findUp_any _ hi.2 (by omega)).mono ?_ fun _ w₁ h₁ =>
      ⟨h₁.1 ▸ Permuted.refl l u _, h₁.2⟩
    rintro ⟨i', x⟩ w₁ ⟨ht₁, hx, hlt, hle⟩
    refine (findDown_any _ hj.1 (by omega)).mono ?_ fun _ w₂ h₂ =>
      ⟨h₂.1 ▸ ht₁ ▸ Permuted.refl l u _, h₂.2⟩
    rintro ⟨j', y⟩ w₂ ⟨ht₂, hy, hlt', hle'⟩
    dsimp only at hx hlt hle hy hlt' hle' ⊢
    have ht : w₂.t = w.t := ht₂.trans ht₁
    rw [ends_ite]
    split
    · refine ends_pure.mpr ⟨ht ▸ Permuted.refl l u _, by omega, hle⟩
    · have hswap : Permuted l u w.t (swapped w.t i' j') :=
        permuted_swapped (by omega) (by omega)
      rw [ends_bind]
      refine ends_set2_swapped w.t (hy.trans (by rw [ht₁])) hx ht ?_
      refine (ih (by omega) (by omega) (by omega)).mono ?_ fun _ w₃ h₃ =>
        ⟨hswap.trans h₃.1, h₃.2⟩
      rintro i'' w₃ ⟨h₃, hb⟩
      exact ⟨hswap.trans h₃, hb⟩

/-- `c` moves values between `l` and `u` only, whether it comes to its end or not. -/
def Rearranges (c : SortM S E V Unit) (l u : Int) : Prop :=
  ∀ w, Ends c w (fun _ w' => Permuted l u w.t w'.t) fun _ w' => Permuted l u w.t w'.t

theorem Rearranges.mono {l' u' : Int} {c : SortM S E V Unit} (h : Rearranges c l u)
    (hl : l' ≤ l) (hu : u ≤ u') : Rearranges c l' u' := fun w =>
  (h w).mono (fun _ _ h => h.mono hl hu) fun _ _ h => h.mono hl hu

theorem Rearranges.seq {c d : SortM S E V Unit} (hc : Rearranges c l u) (hd : Rearranges d l u) :
    Rearranges (c >>= fun _ => d) l u := by
  intro w
  rw [ends_bind]
  refine (hc w).mono (fun _ w₁ h₁ => ?_) fun _ _ => id
  exact (hd w₁).mono (fun _ _ h₂ => h₁.trans h₂) fun _ _ h₂ => h₁.trans h₂

theorem rearranges_pure (l u : Int) : Rearranges (pure () : SortM S E V Unit) l u :=
  fun w => Permuted.refl l u w.t

theorem orderEnds_any (hlu : l ≤ u) :
    Rearranges (orderEnds less l u) l u := by
  intro w
  simp only [orderEnds, ends_bind, ends_rawgeti]
  refine ends_sortComp (fun answer st => ?_) fun _ st => Permuted.refl l u _
  cases answer with
  | true => exact permuted_swapped ⟨le_refl l, hlu⟩ ⟨hlu, le_refl u⟩
  | false => exact Permuted.refl l u _

theorem median_any (hl : l ≤ i) (hu : i ≤ u) :
    Rearranges (median less l i u) l u := by
  intro w
  simp only [median, ends_bind, ends_rawgeti]
  refine ends_sortComp (fun answer st => ?_) fun _ st => Permuted.refl l u _
  cases answer with
  | true => exact permuted_swapped ⟨hl, hu⟩ ⟨le_refl l, by omega⟩
  | false =>
    rw [if_neg Bool.false_ne_true]
    simp only [ends_bind, ends_rawgeti]
    refine ends_sortComp (fun answer st => ?_) fun _ st => Permuted.refl l u _
    cases answer with
    | true => exact permuted_swapped ⟨hl, hu⟩ ⟨by omega, le_refl u⟩
    | false => exact Permuted.refl l u _

/-- Between two rounds of `auxsort` everything comes to its end, with any comparison. -/
theorem split_any (hl : l ≤ i) (hi : i ≤ u) (hu : l + 2 ≤ u) :
    Ends (split less l i u) w
      (fun i' w' => Permuted l (u + 1) w.t w'.t ∧ l < i' ∧ i' ≤ u + 1)
      (fun e w' => Permuted l (u + 1) w.t w'.t ∧ e ≠ .unfinished) := by
  have hpivot : Permuted l u w.t (swapped w.t i (u - 1)) :=
    permuted_swapped ⟨hl, hi⟩ (by omega)
  simp only [split, ends_bind, ends_rawgeti, ends_set2]
  refine (partition_any _ (by omega) (by omega) (by omega)).mono ?_ fun _ w₁ h₁ =>
    ⟨(hpivot.trans h₁.1).mono (le_refl l) (by omega), h₁.2⟩
  rintro i' w₁ ⟨h₁, hlt, hle⟩
  exact ⟨((hpivot.trans h₁).mono (le_refl l) (by omega)).trans
    (permuted_swapped (by omega) (by omega)), hlt, hle⟩

/-- Whatever the comparison answers, and wherever it raises an error, the table has the same
values: those from `l` to `u + 1` in another order, and the others in place. -/
theorem auxsort_any (less : Comparison S E V) (rounds : Nat) (l u : Int) :
    Rearranges (auxsort less rounds l u) l (u + 1) := by
  induction rounds generalizing l u with
  | zero =>
    intro w
    simp only [auxsort, ends_ite]
    split
    · exact Permuted.refl _ _ _
    · exact Permuted.refl _ _ _
  | succ rounds ih =>
    by_cases hlu : l < u
    swap
    · rw [auxsort, if_neg hlu]
      exact rearranges_pure _ _
    rw [auxsort, if_pos hlu]
    refine ((orderEnds_any hlu.le).mono le_rfl (by omega)).seq ?_
    split
    · exact rearranges_pure _ _
    next hne =>
    refine ((median_any (by omega) (by omega)).mono le_rfl (by omega)).seq ?_
    split
    · exact rearranges_pure _ _
    next hne' =>
    intro w
    rw [ends_bind]
    refine (split_any (by omega) (by omega) (by omega)).mono ?_ fun _ _ => And.left
    rintro i w₁ ⟨h₁, hlt, hle⟩
    have left : Rearranges (auxsort less rounds l (i - 1)) l (u + 1) :=
      (ih l (i - 1)).mono le_rfl (by omega)
    have right : Rearranges (auxsort less rounds (i + 1) u) l (u + 1) :=
      (ih (i + 1) u).mono (by omega) le_rfl
    rw [ends_ite]
    split
    · exact (left.seq right w₁).mono (fun _ _ h => h₁.trans h) fun _ _ h => h₁.trans h
    · exact (right.seq left w₁).mono (fun _ _ h => h₁.trans h) fun _ _ h => h₁.trans h

/-- `table.sort` never loses a value and never makes one, with any comparison and however long it
goes on. -/
theorem sort_rearranges (less : Comparison S E V) (rounds n : Nat) :
    Rearranges (sort less rounds n) 1 (n + 1) :=
  auxsort_any less rounds 1 n

/-! ### A comparison that is an order -/

/-- A strict order in which what is not comparable is equivalent. -/
structure IsOrder (lt : V → V → Bool) : Prop where
  asymm : ∀ {a b}, lt a b = true → lt b a = false
  negTrans : ∀ {a b c}, lt a b = false → lt b c = false → lt a c = false

/-- The comparison answers by `lt`, whatever its own state is, and raises no error. -/
def Decides (less : Comparison S E V) (lt : V → V → Bool) : Prop :=
  ∀ st a b, (less a b st).1 = .ok (lt a b)

variable {lt : V → V → Bool}

theorem IsOrder.irrefl (h : IsOrder lt) (a : V) : lt a a = false := by
  cases haa : lt a a with
  | false => rfl
  | true => exact haa ▸ h.asymm haa

theorem Decides.ends_sortComp (h : Decides less lt)
    (hQ : ∀ st, Q (lt x y) { w with state := st }) : Ends (sortComp less x y) w Q R := by
  have hxy := h w.state x y
  unfold Ends sortComp
  rcases hless : less x y w.state with ⟨answer, st⟩
  rw [hless] at hxy
  dsimp only at hxy
  rw [hxy]
  exact hQ st

theorem findUp_good (hless : Decides less lt) (rounds : Nat) (hk : i < k ∧ k ≤ u)
    (hstop : lt (w.t k) P = false) (hrounds : k ≤ i + rounds) :
    Ends (findUp less u P rounds i) w
      (fun r w' => w'.t = w.t ∧ r.2 = w.t r.1 ∧ (i < r.1 ∧ r.1 ≤ k) ∧ lt (w.t r.1) P = false ∧
        ∀ m, i < m → m < r.1 → lt (w.t m) P = true)
      (fun _ _ => False) := by
  induction rounds generalizing i w with
  | zero => omega
  | succ rounds ih =>
    simp only [findUp, ends_bind, ends_rawgeti]
    refine hless.ends_sortComp fun st => ?_
    cases hlt : lt (w.t (i + 1)) P with
    | false => exact ⟨rfl, rfl, by omega, hlt, fun m h₁ h₂ => by omega⟩
    | true =>
      have hne : k ≠ i + 1 := by
        rintro rfl
        exact absurd hstop (by rw [hlt]; decide)
      rw [if_pos rfl, ends_ite, if_neg (show ¬u < i + 1 by omega)]
      refine Ends.mono (ih (by omega) hstop (by omega)) ?_ fun _ _ => id
      rintro r w' ⟨ht, hr, hb, hge, hbelow⟩
      refine ⟨ht, hr, by omega, hge, fun m h₁ h₂ => ?_⟩
      by_cases hm : m = i + 1
      · rw [hm, hlt]
      · exact hbelow m (by omega) h₂

theorem findDown_good (hless : Decides less lt) (rounds : Nat) (hk : l ≤ k ∧ k < j)
    (hstop : lt P (w.t k) = false) (hrounds : j ≤ k + rounds) :
    Ends (findDown less l P rounds j) w
      (fun r w' => w'.t = w.t ∧ r.2 = w.t r.1 ∧ (k ≤ r.1 ∧ r.1 < j) ∧ lt P (w.t r.1) = false ∧
        ∀ m, r.1 < m → m < j → lt P (w.t m) = true)
      (fun _ _ => False) := by
  induction rounds generalizing j w with
  | zero => omega
  | succ rounds ih =>
    simp only [findDown, ends_bind, ends_rawgeti]
    refine hless.ends_sortComp fun st => ?_
    cases hlt : lt P (w.t (j - 1)) with
    | false => exact ⟨rfl, rfl, by omega, hlt, fun m h₁ h₂ => by omega⟩
    | true =>
      have hne : k ≠ j - 1 := by
        rintro rfl
        exact absurd hstop (by rw [hlt]; decide)
      rw [if_pos rfl, ends_ite, if_neg (show ¬j - 1 < l by omega)]
      refine Ends.mono (ih (by omega) hstop (by omega)) ?_ fun _ _ => id
      rintro r w' ⟨ht, hr, hb, hle, habove⟩
      refine ⟨ht, hr, by omega, hle, fun m h₁ h₂ => ?_⟩
      by_cases hm : m = j - 1
      · rw [hm, hlt]
      · exact habove m h₁ (by omega)

/-- Nothing from `l` to `i` is above `P`, and nothing from `j` to `u` below. -/
structure Parted (lt : V → V → Bool) (l i j u : Int) (P : V) (t : Int → V) : Prop where
  low : ∀ k, l ≤ k → k ≤ i → lt P (t k) = false
  high : ∀ k, j ≤ k → k ≤ u → lt (t k) P = false

/-- Both scans have stopped: the stretches they passed belong to their sides. -/
theorem Parted.scanned {i' j' : Int} {t : Int → V} (hlt : IsOrder lt)
    (h : Parted lt l i j u P t) (hup : ∀ m, i < m → m < i' → lt (t m) P = true)
    (hdown : ∀ m, j' < m → m < j → lt P (t m) = true) :
    Parted lt l (i' - 1) (j' + 1) u P t where
  low k hk hk' := by
    by_cases hki : k ≤ i
    · exact h.low k hk hki
    · exact hlt.asymm (hup k (by omega) (by omega))
  high k hk hk' := by
    by_cases hkj : j ≤ k
    · exact h.high k hkj hk'
    · exact hlt.asymm (hdown k (by omega) (by omega))

theorem Parted.swapped {t : Int → V} (h : Parted lt l (i - 1) (j + 1) u P t) (hij : i ≤ j)
    (hi : lt (t i) P = false) (hj : lt P (t j) = false) :
    Parted lt l i j u P (swapped t i j) where
  low k hk hk' := by
    by_cases hki : k = i
    · rw [hki, swapped_left]
      exact hj
    · rw [swapped_of_ne t hki (by omega)]
      exact h.low k hk (by omega)
  high k hk hk' := by
    by_cases hkj : k = j
    · rw [hkj, swapped_right]
      exact hi
    · rw [swapped_of_ne t (by omega) hkj]
      exact h.high k (by omega) hk'

/-- Invariant: `a[l..i] <= P <= a[j..u]`. The places `l` and `u - 1` stop the scans. -/
theorem partition_good (hlt : IsOrder lt) (hless : Decides less lt) (rounds : Nat)
    (hi : l ≤ i ∧ i < u - 1) (hj : l < j ∧ j ≤ u - 1) (h : Parted lt l i j u P w.t)
    (hrounds : j ≤ l + rounds) :
    Ends (partition less l u P rounds i j) w
      (fun i' w' => Permuted l (u - 2) w.t w'.t ∧ (l < i' ∧ i' ≤ u - 1) ∧
        Parted lt l (i' - 1) i' u P w'.t)
      (fun _ _ => False) := by
  induction rounds generalizing i j w with
  | zero => omega
  | succ rounds ih =>
    simp only [partition, ends_bind]
    refine (findUp_good hless _ ⟨hi.2, by omega⟩ (h.high (u - 1) hj.2 (by omega))
      (by omega)).mono ?_ fun _ _ => id
    rintro ⟨i', x⟩ w₁ ⟨ht₁, hx, hb, hge, hup⟩
    rw [← ht₁] at h
    refine (findDown_good hless _ ⟨le_rfl, hj.1⟩ (h.low l le_rfl hi.1)
      (by omega)).mono ?_ fun _ _ => id
    rintro ⟨j', y⟩ w₂ ⟨ht₂, hy, hb', hle, hdown⟩
    dsimp only at hx hb hge hup hy hb' hle hdown ⊢
    rw [ht₁] at h hy hle hdown
    have ht : w₂.t = w.t := ht₂.trans ht₁
    have hscanned : Parted lt l (i' - 1) (j' + 1) u P w₂.t := by
      rw [ht]
      exact h.scanned hlt hup hdown
    rw [ends_ite]
    split
    next hji =>
      refine ends_pure.mpr ⟨ht ▸ Permuted.refl _ _ _, by omega, hscanned.low, fun k hk hk' => ?_⟩
      exact hscanned.high k (by omega) hk'
    next hji =>
      have hswap : Permuted l (u - 2) w.t (swapped w.t i' j') :=
        permuted_swapped (by omega) (by omega)
      rw [ht] at hscanned
      rw [ends_bind]
      refine ends_set2_swapped w.t hy hx ht ?_
      refine (ih (by omega) (by omega) (hscanned.swapped (by omega) hge hle)
        (by omega)).mono ?_ fun _ _ => id
      rintro i'' w₃ ⟨h₃, hb'', hparted⟩
      exact ⟨hswap.trans h₃, hb'', hparted⟩

theorem median_good (hlt : IsOrder lt) (hless : Decides less lt) (hl : l < i) (hu : i < u)
    (hends : lt (w.t u) (w.t l) = false) :
    Ends (median less l i u) w
      (fun _ w' => Permuted l u w.t w'.t ∧ lt (w'.t i) (w'.t l) = false ∧
        lt (w'.t u) (w'.t i) = false)
      (fun _ _ => False) := by
  simp only [median, ends_bind, ends_rawgeti]
  refine hless.ends_sortComp fun st => ?_
  rw [ends_ite]
  split
  next hil =>
    refine ends_set2_swapped w.t rfl rfl rfl
      ⟨permuted_swapped ⟨hl.le, hu.le⟩ ⟨le_refl l, by omega⟩, ?_, ?_⟩
    · dsimp only
      rw [swapped_left, swapped_right]
      exact hlt.asymm hil
    · dsimp only
      rw [swapped_of_ne w.t hu.ne' (by omega), swapped_left]
      exact hends
  next hil =>
    simp only [ends_bind, ends_rawgeti]
    refine hless.ends_sortComp fun st => ?_
    rw [ends_ite]
    split
    next hui =>
      refine ends_set2_swapped w.t rfl rfl rfl
        ⟨permuted_swapped ⟨hl.le, hu.le⟩ ⟨by omega, le_refl u⟩, ?_, ?_⟩
      · dsimp only
        rw [swapped_left, swapped_of_ne w.t hl.ne (by omega)]
        exact hends
      · dsimp only
        rw [swapped_right, swapped_left]
        exact hlt.asymm hui
    next hui =>
      exact ⟨Permuted.refl l u _, Bool.eq_false_iff.mpr hil, Bool.eq_false_iff.mpr hui⟩

theorem orderEnds_good (hlt : IsOrder lt) (hless : Decides less lt) (hlu : l < u) :
    Ends (orderEnds less l u) w
      (fun _ w' => Permuted l u w.t w'.t ∧ lt (w'.t u) (w'.t l) = false)
      (fun _ _ => False) := by
  simp only [orderEnds, ends_bind, ends_rawgeti]
  refine hless.ends_sortComp fun st => ?_
  rw [ends_ite]
  split
  next hul =>
    refine ends_set2_swapped w.t rfl rfl rfl
      ⟨permuted_swapped ⟨le_refl l, hlu.le⟩ ⟨hlu.le, le_refl u⟩, ?_⟩
    dsimp only
    rw [swapped_right, swapped_left]
    exact hlt.asymm hul
  next hul => exact ⟨Permuted.refl l u _, Bool.eq_false_iff.mpr hul⟩

/-- `a[l..i-1] <= a[i] <= a[i+1..u]`. -/
def PivotAt (lt : V → V → Bool) (l i u : Int) (t : Int → V) : Prop :=
  Parted lt l (i - 1) (i + 1) u (t i) t

theorem split_good (hlt : IsOrder lt) (hless : Decides less lt) (hl : l < i) (hi : i < u - 1)
    (hil : lt (w.t i) (w.t l) = false) (hui : lt (w.t u) (w.t i) = false) :
    Ends (split less l i u) w
      (fun i' w' => Permuted l u w.t w'.t ∧ (l < i' ∧ i' ≤ u - 1) ∧ PivotAt lt l i' u w'.t)
      (fun _ _ => False) := by
  have hpivot : Permuted l u w.t (swapped w.t i (u - 1)) :=
    permuted_swapped (by omega) (by omega)
  simp only [split, ends_bind, ends_rawgeti, ends_set2]
  have hparted : Parted lt l l (u - 1) u (w.t i) (swapped w.t i (u - 1)) := by
    constructor
    · intro k hk hk'
      obtain rfl : k = l := by omega
      rw [swapped_of_ne w.t hl.ne (by omega)]
      exact hil
    · intro k hk hk'
      by_cases hku : k = u - 1
      · rw [hku, swapped_right]
        exact hlt.irrefl _
      · obtain rfl : k = u := by omega
        rw [swapped_of_ne w.t (by omega) hku]
        exact hui
  refine (partition_good hlt hless _ ⟨le_rfl, by omega⟩ ⟨by omega, le_rfl⟩ hparted
    (by omega)).mono ?_ fun _ _ => id
  rintro i' w₁ ⟨h₁, hb, hlow, hhigh⟩
  have hP : w₁.t (u - 1) = w.t i := by
    rw [h₁.outside (by omega)]
    exact swapped_right w.t i (u - 1)
  refine ⟨(hpivot.trans (h₁.mono le_rfl (by omega))).trans
    (permuted_swapped (by omega) (by omega)), hb, ?_⟩
  change PivotAt lt l i' u (swapped w₁.t (u - 1) i')
  unfold PivotAt
  rw [swapped_right, hP]
  constructor
  · intro k hk hk'
    rw [swapped_of_ne w₁.t (by omega) (by omega)]
    exact hlow k hk hk'
  · intro k hk hk'
    by_cases hku : k = u - 1
    · rw [hku, swapped_left]
      exact hhigh i' le_rfl (by omega)
    · rw [swapped_of_ne w₁.t hku (by omega)]
      exact hhigh k (by omega) hk'

def Sorted (lt : V → V → Bool) (l u : Int) (t : Int → V) : Prop :=
  ∀ a b, l ≤ a → a ≤ b → b ≤ u → lt (t b) (t a) = false

theorem Sorted.congr {t t' : Int → V} (h : Sorted lt l u t)
    (ht : ∀ k, l ≤ k → k ≤ u → t' k = t k) : Sorted lt l u t' := by
  intro a b ha hab hb
  rw [ht a ha (by omega), ht b (by omega) hb]
  exact h a b ha hab hb

theorem sorted_of_le (hlt : IsOrder lt) (hul : u ≤ l) (t : Int → V) : Sorted lt l u t := by
  intro a b ha hab hb
  obtain rfl : a = b := by omega
  exact hlt.irrefl _

theorem PivotAt.sorted {t : Int → V} (hlt : IsOrder lt) (h : PivotAt lt l i u t)
    (hleft : Sorted lt l (i - 1) t) (hright : Sorted lt (i + 1) u t) : Sorted lt l u t := by
  have low : ∀ k, l ≤ k → k ≤ i → lt (t i) (t k) = false := fun k hk hk' => by
    rcases eq_or_lt_of_le hk' with rfl | hki
    · exact hlt.irrefl _
    · exact h.low k hk (by omega)
  have high : ∀ k, i ≤ k → k ≤ u → lt (t k) (t i) = false := fun k hk hk' => by
    rcases eq_or_lt_of_le hk with rfl | hki
    · exact hlt.irrefl _
    · exact h.high k (by omega) hk'
  intro a b ha hab hb
  by_cases hbi : b < i
  · exact hleft a b ha hab (by omega)
  · by_cases hai : i < a
    · exact hright a b (by omega) hab hb
    · exact hlt.negTrans (high b (by omega) hb) (low a ha (by omega))

theorem PivotAt.left (h : PivotAt lt l i u t) (hp : Permuted l (i - 1) t t') :
    PivotAt lt l i u t' := by
  have hi : t' i = t i := hp.outside (by omega)
  unfold PivotAt
  rw [hi]
  constructor
  · intro k hk hk'
    exact hp.forall (fun x => lt (t i) x = false) h.low hk hk'
  · intro k hk hk'
    rw [hp.outside (by omega)]
    exact h.high k hk hk'

theorem PivotAt.right (h : PivotAt lt l i u t) (hp : Permuted (i + 1) u t t') :
    PivotAt lt l i u t' := by
  have hi : t' i = t i := hp.outside (by omega)
  unfold PivotAt
  rw [hi]
  constructor
  · intro k hk hk'
    rw [hp.outside (by omega)]
    exact h.low k hk hk'
  · intro k hk hk'
    exact hp.forall (fun x => lt x (t i) = false) h.high hk hk'

/-- `c` comes to its end, with the values from `l` to `u` sorted and the others in place. -/
def Sorts (lt : V → V → Bool) (c : SortM S E V Unit) (l u : Int) : Prop :=
  ∀ w, Ends c w (fun _ w' => Permuted l u w.t w'.t ∧ Sorted lt l u w'.t) fun _ _ => False

theorem Sorts.left_right {c d : SortM S E V Unit} (hlt : IsOrder lt) (hi : l < i ∧ i < u)
    (hc : Sorts lt c l (i - 1)) (hd : Sorts lt d (i + 1) u) (h : PivotAt lt l i u w.t) :
    Ends (c >>= fun _ => d) w (fun _ w' => Permuted l u w.t w'.t ∧ Sorted lt l u w'.t)
      fun _ _ => False := by
  rw [ends_bind]
  refine (hc w).mono ?_ fun _ _ => id
  rintro _ w₁ ⟨h₁, hs₁⟩
  refine (hd w₁).mono ?_ fun _ _ => id
  rintro _ w₂ ⟨h₂, hs₂⟩
  refine ⟨(h₁.mono le_rfl (by omega)).trans (h₂.mono (by omega) le_rfl), ?_⟩
  refine ((h.left h₁).right h₂).sorted hlt (hs₁.congr fun k hk hk' => ?_) hs₂
  exact h₂.outside (by omega)

theorem Sorts.right_left {c d : SortM S E V Unit} (hlt : IsOrder lt) (hi : l < i ∧ i < u)
    (hc : Sorts lt c l (i - 1)) (hd : Sorts lt d (i + 1) u) (h : PivotAt lt l i u w.t) :
    Ends (d >>= fun _ => c) w (fun _ w' => Permuted l u w.t w'.t ∧ Sorted lt l u w'.t)
      fun _ _ => False := by
  rw [ends_bind]
  refine (hd w).mono ?_ fun _ _ => id
  rintro _ w₁ ⟨h₁, hs₁⟩
  refine (hc w₁).mono ?_ fun _ _ => id
  rintro _ w₂ ⟨h₂, hs₂⟩
  refine ⟨(h₁.mono (by omega) le_rfl).trans (h₂.mono le_rfl (by omega)), ?_⟩
  refine ((h.right h₁).left h₂).sorted hlt hs₂ (hs₁.congr fun k hk hk' => ?_)
  exact h₂.outside (by omega)

theorem auxsort_good (hlt : IsOrder lt) (hless : Decides less lt) (rounds : Nat)
    (hrounds : u ≤ l + rounds) : Sorts lt (auxsort less rounds l u) l u := by
  induction rounds generalizing l u with
  | zero =>
    intro w
    rw [auxsort, if_neg (by omega)]
    exact ⟨Permuted.refl l u _, sorted_of_le hlt (by omega) _⟩
  | succ rounds ih =>
    intro w
    by_cases hlu : l < u
    swap
    · rw [auxsort, if_neg hlu]
      exact ⟨Permuted.refl l u _, sorted_of_le hlt (by omega) _⟩
    rw [auxsort, if_pos hlu, ends_bind]
    refine (orderEnds_good hlt hless hlu).mono ?_ fun _ _ => id
    rintro _ w₁ ⟨h₁, hends⟩
    rw [ends_ite]
    split
    next htwo =>
      have hl : PivotAt lt l l u w₁.t := by
        refine ⟨fun k hk hk' => by omega, fun k hk hk' => ?_⟩
        obtain rfl : k = u := by omega
        exact hends
      exact ends_pure.mpr ⟨h₁, hl.sorted hlt (sorted_of_le hlt (by omega) _)
        (sorted_of_le hlt (by omega) _)⟩
    next htwo =>
    rw [ends_bind]
    refine (median_good hlt hless (by omega) (by omega) hends).mono ?_ fun _ _ => id
    rintro _ w₂ ⟨h₂, hil, hui⟩
    have h₁₂ : Permuted l u w.t w₂.t := h₁.trans h₂
    rw [ends_ite]
    split
    next hthree =>
      have hm : PivotAt lt l ((l + u) / 2) u w₂.t := by
        constructor
        · intro k hk hk'
          obtain rfl : k = l := by omega
          exact hil
        · intro k hk hk'
          obtain rfl : k = u := by omega
          exact hui
      exact ends_pure.mpr ⟨h₁₂, hm.sorted hlt (sorted_of_le hlt (by omega) _)
        (sorted_of_le hlt (by omega) _)⟩
    next hthree =>
    rw [ends_bind]
    refine (split_good hlt hless (by omega) (by omega) hil hui).mono ?_ fun _ _ => id
    rintro i w₃ ⟨h₃, hb, hpivot⟩
    have h₁₃ : Permuted l u w.t w₃.t := h₁₂.trans h₃
    have left : Sorts lt (auxsort less rounds l (i - 1)) l (i - 1) := ih (by omega)
    have right : Sorts lt (auxsort less rounds (i + 1) u) (i + 1) u := ih (by omega)
    rw [ends_ite]
    split
    · exact (left.left_right hlt (by omega) right hpivot).mono
        (fun _ _ h => ⟨h₁₃.trans h.1, h.2⟩) fun _ _ => id
    · exact (left.right_left hlt (by omega) right hpivot).mono
        (fun _ _ h => ⟨h₁₃.trans h.1, h.2⟩) fun _ _ => id

/-- `table.sort` with an order: no more than `n` rounds, the same values, no one below one that
comes before it, and nothing outside of the list is touched. -/
theorem sort_sorts (hlt : IsOrder lt) (hless : Decides less lt) {rounds n : Nat}
    (hrounds : n ≤ rounds) : Sorts lt (sort less rounds n) 1 n :=
  auxsort_good hlt hless rounds (by omega)

def counted : Comparison Nat Unit Nat := fun a b calls => (.ok (decide (a < b)), calls + 1)

theorem sort_sorts_counted : Sorts (fun a b => decide (a < b)) (sort counted 3 3) 1 3 :=
  sort_sorts ⟨by simp; omega, by simp; omega⟩ (fun _ _ _ => rfl) le_rfl

example : ((sort counted 5 5).run ⟨fun k => (7 * k % 5).toNat, 0⟩ |> fun
    | .ok _ w => [w.t 1, w.t 2, w.t 3, w.t 4, w.t 5]
    | .error _ _ => []) = [0, 1, 2, 3, 4] := by
  decide

end JLua.Sort
