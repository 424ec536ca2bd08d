import Mathlib.Data.Set.Insert

/-!
# Graphs of objects

What can be reached from some roots is the least set that contains the roots and everything that
its members refer to. To show that something stays out of reach it is enough to keep one such set
that does not contain it.
-/

namespace ObjectGraph

set_option autoImplicit false

universe u
variable {α : Type u} {refs refs' : α → List α} {roots roots' : List α} {X Y : Set α}

inductive Reach (refs : α → List α) (roots : List α) : α → Prop where
  | root {x : α} : x ∈ roots → Reach refs roots x
  | ref {x y : α} : Reach refs roots x → y ∈ refs x → Reach refs roots y

structure Closed (refs : α → List α) (roots : List α) (X : Set α) : Prop where
  roots : ∀ x ∈ roots, x ∈ X
  refs : ∀ x ∈ X, ∀ y ∈ refs x, y ∈ X

theorem closed_reach (refs : α → List α) (roots : List α) :
    Closed refs roots {x | Reach refs roots x} := by
  constructor
  · intro x hx
    exact .root hx
  · intro x hx y hy
    exact .ref hx hy

theorem Closed.reach (h : Closed refs roots X) {x : α} (hx : Reach refs roots x) : x ∈ X := by
  induction hx with
  | root hx => exact h.roots _ hx
  | ref _ hy ih => exact h.refs _ ih _ hy

theorem not_reach_nil {x : α} : ¬ Reach refs [] x := by
  intro h
  have hempty : Closed refs [] (∅ : Set α) := ⟨by simp, by simp⟩
  exact hempty.reach h

theorem Closed.inter (hX : Closed refs roots X) (hY : Closed refs roots Y) :
    Closed refs roots (X ∩ Y) := by
  constructor
  · intro x hx
    exact ⟨hX.roots x hx, hY.roots x hx⟩
  · rintro x ⟨hxX, hxY⟩ y hy
    exact ⟨hX.refs x hxX y hy, hY.refs x hxY y hy⟩

theorem Closed.union (hX : Closed refs roots X) (hY : Closed refs roots' Y) :
    Closed refs (roots ++ roots') (X ∪ Y) := by
  constructor
  · intro x hx
    rcases List.mem_append.mp hx with hx | hx
    · exact .inl (hX.roots x hx)
    · exact .inr (hY.roots x hx)
  · rintro x (hx | hx) y hy
    · exact .inl (hX.refs x hx y hy)
    · exact .inr (hY.refs x hx y hy)

theorem Closed.mono (h : Closed refs roots X) (hroots : ∀ x ∈ roots', x ∈ X)
    (hrefs : ∀ x ∈ X, ∀ y ∈ refs' x, y ∈ refs x) : Closed refs' roots' X := by
  constructor
  · exact hroots
  · intro x hx y hy
    exact h.refs x hx y (hrefs x hx y hy)

section Escapes
variable [DecidableEq α]

/-- What the marked objects of some kind refer to without its being marked. -/
def escapes (kind : α → Bool) (refs : α → List α) (marked : List α) : List α :=
  marked.flatMap fun x => if kind x then (refs x).filter (· ∉ marked) else []

/-- The marked objects and what escapes from them is closed, provided that the objects of the
other kinds refer to marked ones only. -/
theorem closed_marked {kind : α → Bool} {marked : List α} (hroots : ∀ x ∈ roots, x ∈ marked)
    (hrefs : ∀ x ∈ marked, kind x = false → ∀ y ∈ refs x, y ∈ marked) :
    Closed refs roots {x | x ∈ marked ∨ Reach refs (escapes kind refs marked) x} := by
  constructor
  · intro x hx
    exact .inl (hroots x hx)
  · rintro x (hx | hx) y hy
    · by_cases hy' : y ∈ marked
      · exact .inl hy'
      · cases hk : kind x with
        | false => exact absurd (hrefs x hx hk y hy) hy'
        | true =>
          refine .inr (.root (List.mem_flatMap.mpr ⟨x, hx, ?_⟩))
          rw [if_pos hk]
          exact List.mem_filter.mpr ⟨hy, by simpa using hy'⟩
    · exact .inr (.ref hx hy)

end Escapes
end ObjectGraph
