import Mathlib.Data.List.Nodup
import Mathlib.Data.List.Perm.Subperm

/-!
# The first candidate that accepts

Candidates are tried one after the other until one accepts. A trial that rejects may change the
state that the next one finds, and a trial may also stop the search. The choice is the same for
every order of the candidates exactly if the candidates are unambiguous.
-/

namespace FirstMatch

set_option autoImplicit false

universe u v

inductive Trial (S : Type u) where
  | accepts
  | rejects (s : S)
  | stops

variable {M : Type v} {S : Type u} (trial : M → S → Trial S)

def choose : List M → S → Option M
  | [], _ => none
  | m :: ms, s =>
    match trial m s with
    | .accepts => some m
    | .rejects s' => choose ms s'
    | .stops => none

/-- All candidates of a list are rejected in turn, which leads from one state to another. -/
inductive Rejected : S → List M → S → Prop where
  | nil (s : S) : Rejected s [] s
  | cons {s s₁ s₂ : S} {m : M} {ms : List M} (hm : trial m s = .rejects s₁)
      (hms : Rejected s₁ ms s₂) : Rejected s (m :: ms) s₂

/-- Whether a candidate accepts does not depend on the others that were tried and rejected
before, and if it accepts then all others reject. -/
structure Unambiguous (ms : List M) (s : S) : Prop where
  stable : ∀ l s', Rejected trial s l s' → l.Nodup → l ⊆ ms → ∀ m ∈ ms, m ∉ l →
    (trial m s' = .accepts ↔ trial m s = .accepts)
  unique : ∀ l s', Rejected trial s l s' → l.Nodup → l ⊆ ms → ∀ m ∈ ms, m ∉ l →
    trial m s = .accepts → ∀ m' ∈ ms, m' ∉ l → m' ≠ m → ∃ s'', trial m' s' = .rejects s''

variable {trial} {ms ms' l : List M} {s s' : S} {m m' : M}

theorem mem_of_choose (h : choose trial ms s = some m) : m ∈ ms := by
  induction ms generalizing s with
  | nil => cases h
  | cons c ms ih =>
    cases hc : trial c s with
    | accepts =>
      simp only [choose, hc, Option.some.injEq] at h
      exact h ▸ List.mem_cons_self
    | rejects s₁ =>
      simp only [choose, hc] at h
      exact List.mem_cons_of_mem c (ih h)
    | stops => simp [choose, hc] at h

theorem choose_of_rejected (h : Rejected trial s l s') :
    choose trial (l ++ ms) s = choose trial ms s' := by
  induction h with
  | nil => rfl
  | cons hm _ ih => simpa only [List.cons_append, choose, hm] using ih

theorem choose_cons_eq_self_iff (hm : m ∉ ms) :
    choose trial (m :: ms) s = some m ↔ trial m s = .accepts := by
  cases hc : trial m s with
  | accepts => simp [choose, hc]
  | rejects s₁ => simpa [choose, hc] using fun h => hm (mem_of_choose h)
  | stops => simp [choose, hc]

theorem Rejected.snoc {s'' : S} (h : Rejected trial s l s') (hm : trial m s' = .rejects s'') :
    Rejected trial s (l ++ [m]) s'' := by
  induction h with
  | nil => exact .cons hm (.nil _)
  | cons hc _ ih => exact .cons hc (ih hm)

theorem Rejected.append {l' : List M} {s'' : S} (h : Rejected trial s l s')
    (h' : Rejected trial s' l' s'') : Rejected trial s (l ++ l') s'' := by
  induction h with
  | nil => exact h'
  | cons hm _ ih => exact .cons hm (ih h')

theorem exists_perm_append (hl : l.Nodup) (hsub : l ⊆ ms) : ∃ rest, (l ++ rest).Perm ms := by
  obtain ⟨k, hperm, hk⟩ := hl.subperm hsub
  obtain ⟨rest, hrest⟩ := hk.exists_perm_append
  exact ⟨rest, (hperm.symm.append_right rest).trans hrest.symm⟩

theorem unambiguous_of_same (hms : ms.Nodup)
    (same : ∀ ms', ms'.Perm ms → choose trial ms' s = choose trial ms s) :
    Unambiguous trial ms s where
  stable l s' hrej hl hsub m hm hml := by
    obtain ⟨rest, hfirst⟩ := exists_perm_append (List.nodup_cons.mpr ⟨hml, hl⟩)
      (List.cons_subset.mpr ⟨hm, hsub⟩)
    have hlast : (l ++ m :: rest).Perm ms := List.perm_middle.trans hfirst
    have hnot : m ∉ l ++ rest := (List.nodup_cons.mp (hfirst.nodup_iff.mpr hms)).1
    rw [← choose_cons_eq_self_iff (fun h => hnot (List.mem_append_right l h)),
      ← choose_of_rejected hrej, same _ hlast, ← same _ hfirst]
    exact choose_cons_eq_self_iff hnot
  unique l s' hrej hl hsub m hm hml hacc m' hm' hml' hne := by
    have hdistinct : (m' :: m :: l).Nodup := by
      simp only [List.nodup_cons, List.mem_cons, not_or]
      exact ⟨⟨hne, hml'⟩, hml, hl⟩
    obtain ⟨rest, hfirst⟩ := exists_perm_append hdistinct
      (List.cons_subset.mpr ⟨hm', List.cons_subset.mpr ⟨hm, hsub⟩⟩)
    have hlast : (l ++ m' :: m :: rest).Perm ms :=
      (List.perm_middle.trans (List.perm_middle.cons m')).trans hfirst
    have hchoose : choose trial (m' :: m :: rest) s' = some m := by
      rw [← choose_of_rejected hrej, same _ hlast,
        ← same _ ((List.Perm.swap m' m (l ++ rest)).trans hfirst)]
      simp [choose, hacc]
    cases htrial : trial m' s' with
    | accepts => simp [choose, htrial, hne] at hchoose
    | rejects s'' => exact ⟨s'', rfl⟩
    | stops => simp [choose, htrial] at hchoose

/-- After some candidates that were rejected, the one that accepts at first is chosen among the
others, if there is one. -/
theorem Unambiguous.choose_rest (h : Unambiguous trial ms s) (hms : ms.Nodup) (rest : List M)
    (hrej : Rejected trial s l s') (hperm : (l ++ rest).Perm ms) :
    (∀ m ∈ rest, trial m s = .accepts → choose trial rest s' = some m) ∧
      ((∀ m ∈ rest, trial m s ≠ .accepts) → choose trial rest s' = none) := by
  induction rest generalizing l s' with
  | nil => simp [choose]
  | cons c rest ih =>
    have hnodup : (l ++ c :: rest).Nodup := hperm.nodup_iff.mpr hms
    have hl : l.Nodup := (List.nodup_append'.mp hnodup).1
    have hsub : l ⊆ ms := fun x hx => hperm.subset (List.mem_append_left _ hx)
    have hmem : ∀ m ∈ c :: rest, m ∈ ms ∧ m ∉ l := fun m hm =>
      ⟨hperm.subset (List.mem_append_right l hm),
        fun hml => (List.nodup_append'.mp hnodup).2.2 hml hm⟩
    obtain ⟨hc, hcl⟩ := hmem c List.mem_cons_self
    have hstable := h.stable l s' hrej hl hsub c hc hcl
    have hstep : ∀ s'', trial c s' = .rejects s'' →
        (∀ m ∈ rest, trial m s = .accepts → choose trial rest s'' = some m) ∧
          ((∀ m ∈ rest, trial m s ≠ .accepts) → choose trial rest s'' = none) := by
      intro s'' hs''
      exact ih (hrej.append (.cons hs'' (.nil _))) (by simpa using hperm)
    constructor
    · intro m hm hacc
      by_cases hmc : m = c
      · subst hmc
        simp [choose, hstable.mpr hacc]
      · obtain ⟨s'', hs''⟩ := h.unique l s' hrej hl hsub m (hmem m hm).1 (hmem m hm).2 hacc c hc hcl
          (Ne.symm hmc)
        simp only [choose, hs'']
        exact (hstep s'' hs'').1 m ((List.mem_cons.mp hm).resolve_left hmc) hacc
    · intro hnone
      cases htrial : trial c s' with
      | accepts => exact absurd (hstable.mp htrial) (hnone c List.mem_cons_self)
      | rejects s'' =>
        simp only [choose, htrial]
        exact (hstep s'' htrial).2 fun m hm => hnone m (List.mem_cons_of_mem c hm)
      | stops => simp [choose, htrial]

/-- The choice is the same for every order exactly if the candidates are unambiguous. -/
theorem same_iff_unambiguous (hms : ms.Nodup) :
    (∀ ms', ms'.Perm ms → choose trial ms' s = choose trial ms s) ↔ Unambiguous trial ms s := by
  refine ⟨unambiguous_of_same hms, fun h ms' hperm => ?_⟩
  obtain ⟨hsome, hnone⟩ := h.choose_rest hms ms (.nil s) (List.Perm.refl ms)
  obtain ⟨hsome', hnone'⟩ := h.choose_rest hms ms' (.nil s) hperm
  by_cases hacc : ∃ m ∈ ms, trial m s = .accepts
  · obtain ⟨m, hm, hm'⟩ := hacc
    rw [hsome m hm hm', hsome' m (hperm.mem_iff.mpr hm) hm']
  · have hno : ∀ m ∈ ms, trial m s ≠ .accepts := fun m hm h => hacc ⟨m, hm, h⟩
    rw [hnone hno, hnone' fun m hm => hno m (hperm.mem_iff.mp hm)]

/-- The orders of the elements of one kind are those that the orders of all elements leave. -/
theorem forall_perm_filter_iff {p : M → Bool} {P : List M → Prop} :
    (∀ ms' : List M, ms'.Perm ms → P (ms'.filter p)) ↔
      ∀ cs : List M, cs.Perm (ms.filter p) → P cs := by
  refine ⟨fun h cs hcs => ?_, fun h ms' hms => h _ (hms.filter p)⟩
  have hkept : cs.filter p = cs := List.filter_eq_self.mpr fun c hc =>
    (List.mem_filter.mp (hcs.subset hc)).2
  have hothers : (ms.filter fun m => !p m).filter p = [] := by simp
  have hperm : (cs ++ ms.filter fun m => !p m).Perm ms :=
    (hcs.append_right _).trans (List.filter_append_perm p ms)
  simpa [List.filter_append, hkept, hothers] using h _ hperm

end FirstMatch
