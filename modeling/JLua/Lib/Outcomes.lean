import Mathlib.Logic.Basic

/-!
# Outcomes of stateful code with exceptions

`Ends c s Q E` says how `c` ends when it is run in `s`: with a value and a state that satisfy `Q`,
or with an exception and a state that satisfy `E`. Both are known for every construct from its
parts, so that a run of straight line code is a sequence of rewriting steps.
-/

namespace OutcomeRules

set_option autoImplicit false

universe u
variable {ε σ α β : Type u} {s : σ} {Q Q' : α → σ → Prop} {R : β → σ → Prop} {E E' : ε → σ → Prop}

def Ends (c : EStateM ε σ α) (s : σ) (Q : α → σ → Prop) (E : ε → σ → Prop) : Prop :=
  match c s with
  | .ok a s' => Q a s'
  | .error e s' => E e s'

/-- Catches the exceptions of one kind; the state stays as the exception left it. -/
def catching (c : EStateM ε σ α) (kind : ε → Bool) (handler : ε → EStateM ε σ α) :
    EStateM ε σ α := fun s =>
  match c s with
  | .ok a s' => .ok a s'
  | .error e s' => if kind e then handler e s' else .error e s'

theorem ends_iff {c : EStateM ε σ α} : Ends c s Q E ↔
    (∀ a s', c s = .ok a s' → Q a s') ∧ ∀ e s', c s = .error e s' → E e s' := by
  unfold Ends
  cases c s <;> simp

theorem Ends.mono {c : EStateM ε σ α} (h : Ends c s Q E) (hQ : ∀ a s', Q a s' → Q' a s')
    (hE : ∀ e s', E e s' → E' e s') : Ends c s Q' E' := by
  unfold Ends at *
  cases hc : c s with
  | ok a s' => exact hQ a s' (by simpa only [hc] using h)
  | error e s' => exact hE e s' (by simpa only [hc] using h)

theorem Ends.and {c : EStateM ε σ α} (h : Ends c s Q E) (h' : Ends c s Q' E') :
    Ends c s (fun a s' => Q a s' ∧ Q' a s') (fun e s' => E e s' ∧ E' e s') := by
  rw [ends_iff] at *
  exact ⟨fun a s' hc => ⟨h.1 a s' hc, h'.1 a s' hc⟩, fun e s' hc => ⟨h.2 e s' hc, h'.2 e s' hc⟩⟩

@[simp] theorem ends_pure {a : α} : Ends (pure a) s Q E ↔ Q a s := Iff.rfl

@[simp] theorem ends_bind {c : EStateM ε σ α} {f : α → EStateM ε σ β} :
    Ends (c >>= f) s R E ↔ Ends c s (fun a s' => Ends (f a) s' R E) E := by
  simp only [Ends, bind, EStateM.bind]
  cases c s <;> rfl

@[simp] theorem ends_map {c : EStateM ε σ α} {f : α → β} :
    Ends (f <$> c) s R E ↔ Ends c s (fun a s' => R (f a) s') E := by
  simp only [Ends, Functor.map, EStateM.map]
  cases c s <;> rfl

@[simp] theorem ends_get {Q : σ → σ → Prop} : Ends (get : EStateM ε σ σ) s Q E ↔ Q s s := Iff.rfl

@[simp] theorem ends_catching {c : EStateM ε σ α} {kind : ε → Bool}
    {handler : ε → EStateM ε σ α} : Ends (catching c kind handler) s Q E ↔
      Ends c s Q (fun e s' => if kind e then Ends (handler e) s' Q E else E e s') := by
  simp only [Ends, catching]
  cases hc : c s with
  | ok => rfl
  | error e s' => by_cases hk : kind e <;> simp [hk]

@[simp] theorem ends_ite {p : Prop} [Decidable p] {c d : EStateM ε σ α} :
    Ends (if p then c else d) s Q E ↔ if p then Ends c s Q E else Ends d s Q E := by
  split <;> rfl

theorem bind_eq_ok_iff {c : EStateM ε σ α} {f : α → EStateM ε σ β} {s' : σ} {b : β} :
    (c >>= f) s = .ok b s' ↔ ∃ a s₁, c s = .ok a s₁ ∧ f a s₁ = .ok b s' := by
  simp only [bind, EStateM.bind]
  cases h : c s with
  | ok a s₁ =>
    refine ⟨fun hf => ⟨a, s₁, rfl, hf⟩, ?_⟩
    rintro ⟨_, _, ⟨⟩, hf⟩
    exact hf
  | error e s₁ =>
    refine ⟨fun hf => (by cases hf), ?_⟩
    rintro ⟨_, _, hc, _⟩
    cases hc

theorem bind_eq_error_iff {c : EStateM ε σ α} {f : α → EStateM ε σ β} {s' : σ} {e : ε} :
    (c >>= f) s = .error e s' ↔
      c s = .error e s' ∨ ∃ a s₁, c s = .ok a s₁ ∧ f a s₁ = .error e s' := by
  simp only [bind, EStateM.bind]
  cases h : c s with
  | ok a s₁ =>
    refine ⟨fun hf => Or.inr ⟨a, s₁, rfl, hf⟩, ?_⟩
    rintro (hc | ⟨_, _, ⟨⟩, hf⟩)
    · cases hc
    · exact hf
  | error e₁ s₁ => simp

theorem map_eq_ok_iff {c : EStateM ε σ α} {f : α → β} {s' : σ} {b : β} :
    (f <$> c) s = .ok b s' ↔ ∃ a, c s = .ok a s' ∧ f a = b := by
  simp only [Functor.map, EStateM.map]
  cases h : c s with
  | ok a s₁ =>
    constructor
    · intro hf
      cases hf
      exact ⟨a, rfl, rfl⟩
    · rintro ⟨_, ⟨⟩, rfl⟩
      rfl
  | error e s₁ => simp

/-! ### Runs of known parts -/

theorem bind_of_ok {c : EStateM ε σ α} {f : α → EStateM ε σ β} {s' : σ} {a : α}
    (h : c s = .ok a s') : (c >>= f) s = f a s' := by
  simp only [bind, EStateM.bind, h]

theorem bind_of_error {c : EStateM ε σ α} {f : α → EStateM ε σ β} {s' : σ} {e : ε}
    (h : c s = .error e s') : (c >>= f) s = .error e s' := by
  simp only [bind, EStateM.bind, h]

theorem map_eq_ok {c : EStateM ε σ α} {f : α → β} {s' : σ} {a : α} (h : c s = .ok a s') :
    (f <$> c) s = .ok (f a) s' := by
  simp only [Functor.map, EStateM.map, h]

theorem map_eq_error {c : EStateM ε σ α} {f : α → β} {s' : σ} {e : ε} (h : c s = .error e s') :
    (f <$> c) s = .error e s' := by
  simp only [Functor.map, EStateM.map, h]

theorem bind_congr_run {c d : EStateM ε σ α} (f : α → EStateM ε σ β) (h : c s = d s) :
    (c >>= f) s = (d >>= f) s := by
  simp only [bind, EStateM.bind, h]

theorem map_congr_run {c d : EStateM ε σ α} (f : α → β) (h : c s = d s) :
    (f <$> c) s = (f <$> d) s := by
  simp only [Functor.map, EStateM.map, h]

theorem ends_of_ok {c : EStateM ε σ α} {s' : σ} {a : α} (h : c s = .ok a s') :
    Ends c s Q E ↔ Q a s' := by
  unfold Ends
  rw [h]

theorem ends_of_error {c : EStateM ε σ α} {s' : σ} {e : ε} (h : c s = .error e s') :
    Ends c s Q E ↔ E e s' := by
  unfold Ends
  rw [h]

theorem catching_of_ok {c : EStateM ε σ α} {kind : ε → Bool} {handler : ε → EStateM ε σ α} {s' : σ}
    {a : α} (h : c s = .ok a s') : catching c kind handler s = .ok a s' := by
  simp only [catching, h]

theorem catching_of_error {c : EStateM ε σ α} {kind : ε → Bool} {handler : ε → EStateM ε σ α}
    {s' : σ} {e : ε} (h : c s = .error e s') :
    catching c kind handler s = if kind e then handler e s' else .error e s' := by
  simp only [catching, h]

/-- An exception of another kind is not caught. -/
theorem catching_of_other {c : EStateM ε σ α} {kind : ε → Bool} {handler : ε → EStateM ε σ α}
    {s' : σ} {e : ε} (h : c s = .error e s') (hkind : kind e = false) :
    catching c kind handler s = .error e s' := by
  rw [catching_of_error h, hkind, if_neg Bool.false_ne_true]

theorem get_bind (f : σ → EStateM ε σ α) (s : σ) : (get >>= f) s = f s s := rfl

/-! ### The values returned -/

/-- Whatever the state, a value that is returned satisfies `P`. -/
def Returns (c : EStateM ε σ α) (P : α → Prop) : Prop :=
  ∀ s, Ends c s (fun a _ => P a) fun _ _ => True

theorem returns_iff {c : EStateM ε σ α} {P : α → Prop} :
    Returns c P ↔ ∀ s a s', c s = .ok a s' → P a := by
  simp only [Returns, ends_iff, implies_true, and_true]

theorem returns_true (c : EStateM ε σ α) : Returns c fun _ => True :=
  returns_iff.mpr fun _ _ _ _ => trivial

theorem returns_pure {a : α} {P : α → Prop} (h : P a) :
    Returns (pure a : EStateM ε σ α) P := fun _ => h

theorem returns_throw (e : ε) (P : α → Prop) : Returns (throw e : EStateM ε σ α) P :=
  fun _ => trivial

theorem Returns.bind {c : EStateM ε σ α} {f : α → EStateM ε σ β} {P : α → Prop} {P' : β → Prop}
    (hc : Returns c P) (hf : ∀ a, P a → Returns (f a) P') : Returns (c >>= f) P' := fun s =>
  ends_bind.mpr ((hc s).mono (fun a s' ha => hf a ha s') fun _ _ => id)

theorem returns_bind {c : EStateM ε σ α} {f : α → EStateM ε σ β} {P : β → Prop}
    (hf : ∀ a, Returns (f a) P) : Returns (c >>= f) P :=
  (returns_true c).bind fun a _ => hf a

theorem Returns.map {c : EStateM ε σ α} {f : α → β} {P : α → Prop} {P' : β → Prop}
    (hc : Returns c P) (hf : ∀ a, P a → P' (f a)) : Returns (f <$> c) P' := fun s =>
  ends_map.mpr ((hc s).mono (fun a _ ha => hf a ha) fun _ _ => id)

theorem Returns.catching {c : EStateM ε σ α} {kind : ε → Bool} {handler : ε → EStateM ε σ α}
    {P : α → Prop} (hc : Returns c P) (hh : ∀ e, Returns (handler e) P) :
    Returns (catching c kind handler) P := fun s =>
  ends_catching.mpr ((hc s).mono (fun _ _ => id) fun e s' _ => by
    split
    · exact hh e s'
    · trivial)

end OutcomeRules
