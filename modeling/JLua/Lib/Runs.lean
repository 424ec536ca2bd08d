import Mathlib.Data.List.Basic

/-!
# Runs of labelled transition systems

A run logs every state it leaves together with the action taken there, so that "every step
meets the condition" and "in every state reached" are both statements about one list.
-/

namespace TransitionRuns

set_option autoImplicit false

universe u v
variable {S : Type u} {A : Type v}

/-- Finite runs, extended at the end; the log holds the states left and the actions taken. -/
inductive Run (step : S → A → S → Prop) (s₀ : S) : List (S × A) → S → Prop where
  | start : Run step s₀ [] s₀
  | next {log : List (S × A)} {s s' : S} {a : A} :
      Run step s₀ log s → step s a s' → Run step s₀ (log ++ [(s, a)]) s'

/-- Every step of the run satisfies `ok`. -/
def Meets (ok : S → A → Prop) (log : List (S × A)) : Prop := ∀ x ∈ log, ok x.1 x.2

/-- Every state of the run, the last one included, satisfies `P`. -/
def Visits (P : S → Prop) (log : List (S × A)) (s : S) : Prop := (∀ x ∈ log, P x.1) ∧ P s

@[simp] theorem meets_nil (ok : S → A → Prop) : Meets ok [] := by simp [Meets]

theorem meets_snoc {ok : S → A → Prop} {log : List (S × A)} {s : S} {a : A} :
    Meets ok (log ++ [(s, a)]) ↔ Meets ok log ∧ ok s a := by
  simp [Meets, or_imp, forall_and]

theorem visits_snoc {P : S → Prop} {log : List (S × A)} {s s' : S} {a : A} :
    Visits P (log ++ [(s, a)]) s' ↔ Visits P log s ∧ P s' := by
  simp [Visits, or_imp, forall_and]

theorem Visits.imp {P Q : S → Prop} {log : List (S × A)} {s : S} (h : Visits P log s)
    (himp : ∀ s, P s → Q s) : Visits Q log s :=
  ⟨fun x hx => himp x.1 (h.1 x hx), himp s h.2⟩

namespace Run
variable {step : S → A → S → Prop} {s₀ s : S} {log : List (S × A)} {P I : S → Prop}
  {ok : S → A → Prop}

theorem invariant (run : Run step s₀ log s) (init : P s₀)
    (preserved : ∀ s a s', P s → step s a s' → P s') : P s := by
  induction run with
  | start => exact init
  | next _ h ih => exact preserved _ _ _ ih h

/-- A property that the steps meeting `ok` preserve holds in every state of such a run. -/
theorem visits_of_meets (run : Run step s₀ log s) (init : P s₀)
    (preserved : ∀ s a s', P s → ok s a → step s a s' → P s') (hok : Meets ok log) :
    Visits P log s := by
  induction run with
  | start => exact ⟨by simp, init⟩
  | next _ h ih =>
    obtain ⟨hlog, hlast⟩ := meets_snoc.mp hok
    have hv := ih hlog
    exact visits_snoc.mpr ⟨hv, preserved _ _ _ hv.2 hlast h⟩

/-- When one step from a good state ends in a good state exactly if it meets `ok`, a run stays
good exactly if all its steps meet `ok`. `I` is what every run keeps, good or not. -/
theorem visits_iff_meets (run : Run step s₀ log s) (hI : I s₀) (init : P s₀)
    (keep : ∀ s a s', I s → step s a s' → I s')
    (exact_step : ∀ s a s', I s → P s → step s a s' → (P s' ↔ ok s a)) :
    Visits P log s ↔ Meets ok log := by
  induction run with
  | start => simp [Visits, init]
  | next run h ih =>
    rw [visits_snoc, meets_snoc, ← ih]
    constructor
    · rintro ⟨hv, hp⟩
      exact ⟨hv, (exact_step _ _ _ (run.invariant hI keep) hv.2 h).mp hp⟩
    · rintro ⟨hv, hok⟩
      exact ⟨hv, (exact_step _ _ _ (run.invariant hI keep) hv.2 h).mpr hok⟩

/-- What a step can only do from the states that runs reach. -/
theorem meets_of_step {ok ok' : S → A → Prop} (run : Run step s₀ log s) (init : I s₀)
    (keep : ∀ s a s', I s → step s a s' → I s')
    (h : ∀ s a s', I s → ok s a → step s a s' → ok' s a) (hok : Meets ok log) :
    Meets ok' log := by
  induction run with
  | start => exact meets_nil ok'
  | next run hstep ih =>
    obtain ⟨hlog, hlast⟩ := meets_snoc.mp hok
    exact meets_snoc.mpr ⟨ih hlog, h _ _ _ (run.invariant init keep) hlast hstep⟩

theorem one {a : A} {s' : S} (h : step s a s') : Run step s [(s, a)] s' := .next .start h

theorem trans {log' : List (S × A)} {s' : S} (run : Run step s₀ log s)
    (run' : Run step s log' s') : Run step s₀ (log ++ log') s' := by
  induction run' with
  | start => rwa [List.append_nil]
  | next _ h ih =>
    rw [← List.append_assoc]
    exact .next ih h

/-- A system whose steps another one can follow, with the same events, refines it: what can be
seen of its runs can be seen of runs of the other one. -/
theorem simulation {S' : Type*} {A' E : Type*} {step' : S' → A' → S' → Prop} {R : S → S' → Prop}
    {event : A → Option E} {event' : A' → Option E} {t₀ : S'}
    (follow : ∀ s a s' t, R s t → ok s a → step s a s' →
      ∃ log' t', Run step' t log' t' ∧ R s' t' ∧
        log'.filterMap (fun x => event' x.2) = (event a).toList)
    (run : Run step s₀ log s) (init : R s₀ t₀) (hok : Meets ok log) :
    ∃ log' t, Run step' t₀ log' t ∧ R s t ∧
      log'.filterMap (fun x => event' x.2) = log.filterMap fun x => event x.2 := by
  induction run with
  | start => exact ⟨[], t₀, .start, init, rfl⟩
  | next _ h ih =>
    obtain ⟨hlog, hlast⟩ := meets_snoc.mp hok
    obtain ⟨log₁, t₁, run₁, hR₁, hevents₁⟩ := ih hlog
    obtain ⟨log₂, t₂, run₂, hR₂, hevents₂⟩ := follow _ _ _ _ hR₁ hlast h
    refine ⟨log₁ ++ log₂, t₂, run₁.trans run₂, hR₂, ?_⟩
    rw [List.filterMap_append, List.filterMap_append, hevents₁, hevents₂]
    cases h : event _ <;> simp [h]

theorem imp {step' : S → A → S → Prop} (run : Run step s₀ log s)
    (h : ∀ s a s', step s a s' → step' s a s') : Run step' s₀ log s := by
  induction run with
  | start => exact .start
  | next _ hstep ih => exact .next ih (h _ _ _ hstep)

def Computes (next : S → A → Option S) (s : S) (a : A) (s' : S) : Prop := next s a = some s'

/-- The run through the given actions, with its log. -/
def trace (next : S → A → Option S) : List A → S → List (S × A) → Option (List (S × A) × S)
  | [], s, log => some (log, s)
  | a :: rest, s, log =>
    match next s a with
    | some s' => trace next rest s' (log ++ [(s, a)])
    | none => none

theorem of_trace {next : S → A → Option S} {actions : List A} {log' : List (S × A)} {s' : S}
    (run : Run (Computes next) s₀ log s) (h : trace next actions s log = some (log', s')) :
    Run (Computes next) s₀ log' s' := by
  induction actions generalizing s log with
  | nil =>
    obtain ⟨rfl, rfl⟩ := Prod.mk.inj (Option.some.inj h)
    exact run
  | cons a rest ih =>
    rw [trace] at h
    split at h
    · rename_i t ht
      exact ih (.next run ht) h
    · cases h

theorem actions_of_trace {next : S → A → Option S} {actions : List A} {log' : List (S × A)}
    {s' : S} (h : trace next actions s log = some (log', s')) :
    log'.map Prod.snd = log.map Prod.snd ++ actions := by
  induction actions generalizing s log with
  | nil =>
    obtain ⟨rfl, rfl⟩ := Prod.mk.inj (Option.some.inj h)
    simp
  | cons a rest ih =>
    rw [trace] at h
    split at h
    · rw [ih h]
      simp
    · cases h

/-- Actions that can be computed are a run of every system with these steps. -/
theorem exists_of_trace {next : S → A → Option S} {actions : List A} (p : S → Bool)
    (hstep : ∀ s a s', next s a = some s' → step s a s')
    (h : ((trace next actions s []).any fun last => p last.2) = true) :
    ∃ log s', Run step s log s' ∧ log.map Prod.snd = actions ∧ p s' = true := by
  obtain ⟨⟨log, s'⟩, htrace, hp⟩ := (Option.any_eq_true _ _).mp h
  exact ⟨log, s', (of_trace .start htrace).imp hstep, actions_of_trace htrace, hp⟩

end Run

end TransitionRuns
