import JLua.Lib.Runs
import Mathlib.Logic.Function.Basic

/-!
# Re-entrant monitors

Every thread is a stack of frames, newest first, and every frame holds the monitor it acquired
when it was entered. A thread may enter a frame whose monitor it already owns; any other thread
has to wait. Ownership is read off the stacks, so entering and leaving need no counters.
-/

namespace Monitors

open TransitionRuns
set_option autoImplicit false

universe u v w
variable {T : Type u} {F : Type v} {M : Type w}

abbrev Config (T : Type u) (F : Type v) := T → List F

def idle : Config T F := fun _ => []

def Config.enter [DecidableEq T] (c : Config T F) (t : T) (f : F) : Config T F :=
  Function.update c t (f :: c t)

inductive Action (T : Type u) (F : Type v) where
  | enter (t : T) (f : F)
  | leave (t : T)

variable (monitor : F → M)

def Owns (c : Config T F) (t : T) (m : M) : Prop := ∃ f ∈ c t, monitor f = m

inductive Step [DecidableEq T] : Config T F → Action T F → Config T F → Prop where
  | enter {c : Config T F} {t : T} {f : F}
      (free : ∀ u, Owns monitor c u (monitor f) → u = t) :
      Step c (.enter t f) (c.enter t f)
  | leave {c : Config T F} {t : T} {f : F} {fs : List F} (top : c t = f :: fs) :
      Step c (.leave t) (Function.update c t fs)

def Exclusive (c : Config T F) : Prop :=
  ∀ t u m, Owns monitor c t m → Owns monitor c u m → t = u

variable {monitor}

@[simp] theorem not_owns_idle (t : T) (m : M) : ¬ Owns monitor (idle : Config T F) t m := by
  simp [Owns, idle]

theorem owns_enter [DecidableEq T] {c : Config T F} {t u : T} {f : F} {m : M} :
    Owns monitor (c.enter t f) u m ↔ (u = t ∧ monitor f = m) ∨ Owns monitor c u m := by
  by_cases h : u = t
  · subst u
    simp [Owns, Config.enter]
  · simp [Owns, Config.enter, h]

theorem mem_enter [DecidableEq T] {c : Config T F} {t u : T} {f g : F} :
    g ∈ c.enter t f u ↔ (u = t ∧ g = f) ∨ g ∈ c u := by
  by_cases h : u = t
  · subst u
    simp [Config.enter]
  · simp [Config.enter, h]

theorem exclusive_idle : Exclusive monitor (idle : Config T F) :=
  fun t _ m ht => absurd ht (not_owns_idle t m)

theorem exclusive_step [DecidableEq T] {c c' : Config T F} {a : Action T F}
    (hc : Exclusive monitor c) (h : Step monitor c a c') : Exclusive monitor c' := by
  cases h with
  | @enter t f free =>
    intro u v m hu hv
    rcases owns_enter.mp hu with ⟨rfl, hm⟩ | hu'
    · rcases owns_enter.mp hv with ⟨rfl, _⟩ | hv'
      · rfl
      · exact (free v (hm ▸ hv')).symm
    · rcases owns_enter.mp hv with ⟨rfl, hm⟩ | hv'
      · exact free u (hm ▸ hu')
      · exact hc u v m hu' hv'
  | @leave t f fs top =>
    -- leaving a frame gives no thread a monitor it did not own
    have shrink : ∀ u m, Owns monitor (Function.update c t fs) u m → Owns monitor c u m := by
      rintro u m ⟨g, hg, hgm⟩
      refine ⟨g, ?_, hgm⟩
      by_cases h : u = t
      · subst u
        rw [Function.update_self] at hg
        exact top ▸ List.mem_cons_of_mem f hg
      · rwa [Function.update_of_ne h] at hg
    exact fun u v m hu hv => hc u v m (shrink u m hu) (shrink v m hv)

section Guarded
variable (monitor) (uses : F → Prop) (m : M)

/-- Each frame that uses the resource stands on a frame, or is one, that holds its guard `m`. -/
def Guarded : List F → Prop
  | [] => True
  | f :: fs => (uses f → ∃ g ∈ f :: fs, monitor g = m) ∧ Guarded fs

/-- Using the resource is entered with the guard `m` in hand, or by a frame that acquires it. -/
def EntersGuarded (c : Config T F) : Action T F → Prop
  | .enter t f => uses f → monitor f = m ∨ Owns monitor c t m
  | .leave _ => True

variable {monitor uses m}

theorem Guarded.owns {fs : List F} (h : Guarded monitor uses m fs) {f : F} (hf : f ∈ fs)
    (hu : uses f) : ∃ g ∈ fs, monitor g = m := by
  induction fs with
  | nil => simp at hf
  | cons g gs ih =>
    rcases List.mem_cons.mp hf with rfl | hf
    · exact h.1 hu
    · obtain ⟨k, hk, hkm⟩ := ih h.2 hf
      exact ⟨k, List.mem_cons_of_mem g hk, hkm⟩

theorem guarded_step [DecidableEq T] {c c' : Config T F} {a : Action T F}
    (hc : ∀ t, Guarded monitor uses m (c t)) (ok : EntersGuarded monitor uses m c a)
    (h : Step monitor c a c') : ∀ t, Guarded monitor uses m (c' t) := by
  cases h with
  | @enter t f free =>
    intro u
    by_cases hut : u = t
    · subst u
      rw [Config.enter, Function.update_self]
      refine ⟨fun hf => ?_, hc t⟩
      rcases ok hf with hm | ⟨g, hg, hgm⟩
      · exact ⟨f, List.mem_cons_self, hm⟩
      · exact ⟨g, List.mem_cons_of_mem f hg, hgm⟩
    · rw [Config.enter, Function.update_of_ne hut]
      exact hc u
  | @leave t f fs top =>
    intro u
    by_cases hut : u = t
    · subst u
      rw [Function.update_self]
      have hg := hc t
      rw [top] at hg
      exact hg.2
    · rw [Function.update_of_ne hut]
      exact hc u

def Alone (uses : F → Prop) (c : Config T F) : Prop :=
  ∀ t u, (∃ f ∈ c t, uses f) → (∃ f ∈ c u, uses f) → t = u

theorem alone_of_guarded {c : Config T F} (hx : Exclusive monitor c)
    (hg : ∀ t, Guarded monitor uses m (c t)) : Alone uses c := by
  rintro t u ⟨f, hf, hfu⟩ ⟨g, hg', hgu⟩
  exact hx t u m ((hg t).owns hf hfu) ((hg u).owns hg' hgu)

/-- A resource that is only ever entered under its guard has one user at a time. -/
theorem alone_of_entersGuarded [DecidableEq T] {log : List (Config T F × Action T F)}
    {c : Config T F} (run : Run (Step monitor) idle log c)
    (ok : Meets (EntersGuarded monitor uses m) log) :
    Visits (Alone uses) log c := by
  have hv := run.visits_of_meets
    (P := fun c => Exclusive monitor c ∧ ∀ t, Guarded monitor uses m (c t))
    ⟨exclusive_idle, fun _ => trivial⟩
    (fun _ _ _ hc hok h => ⟨exclusive_step hc.1 h, guarded_step hc.2 hok h⟩) ok
  exact ⟨fun x hx => alone_of_guarded (hv.1 x hx).1 (hv.1 x hx).2,
    alone_of_guarded hv.2.1 hv.2.2⟩

end Guarded

end Monitors
