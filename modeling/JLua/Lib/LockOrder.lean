import JLua.Lib.Monitors
import Mathlib.Logic.Relation
import Mathlib.Order.Defs.PartialOrder

/-!
# Waiting for monitors

A thread first asks for a frame and enters it once the monitor is free; in between it waits for
the owner. If the monitors are ranked, and every thread asks only for monitors above all those it
owns, or for one it owns already, then no threads ever wait for each other in a cycle.
-/

namespace Monitors

open TransitionRuns
set_option autoImplicit false

universe u v w x
variable {T : Type u} {F : Type v} {M : Type w} {R : Type x}

/-- The frames that the threads are in, and the one that a thread waits to enter. -/
structure WaitConfig (T : Type u) (F : Type v) where
  frames : Config T F
  waiting : T → Option F

namespace WaitConfig

def idle : WaitConfig T F := ⟨Monitors.idle, fun _ => none⟩

variable [DecidableEq T]

def request (c : WaitConfig T F) (t : T) (f : F) : WaitConfig T F :=
  { c with waiting := Function.update c.waiting t (some f) }

def acquire (c : WaitConfig T F) (t : T) (f : F) : WaitConfig T F :=
  ⟨c.frames.enter t f, Function.update c.waiting t none⟩

def leave (c : WaitConfig T F) (t : T) (fs : List F) : WaitConfig T F :=
  { c with frames := Function.update c.frames t fs }

end WaitConfig

inductive WaitAction (T : Type u) (F : Type v) where
  | request (t : T) (f : F)
  | acquire (t : T)
  | leave (t : T)

/-- `mayCall` tells which frames the code of a thread asks for, given the stack it is in. -/
inductive WaitStep [DecidableEq T] (monitor : F → M) (mayCall : List F → F → Prop) :
    WaitConfig T F → WaitAction T F → WaitConfig T F → Prop where
  | request {c : WaitConfig T F} {t : T} {f : F} (running : c.waiting t = none)
      (may : mayCall (c.frames t) f) :
      WaitStep monitor mayCall c (.request t f) (c.request t f)
  | acquire {c : WaitConfig T F} {t : T} {f : F} (asked : c.waiting t = some f)
      (free : ∀ u, Owns monitor c.frames u (monitor f) → u = t) :
      WaitStep monitor mayCall c (.acquire t) (c.acquire t f)
  | leave {c : WaitConfig T F} {t : T} {f : F} {fs : List F} (running : c.waiting t = none)
      (top : c.frames t = f :: fs) :
      WaitStep monitor mayCall c (.leave t) (c.leave t fs)

variable (monitor : F → M)

def WaitsFor (c : WaitConfig T F) (t u : T) : Prop :=
  u ≠ t ∧ ∃ f, c.waiting t = some f ∧ Owns monitor c.frames u (monitor f)

def DeadlockFree (c : WaitConfig T F) : Prop :=
  ∀ t, ¬ Relation.TransGen (WaitsFor monitor c) t t

variable [LT R] (rank : M → R)

def Above (fs : List F) (f : F) : Prop :=
  (∃ g ∈ fs, monitor g = monitor f) ∨ ∀ g ∈ fs, rank (monitor g) < rank (monitor f)

def InOrder (c : WaitConfig T F) : Prop :=
  ∀ t f, c.waiting t = some f → Above monitor rank (c.frames t) f

def AsksInOrder (c : WaitConfig T F) : WaitAction T F → Prop
  | .request t f => Above monitor rank (c.frames t) f
  | _ => True

variable {monitor rank}

theorem inOrder_idle : InOrder monitor rank (WaitConfig.idle : WaitConfig T F) := by
  intro t f h
  cases h

section Step
variable [DecidableEq T] {mayCall : List F → F → Prop} {c c' : WaitConfig T F}
  {a : WaitAction T F}

theorem exclusive_waitStep (hc : Exclusive monitor c.frames) (h : WaitStep monitor mayCall c a c') :
    Exclusive monitor c'.frames := by
  cases h with
  | request => exact hc
  | acquire _ free => exact exclusive_step hc (.enter free)
  | leave _ top => exact exclusive_step hc (.leave top)

theorem inOrder_waitStep (hc : InOrder monitor rank c) (ok : AsksInOrder monitor rank c a)
    (h : WaitStep monitor mayCall c a c') : InOrder monitor rank c' := by
  intro u g hg
  cases h with
  | @request t f running may =>
    dsimp only [WaitConfig.request] at hg ⊢
    by_cases hut : u = t
    · subst u
      rw [Function.update_self, Option.some.injEq] at hg
      exact hg ▸ ok
    · rw [Function.update_of_ne hut] at hg
      exact hc u g hg
  | @acquire t f asked free =>
    dsimp only [WaitConfig.acquire] at hg ⊢
    by_cases hut : u = t
    · subst u
      rw [Function.update_self] at hg
      cases hg
    · rw [Function.update_of_ne hut] at hg
      rw [Config.enter, Function.update_of_ne hut]
      exact hc u g hg
  | @leave t f fs running top =>
    dsimp only [WaitConfig.leave] at hg ⊢
    by_cases hut : u = t
    · subst u
      rw [running] at hg
      cases hg
    · rw [Function.update_of_ne hut]
      exact hc u g hg

end Step

section Acyclic
variable {T : Type u} {F : Type v} {M : Type w} {R : Type x} {monitor : F → M}
  [Preorder R] {rank : M → R}

/-- A thread that owns what another one waits for, and waits itself, waits for something higher. -/
theorem WaitsFor.rank_lt {c : WaitConfig T F} {t u v : T} {f g : F}
    (hx : Exclusive monitor c.frames) (ho : InOrder monitor rank c) (htu : WaitsFor monitor c t u)
    (huv : WaitsFor monitor c u v) (hf : c.waiting t = some f) (hg : c.waiting u = some g) :
    rank (monitor f) < rank (monitor g) := by
  obtain ⟨_, f', hf', k, hk, hkf⟩ := htu
  obtain ⟨hvu, g', hg', hv⟩ := huv
  obtain rfl : f' = f := Option.some.inj (hf'.symm.trans hf)
  obtain rfl : g' = g := Option.some.inj (hg'.symm.trans hg)
  rcases ho u g' hg with hown | habove
  · exact absurd (hx v u _ hv hown) hvu
  · exact hkf ▸ habove k hk

/-- Along a chain of waiting threads the monitors they wait for rise. -/
theorem rank_lt_of_transGen {c : WaitConfig T F} (hx : Exclusive monitor c.frames)
    (ho : InOrder monitor rank c) {t u v : T} (h : Relation.TransGen (WaitsFor monitor c) t u)
    (huv : WaitsFor monitor c u v) {f g : F} (hf : c.waiting t = some f)
    (hg : c.waiting u = some g) : rank (monitor f) < rank (monitor g) := by
  induction h generalizing v g with
  | single htu => exact htu.rank_lt hx ho huv hf hg
  | @tail s u _ hsu ih =>
    obtain ⟨_, k, hk, _⟩ := id hsu
    exact lt_trans (ih hsu hk) (hsu.rank_lt hx ho huv hk hg)

theorem deadlockFree_of_inOrder {c : WaitConfig T F} (hx : Exclusive monitor c.frames)
    (ho : InOrder monitor rank c) : DeadlockFree monitor c := by
  intro t h
  obtain ⟨u, htu, _⟩ := (Relation.TransGen.head'_iff).mp h
  obtain ⟨_, f, hf, _⟩ := id htu
  exact lt_irrefl _ (rank_lt_of_transGen hx ho h htu hf hf)

/-- Threads that keep to the order never wait for each other in a cycle. -/
theorem deadlockFree_of_asksInOrder [DecidableEq T] {mayCall : List F → F → Prop}
    {log : List (WaitConfig T F × WaitAction T F)} {c : WaitConfig T F}
    (run : Run (WaitStep monitor mayCall) .idle log c)
    (ok : Meets (AsksInOrder monitor rank) log) : Visits (DeadlockFree monitor) log c := by
  have hv := run.visits_of_meets
    (P := fun c => Exclusive monitor c.frames ∧ InOrder monitor rank c)
    ⟨exclusive_idle, inOrder_idle⟩
    (fun _ _ _ hc hok h => ⟨exclusive_waitStep hc.1 h, inOrder_waitStep hc.2 hok h⟩) ok
  exact hv.imp fun c hc => deadlockFree_of_inOrder hc.1 hc.2

end Acyclic

end Monitors
