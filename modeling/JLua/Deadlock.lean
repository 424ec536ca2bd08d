import JLua.Lib.LockOrder
import JLua.Locking
import Mathlib.Order.Nat

/-!
# Threads that wait for each other

Scripts on one Lua instance call Java methods, and those run scripts again. `_LdoFile` takes
`LuaState.class` and the callbacks of its script take the instance; a callback that calls
`doFile` takes the two in the other order. `LuaStateFactory.class` is only held by code that calls
nothing but the constructor of a state that nobody else knows yet.
-/

namespace JLua.Deadlock

open JLua.Locking Monitors TransitionRuns
set_option autoImplicit false

universe u v
variable {T : Type u} {σ : Type v}

/-- What Java code that works with the instance `S` may enter. -/
def JavaCode (S : σ) : Frame σ → Prop
  | .native _ L => L = S
  | .block _ L => L = S
  | .factory _ => True
  | .xmove _ _ => False

/-- What a thread enters from the frame on top of its stack. A native method on `S` may run Lua
code, which calls Java code. -/
def Calls (S : σ) : List (Frame σ) → Frame σ → Prop
  | [], f => JavaCode S f
  | .native _ L :: _, f => L = S ∧ JavaCode S f
  | .block _ L :: _, f => L = S ∧ JavaCode S f
  | .factory _ :: _, .factory n => n = .getNextStateIndex
  | .factory m :: _, .native n L => m = .newLuaState ∧ L ≠ S ∧ (n = ._open ∨ n = .jlua_open)
  | .factory _ :: _, _ => False
  | .xmove _ _ :: _, _ => False

/-- A thread that owns the instance calls `doFile` only if it owns `LuaState.class` as well. -/
def FileFirst (S : σ) (c : WaitConfig T (Frame σ)) : WaitAction T (Frame σ) → Prop
  | .request t (.native ._LdoFile _) =>
    Owns monitor c.frames t (.instance S) → Owns monitor c.frames t .luaStateClass
  | _ => True

/-- The order in which the monitors are acquired. -/
def rank [DecidableEq σ] (S : σ) : Monitor σ → Nat
  | .luaStateClass => 0
  | .instance L => if L = S then 1 else 3
  | .luaStateFactoryClass => 2

def WellNested (S : σ) : List (Frame σ) → Prop
  | [] => True
  | f :: fs => Calls S fs f ∧ WellNested S fs

/-- The code on top is Java code that works with `S`, or may call it. -/
def RunsJava (S : σ) : List (Frame σ) → Prop
  | [] => True
  | f :: _ => JavaCode S f ∧ ∀ m, f ≠ .factory m

theorem runsJava_of_calls {S : σ} {fs : List (Frame σ)} {f : Frame σ} (hf : RunsJava S (f :: fs))
    (h : Calls S fs f) : RunsJava S fs := by
  obtain ⟨hjava, hfactory⟩ := hf
  cases fs with
  | nil => trivial
  | cons g gs =>
    cases g with
    | native n L => exact ⟨h.1, by simp⟩
    | xmove source target => exact h.elim
    | block b L => exact ⟨h.1, by simp⟩
    | factory m => cases f <;> simp_all [Calls, JavaCode]

section Rank
variable [DecidableEq σ] {S : σ} {fs : List (Frame σ)} {f : Frame σ}

theorem rank_le_one (hn : WellNested S fs) (hj : RunsJava S fs) :
    ∀ g ∈ fs, rank S (monitor g) ≤ 1 := by
  induction fs with
  | nil => simp
  | cons f fs ih =>
    intro g hg
    rcases List.mem_cons.mp hg with rfl | hg
    · obtain ⟨hjava, hfactory⟩ := hj
      cases g with
      | native n L =>
        obtain rfl : L = S := hjava
        rw [monitor]
        split <;> simp [rank]
      | xmove source target => exact hjava.elim
      | block b L =>
        obtain rfl : L = S := hjava
        simp [monitor, rank]
      | factory m => exact absurd rfl (hfactory m)
    · exact ih hn.2 (runsJava_of_calls hj hn.1) g hg

theorem monitor_of_rank_le_one {m : Monitor σ} (h : rank S m ≤ 1) :
    m = .luaStateClass ∨ m = .instance S := by
  cases m with
  | «instance» L =>
    by_cases hL : L = S
    · exact Or.inr (by rw [hL])
    · simp [rank, hL] at h
  | luaStateClass => exact Or.inl rfl
  | luaStateFactoryClass => simp [rank] at h

theorem above_of_javaCode (hn : WellNested S fs) (hj : RunsJava S fs) (hf : JavaCode S f)
    (hfile : monitor f = .luaStateClass → (∃ g ∈ fs, monitor g = .instance S) →
      ∃ g ∈ fs, monitor g = .luaStateClass) : Above monitor (rank S) fs f := by
  have hlow : ∀ g ∈ fs, monitor g = .luaStateClass ∨ monitor g = .instance S :=
    fun g hg => monitor_of_rank_le_one (rank_le_one hn hj g hg)
  by_cases hown : ∃ g ∈ fs, monitor g = monitor f
  · exact Or.inl hown
  · refine Or.inr fun g hg => ?_
    have hne : monitor g ≠ monitor f := fun h => hown ⟨g, hg, h⟩
    have hmonitor : monitor f = .luaStateClass ∨ monitor f = .instance S ∨
        monitor f = .luaStateFactoryClass := by
      cases f with
      | native n L =>
        obtain rfl : L = S := hf
        by_cases hs : n.isStatic <;> simp [monitor, hs]
      | xmove source target => exact hf.elim
      | block b L =>
        obtain rfl : L = S := hf
        exact Or.inr (Or.inl rfl)
      | factory m => exact Or.inr (Or.inr rfl)
    rcases hmonitor with hclass | hinstance | hfactory
    · rcases hlow g hg with h | h
      · exact absurd (h.trans hclass.symm) hne
      · exact absurd (hclass ▸ hfile hclass ⟨g, hg, h⟩) hown
    · rcases hlow g hg with h | h
      · simp [h, hinstance, rank]
      · exact absurd (h.trans hinstance.symm) hne
    · rcases hlow g hg with h | h <;> simp [h, hfactory, rank]

theorem above_of_calls (hn : WellNested S fs) (hc : Calls S fs f)
    (hfile : monitor f = .luaStateClass → (∃ g ∈ fs, monitor g = .instance S) →
      ∃ g ∈ fs, monitor g = .luaStateClass) : Above monitor (rank S) fs f := by
  cases fs with
  | nil => exact above_of_javaCode hn trivial hc hfile
  | cons g gs =>
    cases g with
    | native n L => exact above_of_javaCode hn ⟨hc.1, by simp⟩ hc.2 hfile
    | xmove source target => exact hc.elim
    | block b L => exact above_of_javaCode hn ⟨hc.1, by simp⟩ hc.2 hfile
    | factory m =>
      cases f with
      | factory n => exact Or.inl ⟨_, List.mem_cons_self, rfl⟩
      | xmove source target => exact hc.elim
      | block b L => exact hc.elim
      | native n L =>
        -- the constructor of a new state, whose monitor nobody else has
        obtain ⟨rfl, hL, hopen⟩ := hc
        have hmonitor : monitor (Frame.native n L) = .instance L := by
          rcases hopen with rfl | rfl <;> rfl
        refine Or.inr fun k hk => ?_
        rw [hmonitor]
        simp only [rank, hL, if_false]
        rcases List.mem_cons.mp hk with rfl | hk
        · simp [monitor]
        · have hjava : RunsJava S gs := by
            cases gs with
            | nil => trivial
            | cons h hs =>
              cases h with
              | native | block => exact ⟨hn.1.1, by simp⟩
              | xmove => exact hn.1.elim
              | factory => cases hn.1
          exact Nat.lt_of_le_of_lt (rank_le_one hn.2 hjava k hk) (by decide)

end Rank

section Runs
variable [DecidableEq T] {S : σ}

def Nested (S : σ) (c : WaitConfig T (Frame σ)) : Prop :=
  ∀ t, WellNested S (c.frames t) ∧ ∀ f, c.waiting t = some f → Calls S (c.frames t) f

theorem nested_step {c c' : WaitConfig T (Frame σ)} {a : WaitAction T (Frame σ)}
    (hc : Nested S c) (h : WaitStep monitor (Calls S) c a c') : Nested S c' := by
  intro u
  cases h with
  | @request t f running may =>
    dsimp only [WaitConfig.request]
    by_cases hut : u = t
    · subst u
      refine ⟨(hc t).1, fun g hg => ?_⟩
      rw [Function.update_self, Option.some.injEq] at hg
      exact hg ▸ may
    · rw [Function.update_of_ne hut]
      exact hc u
  | @acquire t f asked free =>
    dsimp only [WaitConfig.acquire, Config.enter]
    by_cases hut : u = t
    · subst u
      rw [Function.update_self, Function.update_self]
      exact ⟨⟨(hc t).2 f asked, (hc t).1⟩, by simp⟩
    · rw [Function.update_of_ne hut, Function.update_of_ne hut]
      exact hc u
  | @leave t f fs running top =>
    dsimp only [WaitConfig.leave]
    by_cases hut : u = t
    · subst u
      have hn := (hc t).1
      rw [top] at hn
      rw [Function.update_self]
      exact ⟨hn.2, fun g hg => by rw [running] at hg; cases hg⟩
    · rw [Function.update_of_ne hut]
      exact hc u

theorem asksInOrder_of_fileFirst [DecidableEq σ] {c c' : WaitConfig T (Frame σ)}
    {a : WaitAction T (Frame σ)} (hc : Nested S c) (hfile : FileFirst S c a)
    (h : WaitStep monitor (Calls S) c a c') : AsksInOrder monitor (rank S) c a := by
  cases h with
  | acquire | leave => trivial
  | @request t f running may =>
    refine above_of_calls (hc t).1 may fun hclass => ?_
    cases f with
    | native n L =>
      obtain rfl : n = ._LdoFile := by
        cases n <;> simp_all [monitor, NativeMethod.isStatic]
      exact hfile
    | xmove | block | factory => cases hclass

/-- If no thread that owns the instance calls `doFile` without owning `LuaState.class` too, no
threads ever wait for each other in a cycle. -/
theorem deadlockFree_of_fileFirst [DecidableEq σ]
    {log : List (WaitConfig T (Frame σ) × WaitAction T (Frame σ))} {c : WaitConfig T (Frame σ)}
    (run : Run (WaitStep monitor (Calls S)) .idle log c) (ok : Meets (FileFirst S) log) :
    Visits (DeadlockFree monitor) log c :=
  deadlockFree_of_asksInOrder run
    (run.meets_of_step (fun _ => ⟨trivial, by simp [WaitConfig.idle]⟩)
      (fun _ _ _ => nested_step) (fun _ _ _ => asksInOrder_of_fileFirst) ok)

/-- Once a thread that owns the instance waits for `doFile`, the thread that runs one only has to
make its next callback. -/
theorem deadlock_of_waiting_for_LdoFile {c : WaitConfig T (Frame σ)} {t u : T} (hut : u ≠ t)
    (ht : c.waiting t = some (.native ._LdoFile S)) (hown : Owns monitor c.frames t (.instance S))
    (hu : c.waiting u = none) (hclass : Owns monitor c.frames u .luaStateClass)
    (hjava : Calls S (c.frames u) (.block .objectIndex S)) :
    ∃ c', WaitStep monitor (Calls S) c (.request u (.block .objectIndex S)) c' ∧
      ¬ DeadlockFree monitor c' := by
  refine ⟨_, .request hu hjava, fun hfree => hfree t ?_⟩
  have htu : WaitsFor monitor (c.request u (.block .objectIndex S)) t u :=
    ⟨hut, _, (Function.update_of_ne hut.symm _ _).trans ht, hclass⟩
  have hback : WaitsFor monitor (c.request u (.block .objectIndex S)) u t :=
    ⟨hut.symm, _, Function.update_self .., hown⟩
  exact .tail (.single htu) hback

end Runs

/-- A script run by `doFile` calls a Java method that runs another file. -/
theorem deadlockFree_of_fileFirst_nested :
    ∃ log c, Run (WaitStep monitor (Calls 0)) (.idle : WaitConfig Nat (Frame Nat)) log c ∧
      log.map Prod.snd = [.request 1 (.native ._LdoFile 0), .acquire 1,
        .request 1 (.block .objectIndex 0), .acquire 1, .request 1 (.native ._LdoFile 0)] ∧
      Visits (DeadlockFree monitor) log c := by
  have run₁ : Run (WaitStep monitor (Calls 0)) .idle _ _ :=
    .next .start (.request (t := 1) (f := Frame.native ._LdoFile 0) rfl (by exact rfl))
  have run₂ := run₁.next (.acquire (t := 1) rfl fun u hu => absurd hu (not_owns_idle u _))
  have run₃ := run₂.next (.request (t := 1) (f := .block .objectIndex 0) rfl (by exact ⟨rfl, rfl⟩))
  have run₄ := run₃.next (.acquire (t := 1) rfl fun u hu =>
    (owns_enter.mp hu).elim And.left fun hu => absurd hu (not_owns_idle u _))
  have run₅ := run₄.next (.request (t := 1) (f := .native ._LdoFile 0) rfl (by exact ⟨rfl, rfl⟩))
  refine ⟨_, _, run₅, rfl, deadlockFree_of_fileFirst run₅ ?_⟩
  simp only [meets_snoc, meets_nil, FileFirst, true_and, and_true]
  exact ⟨fun h => absurd h (not_owns_idle 1 _), fun _ => ⟨.native ._LdoFile 0, by simp
    [WaitConfig.request, WaitConfig.acquire, Config.enter], rfl⟩⟩

/-- One thread runs a file and another one a string. The script of the second calls a Java method
that runs a file, and the script of the first makes a callback. -/
theorem LdoFile_LdoString_deadlock :
    ∃ log c, Run (WaitStep monitor (Calls 0)) (.idle : WaitConfig Nat (Frame Nat)) log c ∧
      ¬ DeadlockFree monitor c := by
  have run₁ : Run (WaitStep monitor (Calls 0)) .idle _ _ :=
    .next .start (.request (t := 1) (f := Frame.native ._LdoFile 0) rfl (by exact rfl))
  have run₂ := run₁.next (.acquire (t := 1) rfl fun u hu => absurd hu (not_owns_idle u _))
  have run₃ := run₂.next (.request (t := 2) (f := .native ._LdoString 0) rfl (by exact rfl))
  have run₄ := run₃.next (.acquire (t := 2) rfl fun u hu => by
    simp [WaitConfig.request, WaitConfig.acquire, WaitConfig.idle, owns_enter, monitor,
      NativeMethod.isStatic] at hu)
  have run₅ := run₄.next (.request (t := 2) (f := .block .objectIndex 0) rfl (by exact ⟨rfl, rfl⟩))
  have run₆ := run₅.next (.acquire (t := 2) rfl fun u hu => by
    simpa [WaitConfig.request, WaitConfig.acquire, WaitConfig.idle, owns_enter, monitor,
      NativeMethod.isStatic] using hu)
  have run₇ := run₆.next (.request (t := 2) (f := .native ._LdoFile 0) rfl (by exact ⟨rfl, rfl⟩))
  have run₈ := run₇.next (.request (t := 1) (f := .block .objectIndex 0) rfl (by exact ⟨rfl, rfl⟩))
  refine ⟨_, _, run₈, fun hfree => hfree 1 ?_⟩
  refine .tail (.single (b := 2) ⟨by decide, _, rfl, .block .objectIndex 0, ?_, rfl⟩)
    ⟨by decide, _, rfl, .native ._LdoFile 0, ?_, rfl⟩
  · exact List.mem_cons_self
  · exact List.mem_cons_self

end JLua.Deadlock
