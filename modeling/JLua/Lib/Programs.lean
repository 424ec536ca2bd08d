import Mathlib.Logic.Basic

/-!
# Programs of atomic instructions

A program is a tree: the next instruction, and what follows on each of its answers. Between two
instructions of one program others may be executed; run alone, a program executes one after the
other.
-/

namespace AtomicPrograms

set_option autoImplicit false

universe u
variable {I : Type} {Answer : I → Type} {ε α β : Type}

inductive Program (I : Type) (Answer : I → Type) (ε α : Type) where
  | done (a : α)
  | throws (e : ε)
  | step (i : I) (next : Answer i → Program I Answer ε α)

namespace Program

def bind : Program I Answer ε α → (α → Program I Answer ε β) → Program I Answer ε β
  | done a, f => f a
  | throws e, _ => throws e
  | step i next, f => step i fun answer => (next answer).bind f

instance : Monad (Program I Answer ε) where
  pure := done
  bind := bind

def perform (i : I) : Program I Answer ε (Answer i) := step i done

def outcome : Program I Answer ε α → Option (Except ε α)
  | done a => some (.ok a)
  | throws e => some (.error e)
  | step _ _ => none

/-- What an instruction does to a state: an answer or an exception, unless it does not return. -/
abbrev Execution (I : Type) (Answer : I → Type) (ε : Type) (S : Type u) :=
  (i : I) → S → Option (Except ε (Answer i) × S)

/-- The rest of a program after an answer or an exception of its instruction. -/
def after {i : I} (next : Answer i → Program I Answer ε α) :
    Except ε (Answer i) → Program I Answer ε α
  | .ok answer => next answer
  | .error e => throws e

/-- The whole program without anything in between. -/
def alone {S : Type u} (exec : Execution I Answer ε S) :
    Program I Answer ε α → S → Option (Except ε α × S)
  | done a, s => some (.ok a, s)
  | throws e, s => some (.error e, s)
  | step i next, s =>
    match exec i s with
    | none => none
    | some (.ok answer, s') => (next answer).alone exec s'
    | some (.error e, s') => some (.error e, s')

theorem alone_step {S : Type u} {exec : Execution I Answer ε S} {i : I}
    {next : Answer i → Program I Answer ε α} {s s' : S} {r : Except ε (Answer i)}
    (h : exec i s = some (r, s')) : (step i next).alone exec s = (after next r).alone exec s' := by
  rw [alone, h]
  cases r <;> rfl

theorem alone_step_none {S : Type u} {exec : Execution I Answer ε S} {i : I}
    {next : Answer i → Program I Answer ε α} {s : S} (h : exec i s = none) :
    (step i next).alone exec s = none := by
  rw [alone, h]

theorem bind_assoc_eq {γ : Type} (p : Program I Answer ε α) (f : α → Program I Answer ε β)
    (g : β → Program I Answer ε γ) : ((p >>= f) >>= g) = (p >>= fun a => f a >>= g) := by
  induction p with
  | done a => rfl
  | throws e => rfl
  | step i next ih => exact congrArg (step i) (funext fun answer => ih answer)

end Program

end AtomicPrograms
