import JLua.Opcodes

/-!
# Function prototypes

What a function is before it has upvalues: its code, its constants, the functions inside it, and
what is only there for messages.
-/

namespace JLua.Protos

open Opcodes
set_option autoImplicit false

/-- The integers of C. -/
abbrev CInt := BitVec 32

/-- A string, or NULL. -/
abbrev TString := Option (List UInt8)

/-- A constant of a function. A number is what it is in memory. -/
inductive Constant where
  | nil
  | boolean (b : Bool)
  | number (n : BitVec 64)
  | string (s : TString)
  deriving DecidableEq

structure LocVar where
  varname : TString
  startpc : CInt
  endpc : CInt
  deriving DecidableEq

structure Proto where
  k : List Constant
  code : List Instruction
  p : List Proto
  lineinfo : List CInt
  locvars : List LocVar
  upvalues : List TString
  source : TString
  linedefined : CInt
  lastlinedefined : CInt
  nups : UInt8
  numparams : UInt8
  isVararg : UInt8
  maxstacksize : UInt8

def VARARG_HASARG : UInt8 := 1
def VARARG_ISVARARG : UInt8 := 2
def VARARG_NEEDSARG : UInt8 := 4

def MAXSTACK : Nat := 250

namespace Proto

def sizecode (f : Proto) : Nat := f.code.length

/-- The instruction at `pc`. No other one is asked for than those of the code. -/
def instr (f : Proto) (pc : Nat) : Instruction := f.code.getD pc 0

theorem sizeOf_lt {f g : Proto} (h : g ∈ f.p) : sizeOf g < sizeOf f := by
  have hlt := List.sizeOf_lt_of_mem h
  obtain ⟨k, code, p, lineinfo, locvars, upvalues, source, linedefined, lastlinedefined, nups,
    numparams, isVararg, maxstacksize⟩ := f
  simp only [Proto.mk.sizeOf_spec] at hlt ⊢
  omega

/-- What holds of a function if it does of the functions inside, holds of all. -/
theorem induction {P : Proto → Prop} (h : ∀ f, (∀ g ∈ f.p, P g) → P f) (f : Proto) : P f :=
  h f fun g hg => have := sizeOf_lt hg; induction h g
termination_by f

end Proto
end JLua.Protos
