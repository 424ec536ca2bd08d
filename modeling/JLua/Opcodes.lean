import Mathlib.Data.BitVec

/-!
# Instructions

An instruction has an operation in its first six bits, and three arguments, or two, behind it.
-/

namespace JLua.Opcodes

set_option autoImplicit false

abbrev Instruction := BitVec 32

/-- In the order of their numbers. -/
inductive OpCode where
  | MOVE | LOADK | LOADBOOL | LOADNIL | GETUPVAL
  | GETGLOBAL | GETTABLE
  | SETGLOBAL | SETUPVAL | SETTABLE
  | NEWTABLE
  | SELF
  | ADD | SUB | MUL | DIV | MOD | POW | UNM | NOT | LEN
  | CONCAT
  | JMP
  | EQ | LT | LE
  | TEST | TESTSET
  | CALL | TAILCALL | RETURN
  | FORLOOP | FORPREP
  | TFORLOOP
  | SETLIST
  | CLOSE | CLOSURE
  | VARARG
  deriving DecidableEq

def OpCode.all : List OpCode :=
  [.MOVE, .LOADK, .LOADBOOL, .LOADNIL, .GETUPVAL, .GETGLOBAL, .GETTABLE, .SETGLOBAL, .SETUPVAL,
    .SETTABLE, .NEWTABLE, .SELF, .ADD, .SUB, .MUL, .DIV, .MOD, .POW, .UNM, .NOT, .LEN, .CONCAT,
    .JMP, .EQ, .LT, .LE, .TEST, .TESTSET, .CALL, .TAILCALL, .RETURN, .FORLOOP, .FORPREP,
    .TFORLOOP, .SETLIST, .CLOSE, .CLOSURE, .VARARG]

inductive OpMode where
  | iABC
  | iABx
  | iAsBx
  deriving DecidableEq

inductive OpArgMask where
  | OpArgN
  | OpArgU
  | OpArgR
  | OpArgK
  deriving DecidableEq

/-- Whether the operation is a test, whether it sets register A, and its arguments. -/
structure OpModes where
  t : Bool
  a : Bool
  b : OpArgMask
  c : OpArgMask
  mode : OpMode

open OpArgMask OpMode in
/-- `luaP_opmodes`. -/
def opmodes : OpCode → OpModes
  | .MOVE => ⟨false, true, OpArgR, OpArgN, iABC⟩
  | .LOADK => ⟨false, true, OpArgK, OpArgN, iABx⟩
  | .LOADBOOL => ⟨false, true, OpArgU, OpArgU, iABC⟩
  | .LOADNIL => ⟨false, true, OpArgR, OpArgN, iABC⟩
  | .GETUPVAL => ⟨false, true, OpArgU, OpArgN, iABC⟩
  | .GETGLOBAL => ⟨false, true, OpArgK, OpArgN, iABx⟩
  | .GETTABLE => ⟨false, true, OpArgR, OpArgK, iABC⟩
  | .SETGLOBAL => ⟨false, false, OpArgK, OpArgN, iABx⟩
  | .SETUPVAL => ⟨false, false, OpArgU, OpArgN, iABC⟩
  | .SETTABLE => ⟨false, false, OpArgK, OpArgK, iABC⟩
  | .NEWTABLE => ⟨false, true, OpArgU, OpArgU, iABC⟩
  | .SELF => ⟨false, true, OpArgR, OpArgK, iABC⟩
  | .ADD => ⟨false, true, OpArgK, OpArgK, iABC⟩
  | .SUB => ⟨false, true, OpArgK, OpArgK, iABC⟩
  | .MUL => ⟨false, true, OpArgK, OpArgK, iABC⟩
  | .DIV => ⟨false, true, OpArgK, OpArgK, iABC⟩
  | .MOD => ⟨false, true, OpArgK, OpArgK, iABC⟩
  | .POW => ⟨false, true, OpArgK, OpArgK, iABC⟩
  | .UNM => ⟨false, true, OpArgR, OpArgN, iABC⟩
  | .NOT => ⟨false, true, OpArgR, OpArgN, iABC⟩
  | .LEN => ⟨false, true, OpArgR, OpArgN, iABC⟩
  | .CONCAT => ⟨false, true, OpArgR, OpArgR, iABC⟩
  | .JMP => ⟨false, false, OpArgR, OpArgN, iAsBx⟩
  | .EQ => ⟨true, false, OpArgK, OpArgK, iABC⟩
  | .LT => ⟨true, false, OpArgK, OpArgK, iABC⟩
  | .LE => ⟨true, false, OpArgK, OpArgK, iABC⟩
  | .TEST => ⟨true, true, OpArgR, OpArgU, iABC⟩
  | .TESTSET => ⟨true, true, OpArgR, OpArgU, iABC⟩
  | .CALL => ⟨false, true, OpArgU, OpArgU, iABC⟩
  | .TAILCALL => ⟨false, true, OpArgU, OpArgU, iABC⟩
  | .RETURN => ⟨false, false, OpArgU, OpArgN, iABC⟩
  | .FORLOOP => ⟨false, true, OpArgR, OpArgN, iAsBx⟩
  | .FORPREP => ⟨false, true, OpArgR, OpArgN, iAsBx⟩
  | .TFORLOOP => ⟨true, false, OpArgN, OpArgU, iABC⟩
  | .SETLIST => ⟨false, false, OpArgU, OpArgU, iABC⟩
  | .CLOSE => ⟨false, false, OpArgN, OpArgN, iABC⟩
  | .CLOSURE => ⟨false, true, OpArgU, OpArgN, iABx⟩
  | .VARARG => ⟨false, true, OpArgU, OpArgN, iABC⟩

/-! ### Fields -/

def SIZE_C : Nat := 9
def SIZE_B : Nat := 9
def SIZE_Bx : Nat := SIZE_C + SIZE_B
def SIZE_A : Nat := 8
def SIZE_OP : Nat := 6
def POS_OP : Nat := 0
def POS_A : Nat := POS_OP + SIZE_OP
def POS_C : Nat := POS_A + SIZE_A
def POS_B : Nat := POS_C + SIZE_C
def POS_Bx : Nat := POS_C
def MAXARG_Bx : Nat := 2 ^ SIZE_Bx - 1
def MAXARG_sBx : Nat := MAXARG_Bx / 2
def MAXARG_A : Nat := 2 ^ SIZE_A - 1

def MASK1 (n p : Nat) : Instruction := ~~~(~~~(0 : Instruction) <<< n) <<< p

/-- What the macros for reading an argument have in common. -/
def getArg (i : Instruction) (pos size : Nat) : Nat := ((i >>> pos) &&& MASK1 size 0).toNat

/-- Not every number is one of an operation. -/
def getOpcode (i : Instruction) : Option OpCode := OpCode.all[getArg i POS_OP SIZE_OP]?

def getargA (i : Instruction) : Nat := getArg i POS_A SIZE_A
def getargB (i : Instruction) : Nat := getArg i POS_B SIZE_B
def getargC (i : Instruction) : Nat := getArg i POS_C SIZE_C
def getargBx (i : Instruction) : Nat := getArg i POS_Bx SIZE_Bx
def getargSBx (i : Instruction) : Int := getargBx i - MAXARG_sBx

def OpCode.number (o : OpCode) : Nat := OpCode.all.idxOf o

def createABC (o : OpCode) (a b c : Nat) : Instruction :=
  BitVec.ofNat 32 o.number <<< POS_OP ||| BitVec.ofNat 32 a <<< POS_A |||
    BitVec.ofNat 32 b <<< POS_B ||| BitVec.ofNat 32 c <<< POS_C

/-! ### Constants as arguments -/

def BITRK : Nat := 2 ^ (SIZE_B - 1)

/-- `ISK`: an argument that may be a register or a constant is a constant. -/
def isK (x : Nat) : Bool := x &&& BITRK ≠ 0

def indexK (r : Nat) : Nat := r - (r &&& BITRK)

/-- A register that no function has. -/
def NO_REG : Nat := MAXARG_A

end JLua.Opcodes
