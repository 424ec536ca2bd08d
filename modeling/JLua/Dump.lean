import JLua.CodeCheck
import JLua.Streams

/-!
# Precompiled chunks

A function is saved as a sequence of blocks of bytes, the functions inside it among them, and read
back from a stream. A chunk is only good for machines whose integers look the same.
-/

namespace JLua.Dump

open Decoding Streams Protos Opcodes
set_option autoImplicit false

/-- What the format leaves to the machine. A `size_t` has that many bytes. -/
structure Machine where
  littleEndian : Bool
  sizeofSizeT : Nat

def LUA_SIGNATURE : List UInt8 := [27, 76, 117, 97]

def LUAC_VERSION : UInt8 := 0x51

def LUAC_FORMAT : UInt8 := 0

def LUAC_HEADERSIZE : Nat := 12

/-- `luaU_header`: the sizes are those of an int, a `size_t`, an instruction and a number. -/
def luaUHeader (M : Machine) : List UInt8 :=
  LUA_SIGNATURE ++ [LUAC_VERSION, LUAC_FORMAT, if M.littleEndian then 1 else 0, 4,
    UInt8.ofNat M.sizeofSizeT, 4, 8, 0]

/-- The blocks that go to `DumpBlock`, one after the other. -/
abbrev Blocks := List (List UInt8)

def LUA_TNIL : UInt8 := 0

def LUA_TBOOLEAN : UInt8 := 1

def LUA_TNUMBER : UInt8 := 3

def LUA_TSTRING : UInt8 := 4

section
variable (M : Machine)

/-! ### Dump -/

/-- A value of `size` bytes, as it is in memory. -/
def word (size n : Nat) : List UInt8 := image M.littleEndian size n

def dumpChar (y : UInt8) : Blocks := [[y]]

def dumpInt (x : CInt) : Blocks := [word M 4 x.toNat]

def dumpNumber (x : BitVec 64) : Blocks := [word M 8 x.toNat]

def dumpVector (b : List (BitVec 32)) : Blocks :=
  dumpInt M (.ofNat 32 b.length) ++ [b.flatMap fun x => word M 4 x.toNat]

/-- The size counts the trailing `\0`. -/
def dumpString : TString → Blocks
  | none => [word M M.sizeofSizeT 0]
  | some s => [word M M.sizeofSizeT (s.length + 1), s ++ [0]]

def dumpConstant : Constant → Blocks
  | .nil => dumpChar LUA_TNIL
  | .boolean b => dumpChar LUA_TBOOLEAN ++ dumpChar (if b then 1 else 0)
  | .number n => dumpChar LUA_TNUMBER ++ dumpNumber M n
  | .string s => dumpChar LUA_TSTRING ++ dumpString M s

/-- `n` things of one kind, after their number. -/
def dumpMany (n : Nat) (things : Blocks) : Blocks := dumpInt M (.ofNat 32 n) ++ things

/-- `DumpConstants`, less the functions inside. -/
def dumpConstants (k : List Constant) : Blocks := dumpMany M k.length (k.flatMap (dumpConstant M))

def dumpLocVar (v : LocVar) : Blocks :=
  dumpString M v.varname ++ dumpInt M v.startpc ++ dumpInt M v.endpc

def dumpDebug (lineinfo : List CInt) (locvars : List LocVar) (upvalues : List TString) : Blocks :=
  dumpVector M lineinfo ++
    dumpMany M locvars.length (locvars.flatMap (dumpLocVar M)) ++
    dumpMany M upvalues.length (upvalues.flatMap (dumpString M))

mutual

/-- The source of a function is left out if the function around it has the same. -/
def dumpFunction (strip : Bool) : Proto → TString → Blocks
  | ⟨k, code, ps, lineinfo, locvars, upvalues, source, linedefined, lastlinedefined, nups,
      numparams, isVararg, maxstacksize⟩, p =>
    dumpString M (if source = p ∨ strip = true then none else source) ++
    dumpInt M linedefined ++
    dumpInt M lastlinedefined ++
    dumpChar nups ++
    dumpChar numparams ++
    dumpChar isVararg ++
    dumpChar maxstacksize ++
    dumpVector M code ++
    dumpConstants M k ++
    dumpMany M ps.length (dumpFunctions strip ps source) ++
    dumpDebug M (if strip then [] else lineinfo) (if strip then [] else locvars)
      (if strip then [] else upvalues)

def dumpFunctions (strip : Bool) : List Proto → TString → Blocks
  | [], _ => []
  | f :: fs, p => dumpFunction strip f p ++ dumpFunctions strip fs p

end

/-- What a chunk consists of. -/
def chunk (strip : Bool) (f : Proto) : Blocks := luaUHeader M :: dumpFunction M strip f none

/-- A writer that has failed once gets no more blocks. -/
def dumpBlock {D : Type} (writer : List UInt8 → D → Int × D) (S : Int × D) (b : List UInt8) :
    Int × D :=
  if S.1 = 0 then writer b S.2 else S

/-- `luaU_dump`: the status, and what the writer has made of its data. -/
def luaUDump {D : Type} (f : Proto) (writer : List UInt8 → D → Int × D) (data : D) (strip : Bool) :
    Int × D :=
  (chunk M strip f).foldl (dumpBlock writer) (0, data)

/-! ### Undump -/

abbrev Load (X : Type) := Decoder Zio String X

def loadBlock (size : Nat) : Load (List UInt8) := fun z =>
  let (b, r, z) := luaZRead z size
  if r ≠ 0 then .error "unexpected end" else .ok (b, z)

def loadChar : Load UInt8 := do
  let b ← loadBlock 1
  return b.headD 0

/-- The value of a word. -/
def ofWord (b : List UInt8) : Nat := ofImage M.littleEndian b

def loadInt : Load CInt := do
  let b ← loadBlock 4
  let x : CInt := .ofNat 32 (ofWord M b)
  if x.toInt < 0 then throw "bad integer" else return x

def loadNumber : Load (BitVec 64) := do
  let b ← loadBlock 8
  return .ofNat 64 (ofWord M b)

/-- The words of a vector. -/
def words : Nat → List UInt8 → List (BitVec 32)
  | 0, _ => []
  | n + 1, b => .ofNat 32 (ofWord M (b.take 4)) :: words n (b.drop 4)

def loadVector (n : Nat) : Load (List (BitVec 32)) := do
  let b ← loadBlock (n * 4)
  return words M n b

def loadString : Load TString := do
  let b ← loadBlock M.sizeofSizeT
  let size := ofWord M b
  if size = 0 then return none
  else
    let s ← loadBlock size
    return some (s.take (size - 1))

def loadCode : Load (List Instruction) := do
  let n ← loadInt M
  loadVector M n.toNat

def loadConstant : Load Constant := do
  let t ← loadChar
  if t = LUA_TNIL then return .nil
  else if t = LUA_TBOOLEAN then
    let b ← loadChar
    return .boolean (b ≠ 0)
  else if t = LUA_TNUMBER then
    let n ← loadNumber M
    return .number n
  else if t = LUA_TSTRING then
    let s ← loadString M
    return .string s
  else throw "bad constant"

/-- Things of one kind, after their number. -/
def loadMany {X : Type} (load : Load X) : Load (List X) := do
  let n ← loadInt M
  repeated load n.toNat

def loadLocVar : Load LocVar := do
  let varname ← loadString M
  let startpc ← loadInt M
  let endpc ← loadInt M
  return ⟨varname, startpc, endpc⟩

/-- `LoadFunction` where `nCcalls` may go up by `room` at most. -/
def loadFunction : Nat → TString → Load Proto
  | 0, _ => throw "code too deep"
  | room + 1, p => do
    let s ← loadString M
    let source := s.orElse fun _ => p
    let linedefined ← loadInt M
    let lastlinedefined ← loadInt M
    let nups ← loadChar
    let numparams ← loadChar
    let isVararg ← loadChar
    let maxstacksize ← loadChar
    let code ← loadCode M
    let k ← loadMany M (loadConstant M)
    let ps ← loadMany M (loadFunction room source)
    let lineinfo ← loadCode M
    let locvars ← loadMany M (loadLocVar M)
    let upvalues ← loadMany M (loadString M)
    let f : Proto := ⟨k, code, ps, lineinfo, locvars, upvalues, source, linedefined,
      lastlinedefined, nups, numparams, isVararg, maxstacksize⟩
    if f.luaGCheckcode then return f else throw "bad code"

def loadHeader : Load Unit := do
  let s ← loadBlock LUAC_HEADERSIZE
  if s ≠ luaUHeader M then throw "bad header"

def LUAI_MAXCCALLS : Nat := 200

/-- The name of a chunk in messages. -/
def shownName (name : String) : String :=
  match name.toList with
  | '@' :: rest => String.ofList rest
  | '=' :: rest => String.ofList rest
  | '\x1b' :: _ => "binary string"
  | _ => name

/-- The source of a function that is not known. -/
def unknownSource : TString := some [61, 63]

/-- `luaU_undump`. -/
def luaUUndump (nCcalls : Nat) (name : String) (z : Zio) : Except String (Proto × Zio) :=
  let load : Load Proto := do
    loadHeader M
    loadFunction M (LUAI_MAXCCALLS - nCcalls) unknownSource
  (load z).mapError fun why => shownName name ++ ": " ++ why ++ " in precompiled chunk"

end

end JLua.Dump
