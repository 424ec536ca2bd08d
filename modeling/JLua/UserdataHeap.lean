import JLua.JavaObject
import JLua.Lib.ModifiedUtf8

/-!
# The heap with its userdata

A script creates tables, functions and userdata, fetches and changes metatables, and calls what it
finds there. Java pushes its objects as userdata. The collector picks the userdata that nothing
refers to and runs their finalizers. Each of these is one action, and they come in any order.

The stack holds what the running functions hold in their locals; the body of a function that the
script defines is the actions that follow its call.
-/

namespace JLua.UserdataHeap

open ModifiedUtf8
set_option autoImplicit false

theorem getElem?_snoc {α : Type} (l : List α) (x : α) (i : Nat) :
    (l ++ [x])[i]? = if i = l.length then some x else l[i]? := by
  rw [List.getElem?_append]
  grind

structure Table where
  entries : List (Value × Value)
  metatable : Option Nat
  deriving DecidableEq

namespace Table

def get (t : Table) (k : Value) : Value :=
  ((t.entries.find? fun e => e.1.rawEqual k).map Prod.snd).getD .nil

def set (t : Table) (k v : Value) : Table :=
  let rest := t.entries.filter fun e => !e.1.rawEqual k
  { t with entries := if v = .nil then rest else rest ++ [(k, v)] }

/-- `luaH_next`: the entry after that of `k`. -/
def next (t : Table) (k : Value) : Option (Value × Value) :=
  if k = .nil then t.entries.head?
  else (t.entries.dropWhile fun e => !e.1.rawEqual k).tail.head?

/-- No field with that key, not even an empty one. -/
def Lacks (t : Table) (k : Value) : Prop := ∀ e ∈ t.entries, e.1.rawEqual k = false

theorem Lacks.get {t : Table} {k : Value} (h : t.Lacks k) : t.get k = .nil := by
  have hnone : (t.entries.find? fun e => e.1.rawEqual k) = none := by
    rw [List.find?_eq_none]
    intro e he
    simp [h e he]
  simp [Table.get, hnone]

theorem Lacks.set {t : Table} {j k v : Value} (h : t.Lacks j)
    (hne : k.rawEqual j = true → v = .nil) : (t.set k v).Lacks j := by
  intro e he
  dsimp only [Table.set] at he
  split at he
  · exact h e ((List.mem_filter.mp he).1)
  · rename_i hv
    rcases List.mem_append.mp he with he | he
    · exact h e ((List.mem_filter.mp he).1)
    · obtain rfl := List.mem_singleton.mp he
      by_contra heq
      exact hv (hne (by simpa using heq))

end Table

/-- What the block of a full userdata holds: a `jobject`, or nothing. -/
inductive Block where
  | reference (globalRef : Nat)
  | empty
  deriving DecidableEq

def Block.jobject : Block → Option Nat
  | reference r => some r
  | empty => none

structure Udata where
  block : Block
  metatable : Option Nat
  finalized : Bool
  deriving DecidableEq

inductive CFunction where
  | objectIndex
  | objectIndexReturn
  | objectNewIndex
  | arrayIndex
  | arrayNewIndex
  | jluaFunctionCall
  | gc
  | javaGetClass
  | createProxy
  | newArray
  | throwObj
  | getmetatable
  | setmetatable
  | rawget
  | rawset
  | next
  | newproxy
  deriving DecidableEq

/-- A function with its upvalues. Locals that several functions share and change are the fields
of a table that each of them holds. -/
inductive Closure where
  | c (f : CFunction) (upvalues : List Value)
  | lua (upvalues : List Value)
  deriving DecidableEq

def Closure.upvalues : Closure → List Value
  | c _ upvalues => upvalues
  | lua upvalues => upvalues

inductive PushFunction where
  | pushJavaObject
  | pushJavaArray
  | pushJavaFunction
  deriving DecidableEq

/-- A global reference of the JVM, and the userdata that it was created for. -/
structure GlobalRef where
  createdBy : PushFunction
  object : JavaObject
  holder : Nat
  deleted : Bool
  deriving DecidableEq

/-- `validMetatables` are the keys of the weak table of `newproxy`, and `tmudata` the userdata
whose finalizers are due. -/
structure State where
  tables : List Table
  udata : List Udata
  closures : List Closure
  globalRefs : List GlobalRef
  validMetatables : List Nat
  globals : Value
  registry : List Value
  stack : List Value
  tmudata : List Nat
  deriving DecidableEq

namespace State

def JLUAOBJECTIND : Value := .ofString "__IsJavaObject"

def tableAt (s : State) (a : Nat) : Table := s.tables[a]?.getD ⟨[], none⟩

def rawget (s : State) (a : Nat) (k : Value) : Value := (s.tableAt a).get k

def setTable (s : State) (a : Nat) (t : Table) : State := { s with tables := s.tables.set a t }

def rawset (s : State) (a : Nat) (k v : Value) : State := s.setTable a ((s.tableAt a).set k v)

/-- `lua_getmetatable`; no library gives the basic types a metatable. -/
def getMetatable (s : State) : Value → Option Nat
  | .table a => (s.tables[a]?).bind (·.metatable)
  | .userdata a => (s.udata[a]?).bind (·.metatable)
  | _ => none

/-- `luaL_getmetafield`, or nil. -/
def getMetafield (s : State) (v : Value) (event : String) : Value :=
  match s.getMetatable v with
  | some m => s.rawget m (.ofString event)
  | none => .nil

def isJavaObject (s : State) (v : Value) : Bool :=
  match v with
  | .userdata _ | .lightuserdata _ =>
    match s.getMetatable v with
    | some m => s.rawget m JLUAOBJECTIND ≠ .nil
    | none => false
  | _ => false

/-- The reference in the block of a userdata. -/
def touserdata (s : State) : Value → Option Nat
  | .userdata a => (s.udata[a]?).bind (·.block.jobject)
  | _ => none

/-! ### Building blocks -/

def push (s : State) (v : Value) : State := { s with stack := s.stack ++ [v] }

def newTable (s : State) (t : Table) : State := { s with tables := s.tables ++ [t] }

def newClosures (s : State) (cs : List Closure) : State := { s with closures := s.closures ++ cs }

def newUdata (s : State) (u : Udata) : State := { s with udata := s.udata ++ [u] }

def raise (s : State) (message : String) : State := s.push (.ofString message)

theorem tableAt_newTable (s : State) (t : Table) (a : Nat) :
    (s.newTable t).tableAt a = if a = s.tables.length then t else s.tableAt a := by
  unfold tableAt newTable
  rw [getElem?_snoc]
  split <;> rfl

theorem tableAt_setTable_cases (s : State) (a : Nat) (t : Table) (b : Nat) :
    (s.setTable a t).tableAt b = s.tableAt b ∨ (b = a ∧ (s.setTable a t).tableAt b = t) := by
  unfold tableAt setTable
  rw [List.getElem?_set]
  split
  · rename_i hab
    subst hab
    split
    · exact .inr ⟨rfl, rfl⟩
    · rename_i hlen
      rw [List.getElem?_eq_none (by omega)]
      exact .inl rfl
  · exact .inl rfl

theorem getMetatable_newUdata (s : State) (u : Udata) (a : Nat) :
    (s.newUdata u).getMetatable (.userdata a) =
      if a = s.udata.length then u.metatable else s.getMetatable (.userdata a) := by
  simp only [getMetatable, newUdata, getElem?_snoc]
  split <;> rfl

theorem touserdata_newUdata (s : State) (u : Udata) (a : Nat) :
    (s.newUdata u).touserdata (.userdata a) =
      if a = s.udata.length then u.block.jobject else s.touserdata (.userdata a) := by
  simp only [touserdata, newUdata, getElem?_snoc]
  split <;> rfl

end State

/-! ### The native side -/

def metamethods : PushFunction → List (String × CFunction)
  | .pushJavaObject => [("__index", .objectIndex), ("__newindex", .objectNewIndex), ("__gc", .gc)]
  | .pushJavaArray => [("__index", .arrayIndex), ("__newindex", .arrayNewIndex), ("__gc", .gc)]
  | .pushJavaFunction => [("__call", .jluaFunctionCall), ("__gc", .gc)]

/-- A value that is no object of the heap. -/
inductive Constant where
  | nil
  | boolean (b : Bool)
  | number (n : Double)
  | string (bytes : List UInt8)

def Constant.value : Constant → Value
  | nil => .nil
  | boolean b => .boolean b
  | number n => .number n
  | string bytes => .string bytes

/-- What Java pushes before it returns to a native function. -/
inductive Reply where
  | constant (c : Constant)
  | object (f : PushFunction) (obj : JavaObject)
  | luaObject (ref : Nat)

namespace State

/-- `pushJavaObject`, `pushJavaArray` and `_pushJavaFunction`, which differ in the metamethods. -/
def pushUserdata (s : State) (f : PushFunction) (obj : JavaObject) : State :=
  let entries := (metamethods f).mapIdx fun i m =>
    (Value.ofString m.1, Value.function (s.closures.length + i))
  let s₁ := s.newClosures ((metamethods f).map fun m => .c m.2 [])
  let s₂ := s₁.newTable ⟨entries ++ [(JLUAOBJECTIND, .boolean true)], none⟩
  let s₃ := s₂.newUdata ⟨.reference s.globalRefs.length, some s.tables.length, false⟩
  let ref : GlobalRef := ⟨f, obj, s.udata.length, false⟩
  { s₃ with globalRefs := s.globalRefs ++ [ref] }.push (.userdata s.udata.length)

def reply (s : State) : Reply → State
  | .constant c => s.push c.value
  | .object f obj => s.pushUserdata f obj
  | .luaObject ref => s.push (s.registry[ref]?.getD .nil)

def replies (s : State) (java : List Reply) : State := java.foldl reply s

/-- The Java object behind a `jobject`; to use a deleted reference is undefined. -/
def dereference (s : State) (v : Value) : Option JavaObject := do
  let r ← s.touserdata v
  let g ← s.globalRefs[r]?
  if g.deleted then none else some g.object

def deleteGlobalRef (s : State) (r : Nat) : Option State := do
  let g ← s.globalRefs[r]?
  if g.deleted then none
  else some { s with globalRefs := s.globalRefs.set r { g with deleted := true } }

def gc (s : State) (args : List Value) : Option State :=
  let v := args.headD .nil
  if !s.isJavaObject v then some s
  else do s.deleteGlobalRef (← s.touserdata v)

def isString : Value → Bool
  | .string _ | .number _ => true
  | _ => false

/-- `lua_isnumber`, given the strings that convert to numbers. -/
def isNumber (isNumeral : List UInt8 → Bool) : Value → Bool
  | .number _ => true
  | .string bytes => isNumeral bytes
  | _ => false

/-- The guard on the receiver that all native functions share. -/
def withReceiver (s : State) (args : List Value) (message : String)
    (body : Value → Option State) : Option State :=
  let v := args.headD .nil
  if s.isJavaObject v then body v else some (s.raise message)

/-- The function that `__index` gives for a name that is no field. -/
def bindMethod (s : State) (key : Value) : State :=
  (s.newClosures [.c .objectIndexReturn [key]]).push (.function s.closures.length)

def objectIndex (s : State) (args : List Value) (java : List Reply) : Option State :=
  let key := args.getLastD .nil
  if !isString key then some (s.raise "Invalid object index. Must be string.")
  else s.withReceiver args "Not a valid Java Object." fun v =>
    (s.dereference v).map fun _ => if java.isEmpty then s.bindMethod key else s.replies java

def objectIndexReturn (s : State) (args : List Value) (java : List Reply) : Option State :=
  s.withReceiver args "Not a valid OO function call." fun v =>
    (s.dereference v).map fun _ => s.replies java

def objectNewIndex (s : State) (args : List Value) (java : List Reply) : Option State :=
  s.withReceiver args "Not a valid java class." fun v =>
    if !isString (args.getD 1 .nil) then some (s.raise "Not a valid field call.")
    else (s.dereference v).map fun _ => s.replies java

def arrayIndex (isNumeral : List UInt8 → Bool) (s : State) (args : List Value)
    (java : List Reply) : Option State :=
  let key := args.getLastD .nil
  if !isNumber isNumeral key && !isString key then
    some (s.raise "Invalid object index. Must be integer or string.")
  else if !isNumber isNumeral key then s.objectIndex args java
  else s.withReceiver args "Not a valid Java Object." fun v =>
    (s.dereference v).map fun _ => s.replies java

def arrayNewIndex (isNumeral : List UInt8 → Bool) (s : State) (args : List Value)
    (java : List Reply) : Option State :=
  s.withReceiver args "Not a valid java class." fun v =>
    if !isNumber isNumeral (args.getD 1 .nil) then some (s.raise "Not a valid array index.")
    else (s.dereference v).map fun _ => s.replies java

def jluaFunctionCall (s : State) (args : List Value) (java : List Reply) : Option State :=
  s.withReceiver args "Not a java Function." fun v =>
    (s.dereference v).map fun
      | .javaFunction _ _ => s.replies java
      -- only a message on stderr
      | _ => s

/-! ### The base library -/

/-- `luaL_argerror`; the message leaves out where the call was made. -/
def argerror (s : State) (narg : Nat) (name extramsg : String) : Option State :=
  some (s.raise ("bad argument #" ++ toString narg ++ " to '" ++ name ++ "' (" ++ extramsg ++ ")"))

def typename : Option Value → String
  | none => "no value"
  | some v =>
    match v.type with
    | .none => "no value"
    | .nil => "nil"
    | .boolean => "boolean"
    | .lightuserdata | .userdata => "userdata"
    | .number => "number"
    | .string => "string"
    | .table => "table"
    | .function => "function"
    | .thread => "thread"

/-- `luaL_checktype` of the first argument, for a table. -/
def withTable (s : State) (args : List Value) (name : String)
    (body : Nat → List Value → Option State) : Option State :=
  match args with
  | .table a :: rest => body a rest
  | _ => s.argerror 1 name ("table expected, got " ++ typename args.head?)

def luaBGetmetatable (s : State) (args : List Value) : Option State :=
  match args with
  | [] => s.argerror 1 "getmetatable" "value expected"
  | v :: _ =>
    match s.getMetatable v with
    | none => some (s.push .nil)
    | some m =>
      let field := s.getMetafield v "__metatable"
      some (s.push (if field = .nil then .table m else field))

def setMetatable (s : State) (a : Nat) (m : Option Nat) : State :=
  s.setTable a { s.tableAt a with metatable := m }

def luaBSetmetatable (s : State) (args : List Value) : Option State :=
  s.withTable args "setmetatable" fun a rest =>
    let protectedTable := s.getMetafield (.table a) "__metatable" ≠ .nil
    match rest with
    | .nil :: _ =>
      if protectedTable then some (s.raise "cannot change a protected metatable")
      else some ((s.setMetatable a none).push (.table a))
    | .table m :: _ =>
      if protectedTable then some (s.raise "cannot change a protected metatable")
      else some ((s.setMetatable a (some m)).push (.table a))
    | _ => s.argerror 2 "setmetatable" "nil or table expected"

def luaBRawget (s : State) (args : List Value) : Option State :=
  s.withTable args "rawget" fun a rest =>
    match rest with
    | k :: _ => some (s.push (s.rawget a k))
    | [] => s.argerror 2 "rawget" "value expected"

/-- `luaH_set`, with the keys that it refuses. -/
def luaHSet (s : State) (a : Nat) (k v : Value) : Except String State :=
  match k with
  | .nil => .error "table index is nil"
  | .number .nan => .error "table index is NaN"
  | k => .ok (s.rawset a k v)

def luaBRawset (s : State) (args : List Value) : Option State :=
  s.withTable args "rawset" fun a rest =>
    match rest with
    | k :: v :: _ =>
      match s.luaHSet a k v with
      | .ok s' => some (s'.push (.table a))
      | .error message => some (s.raise message)
    | [_] => s.argerror 3 "rawset" "value expected"
    | [] => s.argerror 2 "rawset" "value expected"

def luaBNext (s : State) (args : List Value) : Option State :=
  s.withTable args "next" fun a rest =>
    let t := s.tableAt a
    let k := rest.headD .nil
    if k ≠ .nil ∧ t.entries.all (fun e => !e.1.rawEqual k) then
      some (s.raise "invalid key to 'next'")
    else
      match t.next k with
      | some (k', v) => some ((s.push k').push v)
      | none => some (s.push .nil)

def newProxy (s : State) (m : Option Nat) : State :=
  (s.newUdata ⟨.empty, m, false⟩).push (.userdata s.udata.length)

def luaBNewproxy (s : State) (args : List Value) : Option State :=
  match args.headD .nil with
  | .nil | .boolean false => some (s.newProxy none)
  | .boolean true =>
    let s' := s.newTable ⟨[], none⟩
    let marked := { s' with validMetatables := s.tables.length :: s.validMetatables }
    some (marked.newProxy (some s.tables.length))
  | v =>
    match s.getMetatable v with
    | some m =>
      if m ∈ s.validMetatables then some (s.newProxy (some m))
      else s.argerror 1 "newproxy" "boolean or proxy expected"
    | none => s.argerror 1 "newproxy" "boolean or proxy expected"

/-! ### Calls -/

def throwObj (s : State) (args : List Value) : State :=
  match args with
  | [obj] => s.push obj
  | _ => s.raise "Error. Function throw expects 1 argument."

/-- A native function is run at once. What `getClass`, `createProxy` and `newArray` raise is among
the replies of Java. -/
def callC (isNumeral : List UInt8 → Bool) (s : State) (f : CFunction) (args : List Value)
    (java : List Reply) : Option State :=
  match f with
  | .objectIndex => s.objectIndex args java
  | .objectIndexReturn => s.objectIndexReturn args java
  | .objectNewIndex => s.objectNewIndex args java
  | .arrayIndex => s.arrayIndex isNumeral args java
  | .arrayNewIndex => s.arrayNewIndex isNumeral args java
  | .jluaFunctionCall => s.jluaFunctionCall args java
  | .gc => s.gc args
  | .javaGetClass | .createProxy | .newArray => some (s.replies java)
  | .throwObj => some (s.throwObj args)
  | .getmetatable => s.luaBGetmetatable args
  | .setmetatable => s.luaBSetmetatable args
  | .rawget => s.luaBRawget args
  | .rawset => s.luaBRawset args
  | .next => s.luaBNext args
  | .newproxy => s.luaBNewproxy args

/-- The function of the script finds its upvalues and its arguments on the stack. -/
def call (isNumeral : List UInt8 → Bool) (s : State) (f : Value) (args : List Value)
    (java : List Reply) : Option State :=
  match f with
  | .function a =>
    match s.closures[a]? with
    | some (.c f _) => s.callC isNumeral f args java
    | some (.lua upvalues) => some { s with stack := s.stack ++ upvalues ++ args }
    | none => none
  | v => some (s.raise ("attempt to call a " ++ typename (some v) ++ " value"))

end State
end JLua.UserdataHeap
