import JLua.JavaObject
import JLua.Lib.ModifiedUtf8
import JLua.Registry
import JLua.Stack

/-!
# Conversions between Lua values and Java objects

`pushObjectValue` goes by the class of an object, `toJavaObject` by the type of a value, and
`compareTypes` by both the type of a value and the class that is wanted.
-/

namespace JLua.Conversion

open BinaryFloat ModifiedUtf8
set_option autoImplicit false

/-- What a full userdata holds: a Java object, or something that is none. -/
inductive Userdata where
  | java (obj : JavaObject)
  | plain
  deriving DecidableEq

/-- The `lua_State` with the given peer, and what of the heap the conversions look at. -/
structure State where
  peer : Nat
  stack : Stack
  registry : Registry
  userdata : List Userdata

structure LuaException where
  message : String
  deriving DecidableEq, Repr

inductive ProxyResult where
  | proxy (obj : JavaObject)
  | classNotFound (name : String)
  | luaException (e : LuaException)

/-- The Java side: its classes, the decoder of `NewStringUTF`, the text of an object that is denied,
the proxies of a table, and the checker that is installed, if any. The checker and the text are
those of calls that return: when the checker or the `toString` of a denied object throws, that is
thrown in place of the denial, with the same stack. -/
structure Host where
  classes : ClassTable
  newStringUTF : List UInt8 → List UInt16
  deniedText : JavaObject → String
  createProxy : State → Value → JavaClass → ProxyResult
  objectChecker : Option (JavaObject → Bool)

def checkJavaObj (host : Host) (obj : JavaObject) : Except LuaException Unit :=
  match obj with
  | .luaException _ | .javaPackage _ | .javaFunction _ _ => .ok ()
  | _ =>
    match host.objectChecker with
    | none => .ok ()
    | some check =>
      if check obj then .ok ()
      else .error ⟨"Permission denied: Cannot access " ++ host.deniedText obj⟩

def State.push (L : State) (v : Value) : State := { L with stack := L.stack ++ [v] }

/-- The native push functions: a new userdata, with a metatable that marks it. -/
def State.pushUserdata (L : State) (obj : JavaObject) : State :=
  { L with
    stack := L.stack ++ [.userdata L.userdata.length]
    userdata := L.userdata ++ [.java obj] }

def pushJavaObject (host : Host) (L : State) (obj : JavaObject) : Except LuaException State := do
  checkJavaObj host obj
  pure (L.pushUserdata obj)

theorem pushJavaObject_cases {host : Host} {L L' : State} {obj : JavaObject}
    (h : pushJavaObject host L obj = .ok L') :
    L' = L.pushUserdata obj ∧ checkJavaObj host obj = .ok () := by
  cases hc : checkJavaObj host obj with
  | error e => simp [pushJavaObject, hc, bind, Except.bind] at h
  | ok =>
    simp only [pushJavaObject, hc, bind, Except.bind, pure, Except.pure, Except.ok.injEq] at h
    exact ⟨h.symm, rfl⟩

def pushJavaArray (L : State) (obj : JavaObject) : Except LuaException State :=
  if obj.isArray then .ok (L.pushUserdata obj) else .error ⟨"Object is not an array."⟩

def pushJavaFunction (L : State) (func : JavaObject) : State := L.pushUserdata func

/-- A `LuaObject` pushes onto the stack of its own state. -/
def pushLuaObject (L : State) (peer : Nat) (ref : Int) : State :=
  if peer = L.peer then L.push (L.registry.rawGetI ref) else L

def pushObjectValue (host : Host) (L : State) : Option JavaObject → Except LuaException State
  | none => .ok (L.push .nil)
  | some obj =>
    match obj, obj.doubleValue with
    | .boolean b, _ => .ok (L.push (.boolean b))
    | _, some x => .ok (L.push (.number x))
    | .string s, _ => .ok (L.push (.string (cString (encode s))))
    | .javaFunction _ _, _ => .ok (pushJavaFunction L obj)
    | .luaObject peer ref, _ => .ok (pushLuaObject L peer ref)
    | _, _ => if obj.isArray then pushJavaArray L obj else pushJavaObject host L obj

def getObjectFromUserdata (L : State) : Value → Option JavaObject
  | .userdata a =>
    match L.userdata[a]? with
    | some (.java obj) => some obj
    | _ => none
  | _ => none

def isObject (L : State) (v : Value) : Bool := (getObjectFromUserdata L v).isSome

def getLuaObject (L : State) (v : Value) : JavaObject × State :=
  let (ref, registry) := L.registry.luaLRef v
  (.luaObject L.peer ref, { L with registry := registry })

def toJavaObject (host : Host) (L : State) (idx : Int) : Option JavaObject × State :=
  match index2adr L.stack idx with
  | some (.boolean b) => (some (.boolean b), L)
  | some (.string bytes) => (some (.string (host.newStringUTF (cString bytes))), L)
  | some (.number x) => (some (.double x), L)
  | some .nil | some (.thread _) | none => (none, L)
  | some v =>
    match getObjectFromUserdata L v with
    | some obj => (some obj, L)
    | none => (getLuaObject L v).map some id

def convertLuaNumber (C : ClassTable) (db : Double) (retType : JavaClass) : Option JavaObject :=
  if retType.isPrimitive then
    if retType = .primitive .int then some (.integer (intValue db))
    else if retType = .primitive .long then some (.long (longValue db))
    else if retType = .primitive .float then some (.float (floatValue db))
    else if retType = .primitive .double then some (.double db)
    else if retType = .primitive .byte then some (.byte (byteValue db))
    else if retType = .primitive .short then some (.short (shortValue db))
    else none
  else if C.isAssignableFrom retType .number then
    if C.isAssignableFrom retType (.boxed .double) then some (.double db)
    else if C.isAssignableFrom retType (.boxed .float) then some (.float (floatValue db))
    else if C.isAssignableFrom retType (.boxed .long) then some (.long (longValue db))
    else if C.isAssignableFrom retType (.boxed .int) then some (.integer (intValue db))
    else if C.isAssignableFrom retType (.boxed .short) then some (.short (shortValue db))
    else if C.isAssignableFrom retType (.boxed .byte) then some (.byte (byteValue db))
    else none
  else none

def invalidParameter : LuaException := ⟨"Invalid Parameter."⟩

def invalidParameters : LuaException := ⟨"Invalid Parameters."⟩

/-- A value that only a `LuaObject` can stand for. -/
def compareLuaObject (host : Host) (L : State) (parameter : JavaClass) (v : Value) :
    Except LuaException (Option JavaObject × State) :=
  if host.classes.isAssignableFrom parameter .luaObject then .ok ((getLuaObject L v).map some id)
  else .error invalidParameter

def compareTypes (host : Host) (L : State) (parameter : JavaClass) (idx : Int) :
    Except LuaException (Option JavaObject × State) :=
  match index2adr L.stack idx with
  | some (.boolean b) =>
    if if parameter.isPrimitive then parameter = .primitive .boolean
      else host.classes.isAssignableFrom parameter (.boxed .boolean)
    then .ok (some (.boolean b), L)
    else .error invalidParameter
  | some (.string bytes) =>
    -- `byte[]` is the only class named `[B`
    if parameter = .array (.primitive .byte) then .ok (some (.byteArray bytes), L)
    else
      let s := host.newStringUTF (cString bytes)
      if parameter = .primitive .char ∧ s.length = 1 then .ok (s.head?.map .character, L)
      else if host.classes.isAssignableFrom parameter .string then .ok (some (.string s), L)
      else .error invalidParameter
  | some (.table a) =>
    if host.classes.isInterface parameter then
      let L := (getLuaObject L (.table a)).2
      match host.createProxy L (.table a) parameter with
      | .proxy obj => .ok (some obj, L)
      | .classNotFound _ => .error invalidParameter
      | .luaException e => .error e
    else compareLuaObject host L parameter (.table a)
  | some (.number x) =>
    match convertLuaNumber host.classes x parameter with
    | some obj => .ok (some obj, L)
    | none => .error invalidParameter
  | some (.userdata a) =>
    match getObjectFromUserdata L (.userdata a) with
    | some obj =>
      if host.classes.isAssignableFrom parameter obj.getClass then .ok (some obj, L)
      else .error invalidParameter
    | none => compareLuaObject host L parameter (.userdata a)
  | some (.function a) => compareLuaObject host L parameter (.function a)
  | some (.lightuserdata p) => compareLuaObject host L parameter (.lightuserdata p)
  | some .nil => .ok (none, L)
  | some (.thread _) | none => .error invalidParameters

end JLua.Conversion
