import JLua.LuaObject

/-!
# The helpers of Lua

A helper is a sequence of calls of the state and of its objects. What these calls do is left open,
so that a helper can be run as a whole, or one call after the other between those of other threads.
-/

namespace JLua

open Conversion
set_option autoImplicit false

/-- What the helpers use of `LuaState` and `LuaObject`: programs `m`, objects `O`, and the Java
objects `J` that are pushed. -/
structure Interface (m : Type → Type) (O J : Type) where
  getGlobal : JString → m Unit
  setGlobal : JString → m Unit
  newTable : m Unit
  getTable : Int → m Unit
  setTable : Int → m Unit
  isTable : Int → m Bool
  pop : Nat → m Unit
  pcall : Nat → Int → m Int
  pushObjectValue : J → m Unit
  getLuaObject : Int → m O
  object : O → J
  objectIsTable : O → m Bool
  objectIsJavaObject : O → m Bool
  objectGetObject : O → m JavaObject
  objectToString : O → m (Option JString)
  isThrowable : JavaObject → Bool
  throwJava : {α : Type} → Thrown → m α

namespace Lua

section Helpers
variable {m : Type → Type} [Monad m] {O J : Type} (I : Interface m O J)

/-- `exp.isJavaObject() && exp.getObject() instanceof Throwable` -/
def holdsThrowable (exp : O) : m Bool := do
  if ← I.objectIsJavaObject exp then I.isThrowable <$> I.objectGetObject exp
  else return false

def throwableOf (exp : O) : m Thrown := do
  if ← holdsThrowable I exp then .throwable <$> I.objectGetObject exp
  else .luaException <$> I.objectToString exp

def handleThrows {α : Type} : m α := do
  let exp ← I.getLuaObject (-1)
  let throwable ← throwableOf I exp
  I.pop 1
  I.throwJava throwable

def registerGlobal (name : JString) (obj : J) : m Unit := do
  I.pushObjectValue obj
  I.setGlobal name

def createTable : m O := do
  I.newTable
  let ret ← I.getLuaObject (-1)
  I.pop 1
  return ret

def setTableField (table : O) (key value : J) : m Unit := do
  if !(← I.objectIsTable table) then
    I.throwJava (.luaException (some "First parameter is not a table"))
  else
    I.pushObjectValue (I.object table)
    I.pushObjectValue key
    I.pushObjectValue value
    I.setTable (-3)
    I.pop 1

def getGlobal (name : JString) : m O := do
  I.getGlobal name
  let ret ← I.getLuaObject (-1)
  I.pop 1
  return ret

def getGlobalTableField (tableName : JString) (key : J) : m O := do
  I.getGlobal tableName
  if !(← I.isTable (-1)) then
    I.pop 1
    I.throwJava (.luaException (some (tableName ++ javaString " is not a table")))
  else
    I.pushObjectValue key
    I.getTable (-2)
    let ret ← I.getLuaObject (-1)
    I.pop 2
    return ret

def pushAll : List J → m Unit
  | [] => pure ()
  | obj :: args => do
    I.pushObjectValue obj
    pushAll args

/-- The values on top, from the lowest one upwards. -/
def getLuaObjects : Nat → m (List O)
  | 0 => return []
  | i + 1 => do
    let obj ← I.getLuaObject (-(i + 1 : Nat))
    return obj :: (← getLuaObjects i)

/-- The first half of `callFunctionEx`, up to the protected call. -/
def callGlobal (name : JString) (numOfResults : Int) (args : List J) : m Int := do
  I.getGlobal name
  pushAll I args
  I.pcall args.length numOfResults

/-- `new ArrayList<>(numOfResults)` throws for a negative capacity. -/
def callFunctionEx (name : JString) (numOfResults : Int) (args : List J) : m (List O) := do
  let res ← callGlobal I name numOfResults args
  if res ≠ 0 then handleThrows I
  else if numOfResults < 0 then
    I.throwJava (.runtimeException "java.lang.IllegalArgumentException"
      (javaString "Illegal Capacity: " ++ javaString (ToString.toString numOfResults)))
  else
    let ret ← getLuaObjects I numOfResults.toNat
    I.pop numOfResults.toNat
    return ret

end Helpers

section State
variable {σ : Type} (env : Env σ)

def state : Interface (Code σ) LuaObject (Option JavaObject) where
  getGlobal := LuaState.getGlobal env
  setGlobal := LuaState.setGlobal env
  newTable := LuaState.newTable env
  getTable := LuaState.getTable env
  setTable := LuaState.setTable env
  isTable := LuaState.isTable
  pop := LuaState.pop
  pcall := LuaState.pcall env
  pushObjectValue := LuaState.pushObjectValue env
  getLuaObject := LuaObject.registerValue
  object o := some o.toJava
  objectIsTable := LuaObject.isTable
  objectIsJavaObject := LuaObject.isJavaObject
  objectGetObject := LuaObject.getObject
  objectToString := LuaObject.toString env
  isThrowable := env.isThrowable
  throwJava := JLua.throwJava

def setPackagePath : Option JString → Code σ Unit
  | none => pure ()
  | some packagePath => do
    let pck ← getGlobal (state env) "package"
    setTableField (state env) pck (some (.string "path")) (some (.string packagePath))

/-- The first half of `doString`, up to the call of the chunk. -/
def runScript (packagePath : Option JString) (script : JString) : Code σ Int := do
  setPackagePath env packagePath
  LuaState.LdoString env script

def doString (packagePath : Option JString) (script : JString) : Code σ Unit := do
  let res ← runScript env packagePath script
  if res ≠ 0 then handleThrows (state env)
  else pure ()

/-- The directory of the file is searched too; `getParent` is `null` for a file without one. -/
def doFile (loadfile : List UInt8 → Heap σ → Except Value Value × Heap σ)
    (getParent : JString → Option JString) (packagePath : Option JString) (path : JString) :
    Code σ Unit := do
  let parent := (getParent path).getD "null"
  setPackagePath env (packagePath.map fun packagePath =>
    packagePath ++ javaString ";" ++ parent ++ javaString "/?.lua" ++ javaString ";" ++ parent ++
      javaString "/?")
  let res ← LuaState.LdoFile env loadfile path
  if res ≠ 0 then handleThrows (state env)
  else pure ()

def getTraceback : Code σ (Option JString) := do
  let tracebackfunc ← getGlobalTableField (state env) "debug" (some (.string "traceback"))
  LuaState.pushObjectValue env (some tracebackfunc.toJava)
  let err ← LuaState.pcall env 0 1
  if err ≠ 0 then
    let exp ← LuaObject.registerValue (-1)
    LuaState.pop 1
    let message ← exp.toString env
    JLua.throwJava (.luaException message)
  else
    let ret ← LuaObject.registerValue (-1)
    LuaState.pop 1
    if ← ret.isString then ret.getString env
    else return none

def createProxy (tableName interfaces : JString) : Code σ JavaObject := do
  let tableObj ← getGlobal (state env) tableName
  tableObj.createProxy env interfaces

end State

end Lua
end JLua
