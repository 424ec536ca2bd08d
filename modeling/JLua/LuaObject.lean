import JLua.LuaState

/-!
# The methods of LuaObject

They run on the state that the object belongs to, which is the state at work. An object that is
an argument may belong to another one.
-/

namespace JLua

open BinaryFloat Conversion OutcomeRules
set_option autoImplicit false

structure LuaObject where
  peer : Nat
  ref : Int
  deriving DecidableEq

namespace LuaObject
variable {σ α : Type}

def toJava (o : LuaObject) : JavaObject := .luaObject o.peer o.ref

def push (o : LuaObject) : Code σ Unit := LuaState.rawGetI o.ref

def registerValue (index : Int) : Code σ LuaObject := do
  LuaState.pushValue index
  let ref ← LuaState.Lref
  return ⟨(← get).peer, ref⟩

/-- The methods that push the object, look at the top and pop it again. -/
def withPushed (look : Code σ α) (o : LuaObject) : Code σ α := do
  o.push
  let answer ← look
  LuaState.pop 1
  return answer

def isNil (o : LuaObject) : Code σ Bool := o.withPushed (LuaState.isNil (-1))

def isBoolean (o : LuaObject) : Code σ Bool := o.withPushed (LuaState.isBoolean (-1))

def isFunction (o : LuaObject) : Code σ Bool := o.withPushed (LuaState.isFunction (-1))

def isString (o : LuaObject) : Code σ Bool := o.withPushed (LuaState.isString (-1))

def isJavaObject (o : LuaObject) : Code σ Bool := o.withPushed (LuaState.isObject (-1))

def isJavaFunction (o : LuaObject) : Code σ Bool := o.withPushed (LuaState.isJavaFunction (-1))

def isTable (o : LuaObject) : Code σ Bool := o.withPushed (LuaState.isTable (-1))

def isUserdata (o : LuaObject) : Code σ Bool := o.withPushed (LuaState.isUserdata (-1))

def type (o : LuaObject) : Code σ LuaType := o.withPushed (LuaState.type (-1))

def getBoolean (o : LuaObject) : Code σ Bool := o.withPushed (LuaState.toBoolean (-1))

/-- Leaves the value on the stack when it is no Java object. -/
def getObject (o : LuaObject) : Code σ JavaObject :=
  o.withPushed (LuaState.getObjectFromUserdata (-1))

variable (env : Env σ)

def isNumber (o : LuaObject) : Code σ Bool := o.withPushed (LuaState.isNumber env (-1))

def getNumber (o : LuaObject) : Code σ Double := o.withPushed (LuaState.toNumber env (-1))

def getString (o : LuaObject) : Code σ (Option JString) := o.withPushed (LuaState.toString env (-1))

def getByteArray (strlen : Value → Heap σ → Nat) (o : LuaObject) : Code σ (List UInt8) :=
  o.withPushed (LuaState.toByteArray env strlen (-1))

def booleanText (b : Bool) : JString := if b then "true" else "false"

/-- What `toString` tries. -/
def text (o : LuaObject) : Code σ (Option JString) := do
  if ← o.isNil then return some "nil"
  else if ← o.isBoolean then return some (booleanText (← o.getBoolean))
  else if ← o.isNumber env then return some (env.doubleToString (← o.getNumber env))
  else if ← o.isString then o.getString env
  else if ← o.isFunction then return some "Lua Function"
  else if ← o.isJavaObject then library (env.toString (← o.getObject))
  else if ← o.isUserdata then return some "Userdata"
  else if ← o.isTable then return some "Lua Table"
  else if ← o.isJavaFunction then return some "Java Function"
  else return none

def toString (o : LuaObject) : Code σ (Option JString) :=
  catching (o.text env) env.isLuaException fun _ => return none

/-! ### The constructors -/

def ofGlobal (globalName : JString) : Code σ LuaObject := do
  LuaState.getGlobal env globalName
  let o ← registerValue (-1)
  LuaState.pop 1
  return o

/-- The constructors for a part of another object, which differ in how they push the key. -/
def ofParent (parent : LuaObject) (pushName : Code σ Unit) : Code σ LuaObject := do
  if !(← parent.isTable) && !(← parent.isUserdata) then
    throwLuaException "Object parent should be a table or userdata ."
  else
    parent.push
    pushName
    LuaState.getTable env (-2)
    LuaState.remove (-2)
    let o ← registerValue (-1)
    LuaState.pop 1
    return o

def ofString (parent : LuaObject) (name : Option JString) : Code σ LuaObject :=
  ofParent env parent (LuaState.pushString name)

def ofNumber (parent : LuaObject) (name : Double) : Code σ LuaObject :=
  ofParent env parent (LuaState.pushNumber name)

def ofLuaObject (parent name : LuaObject) : Code σ LuaObject :=
  if parent.peer ≠ name.peer then throwLuaException "LuaStates must be the same!"
  else ofParent env parent name.push

/-- `getLuaObject(this, field)`; the object and its parent have the same state. -/
def getField (o : LuaObject) (field : Option JString) : Code σ LuaObject := ofString env o field

/-! ### call -/

def pushAll : List (Option JavaObject) → Code σ Unit
  | [] => pure ()
  | obj :: args => do
    LuaState.pushObjectValue env obj
    pushAll args

def prepareCall (o : LuaObject) (args : List (Option JavaObject)) : Code σ Nat := do
  if !(← o.isFunction) && !(← o.isTable) && !(← o.isUserdata) then
    throwLuaException "Invalid object. Not a function, table or userdata ."
  else
    let top ← LuaState.getTop
    o.push
    pushAll env args
    return top

def errorText (err : Int) (str : JString) : JString :=
  if err = LUA_ERRRUN then "Runtime error. " ++ str
  else if err = LUA_ERRMEM then "Memory allocation error. " ++ str
  else if err = LUA_ERRERR then "Error while running the error handler function. " ++ str
  else "Lua Error code " ++ javaString (ToString.toString err) ++ ". " ++ str

/-- What `call` throws for the error on top of the stack. A value that has no text stays there,
and so does an object whose `toString` throws. -/
def callError (err : Int) : Code σ α := do
  if ← LuaState.isString (-1) then
    let str ← LuaState.toString env (-1)
    LuaState.pop 1
    throwLuaException (errorText err (str.getD "null"))
  else if ← LuaState.isObject (-1) then
    let o ← registerValue (-1)
    let obj ← o.getObject
    let str ← library (env.toString obj)
    LuaState.pop 1
    if env.isThrowable obj then throwJava (.throwable obj)
    else throwLuaException (errorText err (str.getD "null"))
  else throwLuaException (errorText err "")

def popResults : Nat → List (Option JavaObject) → Code σ (List (Option JavaObject))
  | 0, res => return res
  | i + 1, res => do
    let obj ← LuaState.toJavaObject env (-1)
    LuaState.pop 1
    popResults i (obj :: res)

def getResults (top : Nat) (nres : Int) : Code σ (List (Option JavaObject)) := do
  let found : Int := (← LuaState.getTop) - top
  let nres := if nres = LUA_MULTRET then found else nres
  if found < nres then throwLuaException "Invalid Number of Results ."
  else if nres < 0 then
    throwJava (.runtimeException "java.lang.NegativeArraySizeException" "")
  else popResults env nres.toNat []

/-- `args` that are `null` are no arguments. -/
def call (o : LuaObject) (args : List (Option JavaObject)) (nres : Int) :
    Code σ (List (Option JavaObject)) := do
  let top ← prepareCall env o args
  let err ← LuaState.pcall env args.length nres
  if err ≠ 0 then callError env err
  else getResults env top nres

/-! ### createProxy -/

/-- The tokens of a `StringTokenizer` with the delimiter `,`. -/
def tokens (s : JString) : List JString := (s.splitOn 0x2C).filter (· ≠ [])

def checkMethods (o : LuaObject) (clazz : JavaClass) : List JString → Code σ Unit
  | [] => pure ()
  | method :: methods => do
    let field ← getField env o (some method)
    if !(← field.isFunction) then
      throwLuaException ("Cannot implement interface '" ++ env.getName clazz ++
        javaString "' since method '" ++ method ++ javaString "' is missing.")
    else checkMethods o clazz methods

def findInterfaces (o : LuaObject) : List JString → Code σ (List JavaClass)
  | [] => return []
  | name :: names => do
    let clazz ← env.forName name
    checkMethods env o clazz (env.getDeclaredMethods clazz)
    return clazz :: (← findInterfaces o names)

def createProxy (o : LuaObject) (implem : JString) : Code σ JavaObject := do
  if !(← o.isTable) then throwLuaException "Invalid Object. Must be Table."
  else
    let interfaces ← findInterfaces env o (tokens implem)
    library (env.newProxyInstance interfaces o.ref)

end LuaObject
end JLua
