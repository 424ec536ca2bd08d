import JLua.LuaObject

/-!
# The callbacks of JLuaAPI

Each one finds the state at work, with the arguments of the Lua call on its stack: the object in
slot 1, and what is passed to a Java member from slot 2 on.
-/

namespace JLua.JLuaAPI

open Conversion OutcomeRules
set_option autoImplicit false

variable {σ α : Type} (env : Env σ)

/-- The class whose members are meant: a `Class` object stands for the class it denotes. -/
def objClass (obj : JavaObject) : JavaClass := (env.asClass obj).getD obj.getClass

def compareTypes (parameter : JavaClass) (idx : Int) : Code σ (Option JavaObject) := do
  match index2adr (← get).stack idx with
  | some (.table a) =>
    if env.host.classes.isInterface parameter then
      let obj ← LuaObject.registerValue idx
      catching (some <$> obj.createProxy env (env.getName parameter)) Stop.isClassNotFound
        fun _ => throwLuaException "Invalid Parameter."
    else LuaState.liftState fun L => compareLuaObject env.host L parameter (.table a)
  | _ => LuaState.liftState fun L => Conversion.compareTypes env.host L parameter idx

/-! ### Finding a method or a constructor -/

def convertArguments : List JavaClass → Int → Code σ (List (Option JavaObject))
  | [], _ => return []
  | parameter :: parameters, j => do
    let obj ← compareTypes env parameter j
    return obj :: (← convertArguments parameters (j + 1))

/-- An exception means that the candidate does not take the arguments. -/
def tryArguments (parameters : List JavaClass) : Code σ (Option (List (Option JavaObject))) :=
  catching (some <$> convertArguments env parameters 2) env.isException fun _ => return none

/-- The loop over the candidates, which are known by their parameter types. -/
def firstAccepting {M : Type} (parameterTypes : M → List JavaClass) :
    List M → Code σ (Option (M × List (Option JavaObject)))
  | [] => return none
  | candidate :: candidates => do
    match ← tryArguments env (parameterTypes candidate) with
    | some objs => return some (candidate, objs)
    | none => firstAccepting parameterTypes candidates

def methodCandidates (methods : List Method) (methodName : JString) (top : Nat) : List Method :=
  methods.filter fun m => m.name = methodName ∧ m.parameterTypes.length = top - 1

def getMethod (clazz : JavaClass) (methodName : JString) (top : Nat) :
    Code σ (Option (Method × List (Option JavaObject))) :=
  firstAccepting env Method.parameterTypes
    (methodCandidates (env.getMethods clazz) methodName top)

/-- `new Object[top - 1]` -/
def allocateArguments (top : Nat) : Code σ Unit :=
  if top = 0 then throwJava (.runtimeException "java.lang.NegativeArraySizeException" "-1")
  else pure ()

/-- What the handlers around a reflective call make of an exception. -/
def rethrow : Stop → Code σ α
  | .throws (.invocationTargetException cause) => throwJava cause
  | .throws e => throwJava (env.wrap e)
  | stop => throw stop

/-- `catch (…) { throw new LuaException(e); }` -/
def throwWrapped : Stop → Code σ α
  | .throws e => throwJava (env.wrap e)
  | stop => throw stop

def constructorCandidates (constructors : List Constructor) (top : Nat) : List Constructor :=
  constructors.filter fun c => c.parameterTypes.length = top - 1

def illegalArgument (message : JString) : Thrown :=
  .runtimeException "java.lang.IllegalArgumentException" message

def newInstance (c : Constructor) (objs : List (Option JavaObject)) : Code σ JavaObject :=
  if areLegalArguments env.host.classes c.parameterTypes objs then env.newInstance c objs
  else throwJava (illegalArgument "argument type mismatch")

def getObjInstance (clazz : JavaClass) : Code σ JavaObject := do
  let top ← LuaState.getTop
  allocateArguments top
  match ← firstAccepting env Constructor.parameterTypes
      (constructorCandidates (env.getConstructors clazz) top) with
  | none => throwLuaException "Invalid method call. No such method."
  | some (constructor, objs) =>
    catching (newInstance env constructor objs) env.isException (rethrow env)

/-! ### Methods -/

/-- Whether the method can be invoked on the object: it is static or the object has it. -/
def isReceiver (m : Method) (obj : JavaObject) : Bool :=
  m.isStatic || env.host.classes.isAssignableFrom m.declaringClass obj.getClass

/-- `Method.invoke`; a static method is invoked on `null`. -/
def invoke (m : Method) (obj : JavaObject) (objs : List (Option JavaObject)) :
    Code σ (Option JavaObject) :=
  if !isReceiver env m obj then
    throwJava (illegalArgument "object is not an instance of declaring class")
  else if !areLegalArguments env.host.classes m.parameterTypes objs then
    throwJava (illegalArgument "argument type mismatch")
  else env.invoke m (if m.isStatic then none else some obj) objs

def invokeFound (obj : JavaObject) :
    Option (Method × List (Option JavaObject)) → Code σ Nat
  | none => throwLuaException "Invalid method call. No such method."
  | some (method, objs) => do
    let ret ← catching (invoke env method obj objs) env.isException (rethrow env)
    if method.returnType = .primitive .void then return 0
    else
      LuaState.pushObjectValue env ret
      return 1

/-- The two searches for a method of a class object. The second one follows in any case. -/
def classMethod (clazz : JavaClass) (methodName : JString) (top : Nat) :
    Code σ (Option (Method × List (Option JavaObject))) := do
  let method ← getMethod env clazz methodName top
  getMethod env (if method.isNone then env.javaLangClass else clazz) methodName top

def objectIndex (obj : JavaObject) (methodName : JString) : Code σ Nat := do
  let top ← LuaState.getTop
  allocateArguments top
  match env.asClass obj with
  | some clazz =>
    if methodName = "new" then
      let ret ← getObjInstance env clazz
      LuaState.pushJavaObject env ret
      return 1
    else invokeFound env obj (← classMethod env clazz methodName top)
  | none => invokeFound env obj (← getMethod env obj.getClass methodName top)

/-! ### Fields -/

def fieldSet (field : Field) (obj : JavaObject) (value : Option JavaObject) : Code σ Unit :=
  if isLegalArgument env.host.classes field.type value then env.fieldSet field obj value
  else throwJava (illegalArgument "argument type mismatch")

def isNamed (name : String) : Stop → Bool
  | .throws (.runtimeException name' _) => name = name'
  | _ => false

/-- `throw new LuaException(message, e)` -/
def throwWith (message : JString) : Stop → Code σ α
  | .throws e => throwJava (.luaExceptionOf (some message) e)
  | stop => throw stop

def objectNewIndex (obj : JavaObject) (fieldName : JString) : Code σ Nat := do
  match env.getField (objClass env obj) fieldName with
  | none => throwJava (.luaExceptionOf (some "Error accessing field.")
      (.runtimeException "java.lang.NoSuchFieldException" fieldName))
  | some field =>
    let setObj ← compareTypes env field.type 3
    catching (catching (fieldSet env field obj setObj)
      (isNamed "java.lang.IllegalArgumentException") (throwWith "Ilegal argument to set field."))
      (isNamed "java.lang.IllegalAccessException") (throwWith "Field not accessible.")
    return 0

def pushOne (obj : Option JavaObject) : Code σ Nat := do
  LuaState.pushObjectValue env obj
  return 1

/-- The end of `checkField`: a declared class of the name, a public field, or nothing. -/
def checkMember (clazz : JavaClass) (obj : JavaObject) (fieldName : JString) : Code σ Nat := do
  match (env.getDeclaredClasses clazz).find? (·.1 = fieldName) with
  | some (_, declared) => pushOne env (some (env.classObject declared))
  | none =>
    match env.getField clazz fieldName with
    | none => return 0
    | some field =>
      match ← catching (some <$> env.fieldGet field obj) env.isException fun _ => return none with
      | none => return 0
      | some ret => pushOne env ret

def checkPackage (packName : JString) : Code σ Nat := do
  match ← catching (some <$> env.forName packName) Stop.isClassNotFound fun _ => return none with
  | some clazz => pushOne env (some (env.classObject clazz))
  | none => pushOne env (some (← library (env.newJavaPackage packName)))

def checkField (obj : JavaObject) (fieldName : JString) : Code σ Nat :=
  match obj, env.asClass obj with
  | .javaPackage _, _ => checkPackage env (env.packageName obj ++ javaString "." ++ fieldName)
  | _, some clazz => if fieldName = "new" then return 0 else checkMember env clazz obj fieldName
  | _, none =>
    if obj.isArray && fieldName = "length" then
      pushOne env (some (.integer (Int32.ofInt (env.getLength obj))))
    else checkMember env obj.getClass obj fieldName

/-! ### Arrays -/

def arrayIndexOutOfBounds (index : Int) : Thrown :=
  .runtimeException "java.lang.ArrayIndexOutOfBoundsException"
    (javaString (ToString.toString index))

def arrayGet (obj : JavaObject) (index : Int) : Code σ (Option JavaObject) :=
  if index < 0 ∨ env.getLength obj ≤ index then throwJava (arrayIndexOutOfBounds index)
  else library (env.arrayGet obj index.toNat)

def componentType (obj : JavaObject) : JavaClass :=
  match obj.getClass with
  | .array component => component
  | _ => .object

def arraySet (obj : JavaObject) (index : Int) (value : Option JavaObject) : Code σ Unit :=
  if index < 0 ∨ env.getLength obj ≤ index then throwJava (arrayIndexOutOfBounds index)
  else if isLegalArgument env.host.classes (componentType obj) value then
    library (env.arraySet obj index.toNat value)
  else throwJava (illegalArgument "argument type mismatch")

def checkIndex (obj : JavaObject) (index : Int) : Code σ Unit :=
  if !obj.isArray then throwLuaException "Object indexed is not an array."
  else if env.getLength obj < index then throwLuaException "Index out of bounds."
  else pure ()

/-- `index - 1` of an `int`. -/
def previous (index : Int) : Int := if index = -2 ^ 31 then 2 ^ 31 - 1 else index - 1

def arrayIndex (obj : JavaObject) (index : Int) : Code σ Nat := do
  checkIndex env obj index
  pushOne env (← arrayGet env obj (previous index))

def arrayNewIndex (obj : JavaObject) (index : Int) : Code σ Nat := do
  checkIndex env obj index
  let setObj ← compareTypes env (componentType obj) 3
  arraySet env obj (previous index) setObj
  return 0

def primitiveNames : List (String × Primitive) :=
  [("byte", .byte), ("short", .short), ("int", .int), ("long", .long), ("float", .float),
    ("double", .double), ("char", .char), ("boolean", .boolean)]

def arrayClass (className : JString) : Code σ JavaClass :=
  match primitiveNames.find? (javaString ·.1 = className) with
  | some (_, p) => return .primitive p
  | none => catching (env.forName className) Stop.isClassNotFound (throwWrapped env)

/-- `new T[length]` and `Array.newInstance` -/
def allocateArray (component : JavaClass) (length : Int) : Code σ JavaObject :=
  if length < 0 then
    throwJava (.runtimeException "java.lang.NegativeArraySizeException"
      (javaString (ToString.toString length)))
  else library (env.newArray component length.toNat)

def newArray (className : JString) (length : Int) : Code σ Nat := do
  pushOne env (some (← allocateArray env (← arrayClass env className) length))

/-! ### Proxies -/

def createProxyObject (implem : JString) : Code σ Nat := do
  catching (do
    if !(← LuaState.isTable 2) then
      throwLuaException "Parameter is not a table. Can't create proxy."
    else
      let luaObj ← LuaObject.registerValue 2
      let proxy ← luaObj.createProxy env implem
      LuaState.pushJavaObject env proxy) env.isException (throwWrapped env)
  return 1

end JLua.JLuaAPI
