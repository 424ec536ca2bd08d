import JLua.JLuaAPI

/-!
# The C functions of the library

Lua calls them with a stack of their own, on which the callback they make works too. They end with
the number of results on top, or raise an error; a Java exception that a callback leaves behind is
pushed and raised.
-/

namespace JLua.Native

open BinaryFloat Conversion Metatables OutcomeRules
set_option autoImplicit false

/-- What the C functions find in the registry, what they leave to Java and to Lua, and what the
compiler makes of a number that `lua_Integer` has no room for. -/
structure Bridge (σ : Type) where
  luaStateIndex : Heap σ → Option Double
  envFromState : Heap σ → Bool
  setLastExceptionStackTrace : Double → Option JString → σ → σ
  exceptionObject : Thrown → JavaObject
  pushMethodClosure : JString → Heap σ → Nat × Heap σ
  outOfRange : Double → Int64

variable {σ α : Type} (env : Env σ) (B : Bridge σ)

/-- `lua_error` -/
def luaError : Code σ α := do
  throw (.raises (LuaState.valueAt (← get) (-1)))

def luaErrorString (message : String) : Code σ α := do
  LuaState.onStack (luaPushstring · message)
  luaError

/-- `lua_call`, which lets an error out. -/
def luaCall (nargs : Nat) (nresults : Int) : Code σ Unit := fun w =>
  let base := w.stack.length - nargs - 1
  match env.vm.call (w.stack[base]?.getD .nil) (w.stack.drop (base + 1)) w.heap with
  | none => .error .hangs w
  | some (.error e, h) => .error (.raises e) (w.setHeap h)
  | some (.ok vs, h) =>
    .ok () ((w.setStack (w.stack.take base ++ adjust nresults vs)).setHeap h)

def luaGetfield (idx : Int) (k : String) : Code σ Unit := do
  let w ← get
  let v ← LuaState.access (luaVGettable env.vm (LuaState.valueAt w idx) (.ofString k))
  LuaState.onStack (· ++ [v])

/-- `lua_getfield` of `LUA_GLOBALSINDEX`. -/
def luaGetglobal (name : String) : Code σ Unit := do
  let v ← LuaState.access fun h => luaVGettable env.vm (env.vm.globals h) (.ofString name) h
  LuaState.onStack (· ++ [v])

def getLuaStateIndex : Code σ Double := do
  match B.luaStateIndex (← get).heap with
  | some stateIndex => return stateIndex
  | none => luaErrorString "Impossible to identify luaState id."

def getEnvFromStateCheck : Code σ Unit := do
  if B.envFromState (← get).heap then pure ()
  else luaErrorString "Invalid JNI Environment."

/-- The part of `setExceptionStackTrace` that looks for `debug.traceback` and calls it. The text is
`none` unless `is_ok`. -/
def traceback : Code σ (Option JString) := do
  luaGetglobal env "debug"
  if !(← LuaState.isTable (-1)) then
    LuaState.pop 1
    return none
  else
    luaGetfield env (-1) "traceback"
    if !(← LuaState.isFunction (-1)) then
      LuaState.pop 2
      return none
    else
      LuaState.onStack (luaPushstring · "")
      LuaState.pushNumber (.ofInt _ 2)
      luaCall env 2 1
      if !(← LuaState.isString (-1)) then
        LuaState.pop 1
        return none
      else LuaState.toString env (-1)

def setExceptionStackTrace : Code σ Unit := do
  let stateIndex ← getLuaStateIndex B
  let str ← traceback env
  modify fun w => { w with rest := B.setLastExceptionStackTrace stateIndex str w.rest }
  LuaState.pop 1

/-- `pushJavaObject` without the check. -/
def pushUserdata (obj : JavaObject) : Code σ Unit :=
  LuaState.liftState fun L => .ok ((), L.pushUserdata obj)

def raiseException (exp : Thrown) : Code σ α := do
  setExceptionStackTrace env B
  pushUserdata (B.exceptionObject exp)
  luaError

/-- A call of a static method, and what follows it. -/
def handleException (callback : Code σ α) : Code σ α := fun w =>
  match callback w with
  | .error (.throws exp) w' => raiseException env B exp w'
  | result => result

/-- `isJavaObject` and `lua_touserdata`. -/
def javaObject (idx : Int) (message : String) : Code σ JavaObject := do
  let w ← get
  match Conversion.getObjectFromUserdata w.lua (LuaState.valueAt w idx) with
  | some obj => return obj
  | none => luaErrorString message

def throwObj : Code σ Nat := do
  if (← LuaState.getTop) ≠ 1 then luaErrorString "Error. Function throw expects 1 argument."
  else
    let _ ← getLuaStateIndex B
    getEnvFromStateCheck B
    setExceptionStackTrace env B
    LuaState.pushValue 1
    luaError

/-! ### Objects -/

def objectIndexReturn (methodName : JString) : Code σ Nat := do
  let _ ← getLuaStateIndex B
  let obj ← javaObject 1 "Not a valid OO function call."
  getEnvFromStateCheck B
  handleException env B (JLuaAPI.objectIndex env obj methodName)

/-- A name that is no member gives the closure of `objectIndexReturn` over it. -/
def objectIndex : Code σ Nat := do
  let _ ← getLuaStateIndex B
  if !(← LuaState.isString (-1)) then luaErrorString "Invalid object index. Must be string."
  else
    let key := (← LuaState.toString env (-1)).getD []
    let obj ← javaObject 1 "Not a valid Java Object."
    getEnvFromStateCheck B
    let checkField ← handleException env B (JLuaAPI.checkField env obj key)
    if checkField ≠ 0 then return checkField
    else
      modify fun w =>
        let (a, h) := B.pushMethodClosure key w.heap
        (w.setStack (w.stack ++ [.function a])).setHeap h
      return 1

def objectNewIndex : Code σ Nat := do
  let _ ← getLuaStateIndex B
  let obj ← javaObject 1 "Not a valid java class."
  if !(← LuaState.isString 2) then luaErrorString "Not a valid field call."
  else
    let fieldName := (← LuaState.toString env 2).getD []
    getEnvFromStateCheck B
    handleException env B (JLuaAPI.objectNewIndex env obj fieldName)

/-! ### Arrays -/

/-- The integral part, if there is one. -/
def integralPart : Double → Option Int
  | .zero _ => some 0
  | .finite m e _ => some (Number.truncate m e)
  | _ => none

/-- `lua_number2integer`, with a `lua_Integer` of 64 bits. -/
def luaNumber2integer (x : Double) : Int64 :=
  match integralPart x with
  | some i => if -2 ^ 63 ≤ i ∧ i < 2 ^ 63 then Int64.ofInt i else B.outOfRange x
  | none => B.outOfRange x

def luaTointeger (idx : Int) : Code σ Int64 := luaNumber2integer B <$> LuaState.toNumber env idx

/-- The index reaches Java as a `jint`. -/
def arrayIndex : Code σ Nat := do
  let number ← LuaState.isNumber env (-1)
  if !number && !(← LuaState.isString (-1)) then
    luaErrorString "Invalid object index. Must be integer or string."
  else if !number then objectIndex env B
  else
    let _ ← getLuaStateIndex B
    let key ← luaTointeger env B (-1)
    let obj ← javaObject 1 "Not a valid Java Object."
    getEnvFromStateCheck B
    handleException env B (JLuaAPI.arrayIndex env obj key.toInt32.toInt)

def arrayNewIndex : Code σ Nat := do
  let _ ← getLuaStateIndex B
  let obj ← javaObject 1 "Not a valid java class."
  if !(← LuaState.isNumber env 2) then luaErrorString "Not a valid array index."
  else
    let key ← luaTointeger env B 2
    getEnvFromStateCheck B
    handleException env B (JLuaAPI.arrayNewIndex env obj key.toInt32.toInt)

def newArray : Code σ Nat := do
  if (← LuaState.getTop) ≠ 2 then luaErrorString "Error. Function newArray expects 2 argument."
  else
    let _ ← getLuaStateIndex B
    getEnvFromStateCheck B
    if !(← LuaState.isString 1) then
      luaErrorString "Invalid parameter type. String expected."
    else
      let className := (← LuaState.toString env 1).getD []
      if !(← LuaState.isNumber env 2) then
        luaErrorString "Invalid parameter type. Number expected."
      else
        let length ← luaTointeger env B 2
        handleException env B (JLuaAPI.newArray env className length.toInt32.toInt)

/-! ### Functions -/

/-- An object that is no `JavaFunction` is reported to `stderr`. -/
def jluaFunctionCall (execute : JavaObject → Code σ Nat) : Code σ Nat := do
  let obj ← javaObject 1 "Not a java Function."
  getEnvFromStateCheck B
  match obj with
  | .javaFunction _ _ => handleException env B (execute obj)
  | _ => return 0

/-! ### Runs -/

/-- `jlua_open` has been called, and the thread is attached to the JVM. -/
structure Opened (h : Heap σ) : Prop where
  luaStateIndex : (B.luaStateIndex h).isSome
  envFromState : B.envFromState h = true

variable {env B} {w : World σ}

theorem Opened.getLuaStateIndex (h : Opened B w.heap) :
    ∃ stateIndex, getLuaStateIndex B w = .ok stateIndex w := by
  obtain ⟨stateIndex, hindex⟩ := Option.isSome_iff_exists.mp h.luaStateIndex
  exact ⟨stateIndex, by simp only [Native.getLuaStateIndex, get_bind, hindex]; rfl⟩

theorem Opened.getEnvFromStateCheck (h : Opened B w.heap) :
    getEnvFromStateCheck B w = .ok () w := by
  simp only [Native.getEnvFromStateCheck, get_bind, h.envFromState]
  rfl

theorem javaObject_run (idx : Int) {obj : JavaObject}
    (h : Conversion.getObjectFromUserdata w.lua (LuaState.valueAt w idx) = some obj)
    (message : String) : javaObject idx message w = .ok obj w := by
  simp only [javaObject, get_bind, h]
  rfl

theorem handleException_ok {callback : Code σ α} {a : α} {w' : World σ}
    (h : callback w = .ok a w') : handleException env B callback w = .ok a w' := by
  simp only [handleException, h]

theorem handleException_error {callback : Code σ α} {t : Thrown} {w' : World σ}
    (h : callback w = .error (.throws t) w') :
    handleException env B callback w = raiseException env B t w' := by
  simp only [handleException, h]

/-- Nothing is returned once the handler has an exception. -/
theorem raiseException_ne_ok {α : Type} {t : Thrown} {r : α} {w' : World σ} :
    (raiseException env B t : Code σ α) w ≠ .ok r w' := by
  intro h
  obtain ⟨_, w₁, _, h⟩ := bind_eq_ok_iff.mp h
  obtain ⟨_, w₂, _, h⟩ := bind_eq_ok_iff.mp h
  cases h

/-! ### A small world for examples -/

def Bridge.plain {σ : Type} : Bridge σ where
  luaStateIndex _ := some (.ofInt _ 0)
  envFromState _ := true
  setLastExceptionStackTrace _ _ s := s
  exceptionObject _ := .object 1 0
  pushMethodClosure _ h := (0, h)
  outOfRange _ := Int64.minValue

theorem opened_plain {σ : Type} (h : Heap σ) : Opened Bridge.plain h := ⟨rfl, rfl⟩

end JLua.Native
