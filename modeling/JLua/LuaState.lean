import JLua.JavaCode

/-!
# The methods of LuaState

The native methods are the functions of the Lua API on the stack of the state at work. Those that
go through metatables can be left by a Lua error.
-/

namespace JLua.LuaState

open BinaryFloat Conversion Metatables ModifiedUtf8 OutcomeRules
set_option autoImplicit false

variable {σ α : Type} {w : World σ} {E : Stop → World σ → Prop}

def ask (f : World σ → α) : Code σ α := f <$> get

def onStack (f : Stack → Stack) : Code σ Unit := modify fun w => w.setStack (f w.stack)

def valueAt (w : World σ) (idx : Int) : Value := (index2adr w.stack idx).getD .nil

/-- A change of the `lua_State` alone, which may throw a `LuaException` instead. -/
def liftState (f : State → Except LuaException (α × State)) : Code σ α := fun w =>
  match f w.lua with
  | .ok (a, L) => .ok a { w with lua := L }
  | .error e => .error (.throws (.luaException (some (javaString e.message)))) w

/-- What the virtual machine does for a native method. -/
def access (a : Heap σ → Access (Heap σ)) : Code σ Value := fun w =>
  match a w.heap with
  | none => .error .hangs w
  | some (.error e, h) => .error (.raises e) (w.setHeap h)
  | some (.ok v, h) => .ok v (w.setHeap h)

section Rules
variable {Q : α → World σ → Prop}

@[simp] theorem ends_ask {f : World σ → α} : Ends (ask f) w Q E ↔ Q (f w) w := Iff.rfl

@[simp] theorem ends_onStack {f : Stack → Stack} {Q : Unit → World σ → Prop} :
    Ends (onStack f) w Q E ↔ Q () (w.setStack (f w.stack)) := Iff.rfl

theorem ends_liftState {f : State → Except LuaException (α × State)} :
    Ends (liftState f) w Q E ↔
      (∀ a L, f w.lua = .ok (a, L) → Q a { w with lua := L }) ∧
      ∀ e, f w.lua = .error e → E (.throws (.luaException (some (javaString e.message)))) w := by
  unfold Ends liftState
  cases f w.lua with
  | error e => simp
  | ok r => exact ⟨fun h => ⟨by rintro a L ⟨⟩; exact h, by simp⟩, fun h => h.1 r.1 r.2 rfl⟩

theorem liftState_eq_ok_iff {f : State → Except LuaException (α × State)} {w w' : World σ} {a : α} :
    liftState f w = .ok a w' ↔ ∃ L, f w.lua = .ok (a, L) ∧ w' = { w with lua := L } := by
  unfold liftState
  cases hf : f w.lua with
  | error e => simp
  | ok r =>
    constructor
    · rintro ⟨⟩
      exact ⟨r.2, rfl, rfl⟩
    · rintro ⟨L, hr, rfl⟩
      cases hr
      rfl

theorem access_run {a : Heap σ → Access (Heap σ)} {w : World σ} {v : Value} {h : Heap σ}
    (ha : a w.heap = some (.ok v, h)) : access a w = .ok v (w.setHeap h) := by
  rw [access, ha]

theorem ends_access {a : Heap σ → Access (Heap σ)} {Q : Value → World σ → Prop} :
    Ends (access a) w Q E ↔ (a w.heap = none → E .hangs w) ∧
      (∀ e h, a w.heap = some (.error e, h) → E (.raises e) (w.setHeap h)) ∧
      ∀ v h, a w.heap = some (.ok v, h) → Q v (w.setHeap h) := by
  unfold Ends access
  cases a w.heap with
  | none => simp
  | some r =>
    obtain ⟨result, h⟩ := r
    cases result <;> simp

end Rules

/-! ### The stack -/

def getTop : Code σ Nat := ask fun w => luaGettop w.stack

def pushValue (idx : Int) : Code σ Unit := onStack fun L => luaPushvalue L idx

def remove (idx : Int) : Code σ Unit := onStack fun L => luaRemove L idx

def pop (n : Nat) : Code σ Unit := onStack fun L => luaPop L n

def type (idx : Int) : Code σ LuaType := ask fun w => luaType w.stack idx

def isBoolean (idx : Int) : Code σ Bool := (· = .boolean) <$> type idx

def isFunction (idx : Int) : Code σ Bool := (· = .function) <$> type idx

def isTable (idx : Int) : Code σ Bool := (· = .table) <$> type idx

def isNil (idx : Int) : Code σ Bool := (· = .nil) <$> type idx

def isString (idx : Int) : Code σ Bool :=
  (fun t : LuaType => t = .string || t = .number) <$> type idx

def isUserdata (idx : Int) : Code σ Bool :=
  (fun t : LuaType => t = .userdata || t = .lightuserdata) <$> type idx

def isObject (idx : Int) : Code σ Bool := ask fun w => Conversion.isObject w.lua (valueAt w idx)

def toBoolean (idx : Int) : Code σ Bool :=
  ask fun w => valueAt w idx ≠ .nil && valueAt w idx ≠ .boolean false

/-- What a Java string becomes on its way through a C string. -/
def luaString (s : JString) : Value := .string (cString (encode s))

def pushString (s : Option JString) : Code σ Unit := onStack (· ++ [s.elim .nil luaString])

def pushNumber (x : Double) : Code σ Unit := onStack (· ++ [.number x])

/-! ### References -/

def rawGetI (ref : Int) : Code σ Unit :=
  modify fun w => w.setStack (w.stack ++ [w.lua.registry.rawGetI ref])

/-- `luaL_ref` in the registry, which pops the value. -/
def Lref : Code σ Int := fun w =>
  let (ref, registry) := w.lua.registry.luaLRef (valueAt w (-1))
  .ok ref ((w.setStack (luaPop w.stack 1)).setHeap { w.heap with registry })

@[simp] theorem ends_rawGetI {ref : Int} {Q : Unit → World σ → Prop} :
    Ends (rawGetI ref) w Q E ↔
      Q () (w.setStack (w.stack ++ [w.lua.registry.rawGetI ref])) := Iff.rfl

@[simp] theorem ends_Lref {Q : Int → World σ → Prop} : Ends Lref w Q E ↔
    Q (w.lua.registry.luaLRef (valueAt w (-1))).1 ((w.setStack (luaPop w.stack 1)).setHeap
      { w.heap with registry := (w.lua.registry.luaLRef (valueAt w (-1))).2 }) := Iff.rfl

/-! ### Through the virtual machine -/

variable (env : Env σ)

def isNumber (idx : Int) : Code σ Bool := ask fun w =>
  match valueAt w idx with
  | .number _ => true
  | .string s => (env.stringToNumber s).isSome
  | _ => false

def toNumber (idx : Int) : Code σ Double := ask fun w =>
  match valueAt w idx with
  | .number x => x
  | .string s => (env.stringToNumber s).getD (.ofInt _ 0)
  | _ => .ofInt _ 0

/-- `NewStringUTF` of `lua_tostring`; no text is `null`. A number in the slot becomes a string. -/
def toString (idx : Int) : Code σ (Option JString) := do
  match valueAt (← get) idx with
  | .string s => return some (env.host.newStringUTF (cString s))
  | .number x =>
    let s := env.numberToString x
    onStack fun L => L.set (absIndex L idx) (.string s)
    return some (env.host.newStringUTF (cString s))
  | _ => return none

/-- As many bytes as `lua_strlen` says, from where `lua_tostring` points: nowhere for a value that
has no text. -/
def toByteArray (strlen : Value → Heap σ → Nat) (idx : Int) : Code σ (List UInt8) := do
  let w ← get
  match valueAt w idx with
  | .string s => return s
  | .number x =>
    let s := env.numberToString x
    onStack fun L => L.set (absIndex L idx) (.string s)
    return s
  | v => if strlen v w.heap = 0 then return [] else throw .hangs

def newTable : Code σ Unit := fun w =>
  let (a, h) := env.vm.newtable w.heap
  .ok () ((w.setStack (w.stack ++ [.table a])).setHeap h)

/-- `lua_gettable`: the key on top gives way to the value. -/
def getTable (idx : Int) : Code σ Unit := do
  let w ← get
  let v ← access (luaVGettable env.vm (valueAt w idx) (valueAt w (-1)))
  onStack fun L => luaPop L 1 ++ [v]

def setTable (idx : Int) : Code σ Unit := do
  let w ← get
  let _ ← access (luaVSettable env.vm (valueAt w idx) (valueAt w (-2)) (valueAt w (-1)))
  pop 2

def getGlobal (name : JString) : Code σ Unit := do
  let v ← access fun h => luaVGettable env.vm (env.vm.globals h) (luaString name) h
  onStack (· ++ [v])

def setGlobal (name : JString) : Code σ Unit := do
  let val := valueAt (← get) (-1)
  let _ ← access fun h => luaVSettable env.vm (env.vm.globals h) (luaString name) val h
  pop 1

def pcall (nArgs : Nat) (nResults : Int) : Code σ Int := fun w =>
  match luaPcall env.vm.call w.stack nArgs nResults w.heap with
  | none => .error .hangs w
  | some (err, L, h) => .ok err ((w.setStack L).setHeap h)

/-- `luaL_dostring`, which answers 1 for any error. -/
def LdoString (script : JString) : Code σ Int := do
  let w ← get
  match env.loadstring (cString (encode script)) w.heap with
  | (.error message, h) =>
    set ((w.setStack (w.stack ++ [message])).setHeap h)
    return 1
  | (.ok f, h) =>
    set ((w.setStack (w.stack ++ [f])).setHeap h)
    let err ← pcall env 0 LUA_MULTRET
    return if err ≠ 0 then 1 else 0

/-- `luaL_dofile` -/
def LdoFile (loadfile : List UInt8 → Heap σ → Except Value Value × Heap σ) (fileName : JString) :
    Code σ Int := do
  let w ← get
  match loadfile (cString (encode fileName)) w.heap with
  | (.error message, h) =>
    set ((w.setStack (w.stack ++ [message])).setHeap h)
    return 1
  | (.ok f, h) =>
    set ((w.setStack (w.stack ++ [f])).setHeap h)
    let err ← pcall env 0 LUA_MULTRET
    return if err ≠ 0 then 1 else 0

/-! ### Java objects -/

def getObjectFromUserdata (idx : Int) : Code σ JavaObject := do
  let w ← get
  match Conversion.getObjectFromUserdata w.lua (valueAt w idx) with
  | some obj => return obj
  | none => throwJava (.runtimeException "java.lang.Exception" "Index is not a java object")

def pushJavaObject (obj : JavaObject) : Code σ Unit :=
  liftState fun L => (Conversion.pushJavaObject env.host L obj).map ((), ·)

def pushObjectValue (obj : Option JavaObject) : Code σ Unit :=
  liftState fun L => (Conversion.pushObjectValue env.host L obj).map ((), ·)

def toJavaObject (idx : Int) : Code σ (Option JavaObject) :=
  liftState fun L => .ok (Conversion.toJavaObject env.host L idx)

def isJavaFunction (idx : Int) : Code σ Bool := ask fun w =>
  match Conversion.getObjectFromUserdata w.lua (valueAt w idx) with
  | some (.javaFunction _ _) => true
  | _ => false

end JLua.LuaState
