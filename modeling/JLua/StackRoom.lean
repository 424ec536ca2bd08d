import JLua.GlobalCalls
import JLua.Lib.Gauge
import JLua.NativeHelpers

/-!
# Room on the stack for a call

A C function has room for `LUA_MINSTACK` values above its arguments, and for more after
`checkStack`. The methods that call Lua functions run here on the frame of the C function below
them: each native method first takes what `getStateFromCPtr` needs, on top of what is on the stack.
-/

namespace JLua.StackRoom

open BinaryFloat Calls Conversion Delivery Gauge GlobalCalls OutcomeRules Pushing
open NativeHelpers (C Frame Outside getStateFromCPtr JLUAOBJECTIND JNI_OK)
set_option autoImplicit false

variable {σ α β : Type}

def LUA_MINSTACK : Nat := 20

abbrev FramedCode (σ α : Type) := EStateM Stop (Gauged (World σ)) α

/-! ### Native methods -/

/-- The thread runs Java code, so it is attached. -/
def javaThread : Outside where
  javaVM := 1
  version := 0x00010006
  getEnv _ _ := (JNI_OK, 1)
  attachCurrentThread _ := 0
  checkJavaObj _ _ := none
  stringToNumber _ := none

def blockOf : Userdata → NativeHelpers.Udata
  | .java obj => ⟨.jobject obj, some 0⟩
  | .plain => ⟨.other, none⟩

/-- The frame as C code finds it, with one metatable for all Java objects. -/
def frame (g : Gauged (World σ)) : Frame where
  stack := g.state.stack
  limit := g.limit
  overflow := g.overflow
  registry _ := .nil
  tables := [⟨fun k => if k = .ofString JLUAOBJECTIND then .boolean true else .nil, none⟩]
  userdata := g.state.lua.userdata.map blockOf
  closures := []
  typeMetatable _ := none

/-- The slots that C code takes. What it does to the heap is done by the method around it. -/
def native (c : C Unit) : FramedCode σ Unit :=
  modify fun g => { g with overflow := (endState (c (frame g))).overflow }

/-- A native method that pushes nothing of its own. -/
def asking (op : Code σ α) : FramedCode σ α := do
  native (getStateFromCPtr javaThread)
  lift op

/-- A native method that pushes one value. -/
def pushing (op : Code σ Unit) : FramedCode σ Unit := do
  asking op
  demand fun w => w.stack.length

/-- A native method that calls `isJavaObject`. -/
def recognizing (idx : Int) (op : Code σ α) : FramedCode σ α := do
  native do
    getStateFromCPtr javaThread
    let _ ← NativeHelpers.isJavaObject idx
  lift op

def luaPush (v : Value) : C Unit := modify (·.push v)

/-- The stack of `luaL_ref` in the registry. -/
def luaLRef (R : Registry) (v : Value) : C Unit := do
  if v = .nil then NativeHelpers.luaPop 1
  else
    luaPush (R.rawGetI Registry.FREELIST_REF)
    NativeHelpers.luaPop 1
    if Registry.toInteger (R.rawGetI Registry.FREELIST_REF) ≠ 0 then
      luaPush (R.rawGetI (Registry.toInteger (R.rawGetI Registry.FREELIST_REF)))
      NativeHelpers.luaPop 1
    NativeHelpers.luaPop 1

def Lref : FramedCode σ Int := do
  let w := (← get).state
  native do
    getStateFromCPtr javaThread
    luaLRef w.lua.registry (LuaState.valueAt w (-1))
  lift LuaState.Lref

/-- The native method for an object that becomes a userdata. -/
def pushProxy (obj : JavaObject) : C Unit :=
  match obj with
  | .javaFunction _ _ => NativeHelpers.pushJavaFunction javaThread obj
  | _ => do
    getStateFromCPtr javaThread
    if obj.isArray then NativeHelpers.pushJavaArray javaThread obj
    else NativeHelpers.pushJavaObject javaThread obj false

variable (env : Env σ)

/-- An object that is denied is not pushed, and one of another state takes no slot of this one. -/
def pushObjectValue (obj : Option JavaObject) : FramedCode σ Unit := do
  let w := (← get).state
  match denial env.host obj, held obj with
  | some _, _ => lift (LuaState.pushObjectValue env obj)
  | none, [] =>
    if isOwn w.peer obj then pushing (LuaState.pushObjectValue env obj)
    else lift (LuaState.pushObjectValue env obj)
  | none, _ => do
    native (obj.elim (pure ()) pushProxy)
    lift (LuaState.pushObjectValue env obj)

/-- `adjustresults` -/
def adjustResults (nResults : Int) : FramedCode σ Unit :=
  if nResults = LUA_MULTRET then
    modify fun g => { g with limit := max g.limit g.state.stack.length }
  else demand fun w => w.stack.length

def pcall (nArgs : Nat) (nResults : Int) : FramedCode σ Int := do
  let err ← asking (LuaState.pcall env nArgs nResults)
  adjustResults nResults
  return err

/-! ### LuaObject -/

def push (o : LuaObject) : FramedCode σ Unit := pushing o.push

def pop (n : Nat) : FramedCode σ Unit := asking (LuaState.pop n)

def registerValue (index : Int) : FramedCode σ LuaObject := do
  pushing (LuaState.pushValue index)
  let ref ← Lref
  return ⟨(← get).state.peer, ref⟩

def withPushed (look : FramedCode σ α) (o : LuaObject) : FramedCode σ α := do
  push o
  let answer ← look
  pop 1
  return answer

def getObjectFromUserdata (idx : Int) : FramedCode σ JavaObject :=
  recognizing idx (LuaState.getObjectFromUserdata idx)

def isObject (idx : Int) : FramedCode σ Bool := recognizing idx (LuaState.isObject idx)

def isJavaFunction (idx : Int) : FramedCode σ Bool := recognizing idx (LuaState.isJavaFunction idx)

def getObject (o : LuaObject) : FramedCode σ JavaObject := withPushed (getObjectFromUserdata (-1)) o

def isNil (o : LuaObject) : FramedCode σ Bool := withPushed (asking (LuaState.isNil (-1))) o

def isBoolean (o : LuaObject) : FramedCode σ Bool := withPushed (asking (LuaState.isBoolean (-1))) o

def isNumber (o : LuaObject) : FramedCode σ Bool :=
  withPushed (asking (LuaState.isNumber env (-1))) o

def isString (o : LuaObject) : FramedCode σ Bool := withPushed (asking (LuaState.isString (-1))) o

def isFunction (o : LuaObject) : FramedCode σ Bool :=
  withPushed (asking (LuaState.isFunction (-1))) o

def isTable (o : LuaObject) : FramedCode σ Bool := withPushed (asking (LuaState.isTable (-1))) o

def isUserdata (o : LuaObject) : FramedCode σ Bool :=
  withPushed (asking (LuaState.isUserdata (-1))) o

def isJavaObject (o : LuaObject) : FramedCode σ Bool := withPushed (isObject (-1)) o

def text (o : LuaObject) : FramedCode σ (Option JString) := do
  if ← isNil o then return some "nil"
  else if ← isBoolean o then
    return some (LuaObject.booleanText (← withPushed (asking (LuaState.toBoolean (-1))) o))
  else if ← isNumber env o then
    return some (env.doubleToString (← withPushed (asking (LuaState.toNumber env (-1))) o))
  else if ← isString o then withPushed (asking (LuaState.toString env (-1))) o
  else if ← isFunction o then return some "Lua Function"
  else if ← isJavaObject o then lift (library (env.toString (← getObject o)))
  else if ← isUserdata o then return some "Userdata"
  else if ← isTable o then return some "Lua Table"
  else if ← withPushed (isJavaFunction (-1)) o then return some "Java Function"
  else return none

def toString (o : LuaObject) : FramedCode σ (Option JString) :=
  catching (text env o) env.isLuaException fun _ => return none

/-! ### call -/

def pushAll : List (Option JavaObject) → FramedCode σ Unit
  | [] => pure ()
  | obj :: args => do
    pushObjectValue env obj
    pushAll args

def prepareCall (o : LuaObject) (args : List (Option JavaObject)) : FramedCode σ Nat := do
  if !(← isFunction o) && !(← isTable o) && !(← isUserdata o) then
    lift (throwLuaException "Invalid object. Not a function, table or userdata .")
  else
    let top ← asking LuaState.getTop
    push o
    pushAll env args
    return top

def callError (err : Int) : FramedCode σ α := do
  if ← asking (LuaState.isString (-1)) then
    let str ← asking (LuaState.toString env (-1))
    pop 1
    lift (throwLuaException (LuaObject.errorText err (str.getD "null")))
  else if ← isObject (-1) then
    let o ← registerValue (-1)
    let obj ← getObject o
    let str ← lift (library (env.toString obj))
    pop 1
    if env.isThrowable obj then lift (throwJava (.throwable obj))
    else lift (throwLuaException (LuaObject.errorText err (str.getD "null")))
  else lift (throwLuaException (LuaObject.errorText err ""))

def toJavaObject (idx : Int) : FramedCode σ (Option JavaObject) := do
  if ← asking (LuaState.isBoolean idx) then
    return some (.boolean (← asking (LuaState.toBoolean idx)))
  else if (← asking (LuaState.type idx)) = .string then
    return (← asking (LuaState.toString env idx)).map .string
  else if ← asking (LuaState.isFunction idx) then
    return some (← registerValue idx).toJava
  else if ← asking (LuaState.isTable idx) then
    return some (← registerValue idx).toJava
  else if (← asking (LuaState.type idx)) = .number then
    return some (.double (← asking (LuaState.toNumber env idx)))
  else if ← asking (LuaState.isUserdata idx) then
    if ← isObject idx then return some (← getObjectFromUserdata idx)
    else return some (← registerValue idx).toJava
  else
    let _ ← asking (LuaState.isNil idx)
    return none

def popResults : Nat → List (Option JavaObject) → FramedCode σ (List (Option JavaObject))
  | 0, res => return res
  | i + 1, res => do
    let obj ← toJavaObject env (-1)
    pop 1
    popResults i (obj :: res)

def getResults (top : Nat) (nres : Int) : FramedCode σ (List (Option JavaObject)) := do
  let found : Int := (← asking LuaState.getTop) - top
  let nres := if nres = LUA_MULTRET then found else nres
  if found < nres then lift (throwLuaException "Invalid Number of Results .")
  else if nres < 0 then
    lift (throwJava (.runtimeException "java.lang.NegativeArraySizeException" ""))
  else popResults env nres.toNat []

def call (o : LuaObject) (args : List (Option JavaObject)) (nres : Int) :
    FramedCode σ (List (Option JavaObject)) := do
  let top ← prepareCall env o args
  let err ← pcall env args.length nres
  if err ≠ 0 then callError env err
  else getResults env top nres

/-! ### Lua -/

/-- The helpers of `Lua` on the frame. -/
def state : Interface (FramedCode σ) LuaObject (Option JavaObject) where
  getGlobal name := pushing (LuaState.getGlobal env name)
  setGlobal name := asking (LuaState.setGlobal env name)
  newTable := pushing (LuaState.newTable env)
  getTable idx := asking (LuaState.getTable env idx)
  setTable idx := asking (LuaState.setTable env idx)
  isTable idx := asking (LuaState.isTable idx)
  pop := pop
  pcall := pcall env
  pushObjectValue := pushObjectValue env
  getLuaObject := registerValue
  object o := some o.toJava
  objectIsTable := isTable
  objectIsJavaObject := isJavaObject
  objectGetObject := getObject
  objectToString := toString env
  isThrowable := env.isThrowable
  throwJava t := lift (throwJava t)

/-! ### What C code takes -/

/-- A push finds no free slot exactly if there are less than `k` of them. -/
def Takes (c : C α) (k : Nat) : Prop :=
  ∀ L, (endState (c L)).overflow = (L.reach k).overflow

def TakesAtMost (c : C α) (k : Nat) : Prop :=
  ∀ L, L.overflow ≤ (endState (c L)).overflow ∧ (endState (c L)).overflow ≤ (L.reach k).overflow

theorem getStateFromCPtr_run (L : Frame) :
    getStateFromCPtr javaThread L = .ok () (L.withEnv javaThread) :=
  NativeHelpers.pushJNIEnv_run javaThread L

theorem takes_getStateFromCPtr : Takes (getStateFromCPtr javaThread) 2 := by
  intro L
  rw [getStateFromCPtr_run]
  exact L.overflow_withEnv javaThread

theorem reach_withEnv (L : Frame) (k : Nat) (hk : 2 ≤ k) :
    ((L.withEnv javaThread).reach k).overflow = (L.reach k).overflow := by
  have hreach := congrArg Frame.overflow (L.reach_reach 2 k)
  rw [Nat.max_eq_right hk] at hreach
  rw [← hreach]
  simp only [Frame.reach, L.overflow_withEnv javaThread]
  rfl

theorem takes_after_state {c : C α} (h : TakesAtMost c 2) :
    Takes (do getStateFromCPtr javaThread; c) 2 := by
  intro L
  obtain ⟨hlow, hhigh⟩ := h (L.withEnv javaThread)
  rw [reach_withEnv L 2 (Nat.le_refl 2)] at hhigh
  rw [L.overflow_withEnv javaThread] at hlow
  rw [bind_of_ok (getStateFromCPtr_run L)]
  exact le_antisymm hhigh hlow

theorem le_reach (L : Frame) (k : Nat) : L.overflow ≤ (L.reach k).overflow :=
  Bool.left_le_or _ _

theorem reach_le_reach (L : Frame) {m n : Nat} (h : m ≤ n) :
    (L.reach m).overflow ≤ (L.reach n).overflow := by
  have hreach := congrArg Frame.overflow (L.reach_reach m n)
  rw [Nat.max_eq_right h] at hreach
  rw [← hreach]
  exact le_reach _ n

theorem takesAtMost_isJavaObject (idx : Int) : TakesAtMost (NativeHelpers.isJavaObject idx) 2 := by
  intro L
  rw [NativeHelpers.isJavaObject_run]
  change L.overflow ≤ (L.probe _).overflow ∧ (L.probe _).overflow ≤ _
  unfold Frame.probe
  split
  · exact ⟨le_reach L 2, le_refl _⟩
  · exact ⟨le_refl _, le_reach L 2⟩

theorem pushed_popped (L : Frame) (v : Value) (c : C α) :
    (do luaPush v; NativeHelpers.luaPop 1; c : C α) L = c (L.reach 1) := by
  have hpush : luaPush v L = .ok () ((L.reach 1).put v) := rfl
  rw [bind_of_ok hpush, bind_of_ok (NativeHelpers.luaPop_run _ v)]

theorem overflow_luaLRef (R : Registry) (v : Value) (L : Frame) :
    (endState (luaLRef R v L)).overflow =
      if v = .nil then L.overflow else (L.reach 1).overflow := by
  unfold luaLRef
  split
  · rfl
  · rw [pushed_popped]
    split
    · beta_reduce
      rw [pushed_popped, L.reach_reach 1 1]
      rfl
    · rfl

theorem takesAtMost_luaLRef (R : Registry) (v : Value) : TakesAtMost (luaLRef R v) 2 := by
  intro L
  rw [overflow_luaLRef]
  split
  · exact ⟨le_refl _, le_reach L 2⟩
  · exact ⟨le_reach L 1, reach_le_reach L (by omega)⟩

theorem takes_pushProxy (obj : JavaObject) : Takes (pushProxy obj) 4 := by
  intro L
  have henv : (L.withEnv javaThread).env javaThread = some 1 := NativeHelpers.env_withEnv _ L
  have hreach : ∀ metamethods, (((L.withEnv javaThread).reach 1).withProxy
      metamethods obj).overflow = (L.reach 4).overflow := by
    intro metamethods
    rw [Frame.overflow_withProxy, Frame.reach_reach]
    exact reach_withEnv L 4 (by omega)
  have hobject : (endState ((do
      getStateFromCPtr javaThread
      if obj.isArray then NativeHelpers.pushJavaArray javaThread obj
      else NativeHelpers.pushJavaObject javaThread obj false : C Unit) L)).overflow =
        (L.reach 4).overflow := by
    rw [bind_of_ok (getStateFromCPtr_run L)]
    split
    · rw [NativeHelpers.pushJavaArray, NativeHelpers.checked_run henv]
      exact hreach _
    · exact (congrArg (fun r => (endState r).overflow)
        (NativeHelpers.checked_run henv _ _ obj)).trans (hreach _)
  cases obj with
  | javaFunction id ref =>
    change (endState (NativeHelpers.pushJavaFunction javaThread _ L)).overflow = _
    rw [NativeHelpers.pushJavaFunction_run]
    exact (Frame.overflow_withProxy _ _ _).trans (reach_withEnv L 4 (by omega))
  | _ => exact hobject

theorem takes_isJavaObject (idx : Int) : Takes (do
    getStateFromCPtr javaThread
    let _ ← NativeHelpers.isJavaObject idx) 2 := by
  refine takes_after_state fun L => ?_
  have hrun := takesAtMost_isJavaObject idx L
  rw [NativeHelpers.isJavaObject_run] at hrun
  rw [bind_of_ok (NativeHelpers.isJavaObject_run idx L)]
  exact hrun

/-! ### What native methods take -/

variable {env} {w w' : World σ} {k : α → FramedCode σ β} {r : EStateM.Result Stop (World σ) β}

theorem runs_native {c : C Unit} {n : Nat} (h : Takes c n) (w : World σ) :
    Runs (native c) w (.ok () w) (w.stack.length + n) := by
  intro limit b
  change EStateM.Result.ok () (⟨w, limit, (endState (c (frame ⟨w, limit, b⟩))).overflow⟩ :
    Gauged (World σ)) = _
  rw [h (frame ⟨w, limit, b⟩)]
  rfl

theorem runs_native_lift {c : C Unit} {n : Nat} (h : Takes c n) (op : Code σ α) (w : World σ) :
    Runs (do native c; lift op) w (op w) (w.stack.length + n) := by
  exact ((runs_native h w).bind (runs_lift op w)).of_eq (Nat.max_zero _)

theorem runs_asking (op : Code σ α) (w : World σ) :
    Runs (asking op) w (op w) (w.stack.length + 2) := runs_native_lift takes_getStateFromCPtr op w

theorem runs_recognizing (idx : Int) (op : Code σ α) (w : World σ) :
    Runs (recognizing idx op) w (op w) (w.stack.length + 2) :=
  runs_native_lift (takes_isJavaObject idx) op w

theorem runs_pushing (op : Code σ Unit)
    (hop : ∀ w', op w = .ok () w' → w'.stack.length ≤ w.stack.length + 2) :
    Runs (pushing op) w (op w) (w.stack.length + 2) := by
  have hrun : (op >>= fun _ => (pure () : Code σ Unit)) w = op w := by
    cases h : op w with
    | ok a w' => exact bind_of_ok h
    | error e w' => exact bind_of_error h
  rw [← hrun]
  refine (runs_asking op w).bind_within fun _ w' h => ?_
  exact (runs_demand _ w').within (hop w' h)

theorem runs_Lref (w : World σ) : Runs Lref w (LuaState.Lref w) (w.stack.length + 2) := by
  intro limit b
  exact runs_native_lift (takes_after_state (takesAtMost_luaLRef _ _)) LuaState.Lref w limit b

/-! ### What an object takes -/

/-- Code that leaves no more on the stack than it has found. -/
def Keeps (op : Code σ α) : Prop := ∀ w a w', op w = .ok a w' → w'.stack.length ≤ w.stack.length

/-- Code that changes nothing if it returns. -/
def Still (op : Code σ α) : Prop := ∀ w a w', op w = .ok a w' → w' = w

theorem Still.keeps {op : Code σ α} (h : Still op) : Keeps op := by
  intro w a w' hrun
  rw [h w a w' hrun]

theorem still_ask (f : World σ → α) : Still (LuaState.ask f) := by
  rintro w a w' ⟨⟩
  rfl

theorem still_getObjectFromUserdata (idx : Int) :
    Still (LuaState.getObjectFromUserdata idx : Code σ JavaObject) := by
  intro w a w' hrun
  unfold LuaState.getObjectFromUserdata at hrun
  rw [get_bind] at hrun
  cases hobj : Conversion.getObjectFromUserdata w.lua (LuaState.valueAt w idx) with
  | some obj =>
    rw [hobj] at hrun
    cases hrun
    rfl
  | none =>
    rw [hobj] at hrun
    cases hrun

theorem Still.withPushed {look : Code σ α} (h : Still look) (o : LuaObject) :
    Still (o.withPushed look) := by
  intro w a w' hrun
  let w₁ := w.setStack (w.stack ++ [denoted o w])
  have hpush : (o.push : Code σ Unit) w = .ok () w₁ := rfl
  rw [LuaObject.withPushed, bind_of_ok hpush] at hrun
  obtain ⟨answer, w₂, hlook, hrest⟩ := bind_eq_ok_iff.mp hrun
  obtain rfl := h w₁ answer w₂ hlook
  rw [bind_of_ok (pop_run rfl)] at hrest
  cases hrest
  rfl

theorem keeps_toString (idx : Int) : Keeps (LuaState.toString env idx) := by
  intro w a w' hrun
  unfold LuaState.toString at hrun
  rw [get_bind] at hrun
  cases hv : LuaState.valueAt w idx with
  | number x =>
    rw [hv] at hrun
    cases hrun
    exact Nat.le_of_eq (List.length_set ..)
  | _ =>
    rw [hv] at hrun
    cases hrun
    exact Nat.le_refl _

theorem keeps_registerValue (idx : Int) :
    Keeps (LuaObject.registerValue idx : Code σ LuaObject) := by
  rintro w a w' ⟨⟩
  exact Nat.le_of_eq (congrArg List.length (luaPop_top w.stack _))

theorem runs_push (o : LuaObject) (w : World σ) :
    Runs (push o) w (.ok () (w.setStack (w.stack ++ [denoted o w]))) (w.stack.length + 2) := by
  refine runs_pushing o.push ?_
  rintro w' ⟨⟩
  change (w.stack ++ [denoted o w]).length ≤ _
  rw [List.length_append, List.length_singleton]
  omega

theorem runs_pop (n : Nat) (w : World σ) : Runs (pop n) w (LuaState.pop n w) (w.stack.length + 2) :=
  runs_asking _ w

theorem runs_registerValue (idx : Int) (w : World σ) :
    Runs (registerValue idx) w (LuaObject.registerValue idx w) (w.stack.length + 3) := by
  let w₁ := w.setStack (luaPushvalue w.stack idx)
  have hlength : w₁.stack.length = w.stack.length + 1 := List.length_append
  have hpush : Runs (pushing (LuaState.pushValue idx)) w (.ok () w₁) (w.stack.length + 2) := by
    refine runs_pushing (LuaState.pushValue idx) ?_
    rintro w' ⟨⟩
    exact Nat.le_succ_of_le (Nat.le_of_eq hlength)
  have href := runs_Lref w₁
  rw [hlength] at href
  have hrest : Runs (do let ref ← Lref; return (⟨(← get).state.peer, ref⟩ : LuaObject)) w₁
      ((do let ref ← LuaState.Lref; return (⟨(← get).peer, ref⟩ : LuaObject) : Code σ LuaObject) w₁)
      (w.stack.length + 3) :=
    href.bind_within fun ref w₂ _ =>
      (runs_state fun w => (⟨w.peer, ref⟩ : LuaObject)) w₂ |>.within (Nat.zero_le _)
  exact (hpush.bind hrest).of_eq (by omega)

theorem runs_withPushed {look : FramedCode σ α} {op : Code σ α}
    (hlook : ∀ w, Runs look w (op w) (w.stack.length + 2)) (hkeeps : Keeps op) (o : LuaObject)
    (w : World σ) : Runs (withPushed look o) w (o.withPushed op w) (w.stack.length + 3) := by
  let w₁ := w.setStack (w.stack ++ [denoted o w])
  have hlength : w₁.stack.length = w.stack.length + 1 := List.length_append
  have hlook₁ := hlook w₁
  rw [hlength] at hlook₁
  have hrest : Runs (do let answer ← look; pop 1; return answer) w₁
      ((do let answer ← op; LuaState.pop 1; return answer : Code σ α) w₁) (w.stack.length + 3) := by
    refine hlook₁.bind_within fun answer w₂ h => ?_
    have hle := hkeeps w₁ answer w₂ h
    refine Within.bind ((runs_pop 1 w₂).within (by omega)) fun _ w₃ _ => ?_
    exact within_pure answer w₃ _
  exact ((runs_push o w).bind hrest).of_eq (by omega)

theorem runs_look {op : Code σ α} (hop : Keeps op) (o : LuaObject) (w : World σ) :
    Runs (withPushed (asking op) o) w (o.withPushed op w) (w.stack.length + 3) :=
  runs_withPushed (runs_asking op) hop o w

theorem within_withPushed {look : FramedCode σ α} {op : Code σ α} {k' : α → Code σ β}
    (hlook : ∀ w, Runs look w (op w) (w.stack.length + 2)) (hop : Still op) (o : LuaObject)
    (hk : ∀ a, Within (k a) w (k' a w) (w.stack.length + 3)) :
    Within (withPushed look o >>= k) w ((o.withPushed op >>= k') w) (w.stack.length + 3) := by
  have hruns := runs_withPushed hlook hop.keeps o w
  refine Within.bind (hruns.within (Nat.le_refl _)) fun a w' h => ?_
  rw [hop.withPushed o w a w' h]
  exact hk a

theorem within_look {op : Code σ α} (hop : Still op) {k' : α → Code σ β} (o : LuaObject)
    (hk : ∀ a, Within (k a) w (k' a w) (w.stack.length + 3)) :
    Within (withPushed (asking op) o >>= k) w ((o.withPushed op >>= k') w)
      (w.stack.length + 3) :=
  within_withPushed (runs_asking op) hop o hk

theorem within_isJavaObject {k' : Bool → Code σ β} {k : Bool → FramedCode σ β} (o : LuaObject)
    (hk : ∀ b, Within (k b) w (k' b w) (w.stack.length + 3)) :
    Within (isJavaObject o >>= k) w ((o.isJavaObject >>= k') w) (w.stack.length + 3) :=
  within_withPushed (runs_recognizing _ _) (still_ask _) o hk

theorem within_getObject {k' : JavaObject → Code σ β} {k : JavaObject → FramedCode σ β}
    (o : LuaObject) (hk : ∀ obj, Within (k obj) w (k' obj w) (w.stack.length + 3)) :
    Within (getObject o >>= k) w ((o.getObject >>= k') w) (w.stack.length + 3) :=
  within_withPushed (runs_recognizing _ _) (still_getObjectFromUserdata _) o hk

theorem still_type (f : LuaType → α) (idx : Int) : Still (f <$> LuaState.type idx : Code σ α) :=
  still_ask fun w => f (luaType w.stack idx)

theorem within_text (o : LuaObject) (w : World σ) :
    Within (text env o) w (o.text env w) (w.stack.length + 3) := by
  apply within_look (still_type _ _) o
  intro nil
  apply within_ite (within_pure _ w _)
  apply within_look (still_type _ _) o
  intro boolean
  apply within_ite
  · exact within_look (still_ask _) o fun b => within_pure _ w _
  apply within_look (still_ask _) o
  intro number
  apply within_ite
  · exact within_look (still_ask _) o fun x => within_pure _ w _
  apply within_look (still_type _ _) o
  intro string
  apply within_ite
  · exact (runs_look (keeps_toString _) o w).within (Nat.le_refl _)
  apply within_look (still_type _ _) o
  intro function
  apply within_ite (within_pure _ w _)
  apply within_isJavaObject o
  intro object
  apply within_ite
  · exact within_getObject o fun obj => within_lift (library (env.toString obj)) w _
  apply within_look (still_type _ _) o
  intro userdata
  apply within_ite (within_pure _ w _)
  apply within_look (still_type _ _) o
  intro table
  apply within_ite (within_pure _ w _)
  apply within_withPushed (runs_recognizing _ _) (still_ask _) o
  intro function
  exact within_ite (within_pure _ w _) (within_pure _ w _)

theorem within_toString (o : LuaObject) (w : World σ) :
    Within (toString env o) w (o.toString env w) (w.stack.length + 3) :=
  (within_text o w).catching fun _ w' _ => within_pure none w' _

/-! ### After the call -/

theorem within_throwableOf (o : LuaObject) (w : World σ) :
    Within (Lua.throwableOf (state env) o) w (Lua.throwableOf (Lua.state env) o w)
      (w.stack.length + 3) := by
  have hholds : ∀ k : Bool → FramedCode σ Thrown, ∀ k' : Bool → Code σ Thrown,
      (∀ b, Within (k b) w (k' b w) (w.stack.length + 3)) →
      Within (Lua.holdsThrowable (state env) o >>= k) w
        ((Lua.holdsThrowable (Lua.state env) o >>= k') w) (w.stack.length + 3) := by
    intro k k' hk
    unfold Lua.holdsThrowable
    rw [bind_assoc, bind_assoc]
    apply within_isJavaObject o
    intro object
    cases object with
    | true =>
      change Within ((env.isThrowable <$> getObject o) >>= k) w
        (((env.isThrowable <$> o.getObject) >>= k') w) _
      rw [map_eq_pure_bind, map_eq_pure_bind, bind_assoc, bind_assoc]
      exact within_getObject o fun obj => hk _
    | false => exact hk false
  apply hholds
  intro throwable
  apply within_ite
  · change Within (Thrown.throwable <$> getObject o) w ((Thrown.throwable <$> o.getObject) w) _
    rw [map_eq_pure_bind, map_eq_pure_bind]
    exact within_getObject o fun obj => within_pure _ w _
  · change Within (Thrown.luaException <$> toString env o) w
      ((Thrown.luaException <$> o.toString env) w) _
    rw [map_eq_pure_bind, map_eq_pure_bind]
    exact (within_toString o w).bind fun message w' _ => within_pure _ w' _

theorem runs_handleThrows (w : World σ) :
    Runs (Lua.handleThrows (state env) : FramedCode σ α) w (Lua.handleThrows (Lua.state env) w)
      (w.stack.length + 3) := by
  refine (runs_registerValue (-1) w).bind_within fun exp w₁ h => ?_
  have hle := keeps_registerValue (-1) w exp w₁ h
  refine ((within_throwableOf exp w₁).mono (by omega)).bind fun t w₂ h => ?_
  have hsame : w₂.stack = w₁.stack := by
    obtain ⟨t', s, ⟨_, hrun, _⟩ | ⟨_, hrun, _⟩⟩ := Scripts.throwableOf_run env exp w₁
    · cases hrun.symm.trans h
      rfl
    · cases hrun.symm.trans h
  refine ((runs_pop 1 w₂).within (by rw [hsame]; omega)).bind fun _ w₃ _ => ?_
  exact within_lift (JLua.throwJava t) w₃ _

/-- A text is no object. -/
theorem isObject_of_text {L : State} {v : Value}
    (h : v.type = .string ∨ v.type = .number) : Conversion.isObject L v = false := by
  cases v with
  | userdata a => rcases h with h | h <;> cases h
  | _ => rfl

theorem asked {op : Code σ α} {a : α} (hop : op w = .ok a w) :
    Runs (asking op) w (.ok a w) (w.stack.length + 2) := hop ▸ runs_asking op w

theorem recognized {idx : Int} {op : Code σ α} {a : α} (hop : op w = .ok a w) :
    Runs (recognizing idx op) w (.ok a w) (w.stack.length + 2) := hop ▸ runs_recognizing idx op w

theorem runs_callError (err : Int) {K : Stack} {e : Value} (hw : w.stack = K ++ [e]) :
    Runs (callError env err : FramedCode σ α) w (LuaObject.callError env err w)
      (w.stack.length + if Conversion.isObject w.lua e then 3 else 2) := by
  have hstring : (LuaState.isString (-1) : Code σ Bool) w =
      .ok (decide (e.type = .string) || decide (e.type = .number)) w := by
    rw [← luaType_top hw]
    rfl
  have hobject : (LuaState.isObject (-1) : Code σ Bool) w =
      .ok (Conversion.isObject w.lua e) w := by
    rw [← valueAt_top hw]
    rfl
  rw [LuaObject.callError, bind_of_ok hstring]
  by_cases htext : e.type = .string ∨ e.type = .number
  · have hif : (decide (e.type = .string) || decide (e.type = .number)) = true := by
      simpa using htext
    rw [isObject_of_text htext, if_neg Bool.false_ne_true]
    refine (asked hstring).bind_last ?_
    rw [if_pos hif, if_pos hif]
    refine ((runs_asking _ w).within (Nat.le_refl _)).bind fun str w₁ h => ?_
    have hle := keeps_toString (-1) w str w₁ h
    refine ((runs_pop 1 w₁).within (by omega)).bind fun _ w₂ _ => ?_
    exact within_lift (throwLuaException _) w₂ _
  · have hif : ¬ (decide (e.type = .string) || decide (e.type = .number)) = true := by
      simpa using htext
    rw [if_neg hif, bind_of_ok hobject]
    by_cases hobj : Conversion.isObject w.lua e = true
    · rw [if_pos hobj, if_pos hobj]
      refine (asked hstring).bind_le ?_ (by omega)
      rw [if_neg hif]
      refine (recognized hobject).bind_le ?_ (by omega)
      rw [if_pos hobj]
      refine (runs_registerValue (-1) w).bind_within fun o w₁ h => ?_
      have hle := keeps_registerValue (-1) w o w₁ h
      refine Within.mono (within_getObject o fun obj => ?_) (by omega)
      refine (within_lift (library (env.toString obj)) w₁ _).bind fun str w₂ h => ?_
      have hsame : w₂.stack = w₁.stack := (ends_of_ok h).mp stack_library
      refine ((runs_pop 1 w₂).within (by rw [hsame]; omega)).bind fun _ w₃ _ => ?_
      exact within_ite (within_lift (throwJava _) w₃ _) (within_lift (throwLuaException _) w₃ _)
    · rw [if_neg hobj, if_neg hobj]
      refine (asked hstring).bind_last ?_
      rw [if_neg hif]
      refine ((recognized hobject).bind_last ?_).within (Nat.le_refl _)
      rw [if_neg hobj]
      exact within_lift (throwLuaException _) w _

/-- A value for which `toJavaObject` makes a `LuaObject`. -/
def becomesLuaObject (L : State) (v : Value) : Bool :=
  v.type = .function || v.type = .table ||
    ((v.type = .userdata || v.type = .lightuserdata) && !Conversion.isObject L v)

/-- What `toJavaObject` takes for a value. -/
def conversionSlots (L : State) (v : Value) : Nat := if becomesLuaObject L v then 3 else 2

theorem conversionSlots_le (L : State) (v : Value) :
    2 ≤ conversionSlots L v ∧ conversionSlots L v ≤ 3 := by
  unfold conversionSlots
  split <;> omega

theorem type_run {idx : Int} {v : Value} (f : LuaType → α) (hv : index2adr w.stack idx = some v) :
    (f <$> LuaState.type idx : Code σ α) w = .ok (f v.type) w := by
  change EStateM.Result.ok (f (luaType w.stack idx)) w = _
  rw [luaType, hv]
  rfl

theorem toJavaObject_object {host : Host} {L : State} {idx : Int} {v : Value} {obj : JavaObject}
    (hv : index2adr L.stack idx = some v) (hobj : Conversion.getObjectFromUserdata L v = some obj) :
    Conversion.toJavaObject host L idx = (some obj, L) := by
  cases v with
  | userdata a =>
    rw [Conversion.toJavaObject, hv]
    simp only [hobj]
  | _ => cases hobj

theorem not_becomesLuaObject {L : State} {v : Value} {obj : JavaObject}
    (hobj : Conversion.getObjectFromUserdata L v = some obj) : becomesLuaObject L v = false := by
  cases v with
  | userdata a =>
    have hobject : Conversion.isObject L (.userdata a) = true := by
      rw [Conversion.isObject, hobj]
      rfl
    rw [becomesLuaObject, hobject]
    rfl
  | _ => cases hobj

/-- Neither a Java object nor a value that Java has a type for. -/
theorem toJavaObject_luaObject {host : Host} {L : State} {idx : Int} {v : Value}
    (hv : index2adr L.stack idx = some v) (h : becomesLuaObject L v) :
    Conversion.toJavaObject host L idx = (getLuaObject L v).map some id := by
  cases v with
  | userdata a =>
    have hnone : Conversion.getObjectFromUserdata L (.userdata a) = none := by
      simpa [becomesLuaObject, Value.type, Conversion.isObject] using h
    rw [Conversion.toJavaObject, hv]
    simp only [hnone]
  | function a | table a | lightuserdata a =>
    rw [Conversion.toJavaObject, hv]
    rfl
  | _ => cases h

theorem toJavaObject_of_eq {idx : Int} {obj : Option JavaObject} {L : State}
    (h : Conversion.toJavaObject env.host w.lua idx = (obj, L)) :
    LuaState.toJavaObject env idx w = .ok obj { w with lua := L } := by
  change EStateM.Result.ok (Conversion.toJavaObject env.host w.lua idx).1
    ({ w with lua := (Conversion.toJavaObject env.host w.lua idx).2 } : World σ) = _
  rw [h]

theorem runs_newLuaObject {idx : Int} {v : Value} (hv : index2adr w.stack idx = some v) :
    Runs (do return some (← registerValue idx).toJava) w
      (.ok (some (getLuaObject w.lua v).1) { w with lua := (getLuaObject w.lua v).2 } :
        EStateM.Result Stop (World σ) (Option JavaObject)) (w.stack.length + 3) := by
  have hrun := runs_registerValue idx w
  rw [registerValue_run hv] at hrun
  exact hrun.bind_last (within_pure _ _ _)

theorem runs_test {f : LuaType → Bool} {idx : Int} {v : Value} {n : Nat}
    {c d : FramedCode σ β} (hv : index2adr w.stack idx = some v) (hn : w.stack.length + 2 ≤ n)
    (hc : f v.type = true → Runs c w r n) (hd : f v.type = false → Runs d w r n) :
    Runs (do if ← asking (f <$> LuaState.type idx) then c else d) w r n := by
  refine (asked (type_run f hv)).bind_le ?_ hn
  split
  · next h => exact hc h
  · next h => exact hd (by simpa using h)

theorem runs_testType {idx : Int} {t : LuaType} {v : Value} {n : Nat} {c d : FramedCode σ β}
    (hv : index2adr w.stack idx = some v) (hn : w.stack.length + 2 ≤ n)
    (hc : v.type = t → Runs c w r n) (hd : v.type ≠ t → Runs d w r n) :
    Runs (do if (← asking (LuaState.type idx)) = t then c else d) w r n := by
  refine (asked (type_run (fun t : LuaType => t) hv)).bind_le ?_ hn
  split
  · next h => exact hc h
  · next h => exact hd h

section Top
variable {K : Stack} {v : Value} (hw : w.stack = K ++ [v])
include hw

theorem index2adr_lua : index2adr w.lua.stack (-1) = some v := by
  rw [← index2adr_top K v, ← hw]
  rfl

theorem runs_toBoolean (hv : v.type = .boolean) :
    Runs (do return some (JavaObject.boolean (← asking (LuaState.toBoolean (-1))))) w
      (LuaState.toJavaObject env (-1) w) (w.stack.length + conversionSlots w.lua v) := by
  have hlua := index2adr_lua hw
  cases v with
  | boolean b =>
    have hanswer : (LuaState.toBoolean (-1) : Code σ Bool) w = .ok b w := by
      change EStateM.Result.ok (decide (LuaState.valueAt w (-1) ≠ .nil) &&
        decide (LuaState.valueAt w (-1) ≠ .boolean false)) w = _
      rw [valueAt_top hw]
      cases b <;> rfl
    rw [toJavaObject_of_eq (by rw [Conversion.toJavaObject, hlua])]
    exact (asked hanswer).bind_last (within_pure _ w _)
  | _ => cases hv

theorem runs_toText (hv : v.type = .string) :
    Runs (do return (← asking (LuaState.toString env (-1))).map JavaObject.string) w
      (LuaState.toJavaObject env (-1) w) (w.stack.length + conversionSlots w.lua v) := by
  have hlua := index2adr_lua hw
  cases v with
  | string bytes =>
    have hanswer : LuaState.toString env (-1) w =
        .ok (some (env.host.newStringUTF (ModifiedUtf8.cString bytes))) w := by
      rw [LuaState.toString, get_bind, valueAt_top hw]
      rfl
    rw [toJavaObject_of_eq (by rw [Conversion.toJavaObject, hlua])]
    exact (asked hanswer).bind_last (within_pure _ w _)
  | _ => cases hv

theorem runs_toDouble (hv : v.type = .number) :
    Runs (do return some (JavaObject.double (← asking (LuaState.toNumber env (-1))))) w
      (LuaState.toJavaObject env (-1) w) (w.stack.length + conversionSlots w.lua v) := by
  have hlua := index2adr_lua hw
  cases v with
  | number x =>
    have hanswer : LuaState.toNumber env (-1) w = .ok x w := by
      change EStateM.Result.ok _ w = _
      simp only [valueAt_top hw]
    rw [toJavaObject_of_eq (by rw [Conversion.toJavaObject, hlua])]
    exact (asked hanswer).bind_last (within_pure _ w _)
  | _ => cases hv

theorem runs_toLuaObject (hv : becomesLuaObject w.lua v) :
    Runs (do return some (← registerValue (-1)).toJava) w (LuaState.toJavaObject env (-1) w)
      (w.stack.length + conversionSlots w.lua v) := by
  have htop : index2adr w.stack (-1) = some v := by rw [hw, index2adr_top]
  rw [conversionSlots, if_pos hv, toJavaObject_of_eq (toJavaObject_luaObject htop hv)]
  exact runs_newLuaObject htop

theorem runs_toObject (hv : Conversion.isObject w.lua v) :
    Runs (do return some (← getObjectFromUserdata (-1))) w (LuaState.toJavaObject env (-1) w)
      (w.stack.length + conversionSlots w.lua v) := by
  have htop : index2adr w.stack (-1) = some v := by rw [hw, index2adr_top]
  obtain ⟨obj, hobj⟩ := Option.isSome_iff_exists.mp hv
  have hanswer : (LuaState.getObjectFromUserdata (-1) : Code σ JavaObject) w = .ok obj w := by
    rw [LuaState.getObjectFromUserdata, get_bind, valueAt_top hw, hobj]
    rfl
  have hslots : becomesLuaObject w.lua v = false := not_becomesLuaObject hobj
  rw [conversionSlots, hslots, if_neg Bool.false_ne_true,
    toJavaObject_of_eq (toJavaObject_object htop hobj)]
  exact (recognized hanswer).bind_last (within_pure _ w _)

theorem runs_toNull (hv : v.type = .nil ∨ v.type = .thread) :
    Runs (do let _ ← asking (LuaState.isNil (-1)); return none) w (LuaState.toJavaObject env (-1) w)
      (w.stack.length + conversionSlots w.lua v) := by
  have hlua := index2adr_lua hw
  cases v with
  | nil | thread a =>
    rw [toJavaObject_of_eq (by rw [Conversion.toJavaObject, hlua])]
    exact (asked rfl).bind_last (within_pure _ w _)
  | _ => rcases hv with hv | hv <;> cases hv

end Top

theorem runs_toJavaObject {K : Stack} {v : Value} (hw : w.stack = K ++ [v]) :
    Runs (toJavaObject env (-1)) w (LuaState.toJavaObject env (-1) w)
      (w.stack.length + conversionSlots w.lua v) := by
  have hv : index2adr w.stack (-1) = some v := by rw [hw, index2adr_top]
  have hle : w.stack.length + 2 ≤ w.stack.length + conversionSlots w.lua v := by
    have hslots := (conversionSlots_le w.lua v).1
    omega
  refine runs_test hv hle (fun h => runs_toBoolean hw (by simpa using h)) fun _ => ?_
  refine runs_testType hv hle (fun h => runs_toText hw h) fun _ => ?_
  refine runs_test hv hle (fun h => ?_) fun _ => ?_
  · exact runs_toLuaObject hw (by simp_all [becomesLuaObject])
  refine runs_test hv hle (fun h => ?_) fun _ => ?_
  · exact runs_toLuaObject hw (by simp_all [becomesLuaObject])
  refine runs_testType hv hle (fun h => runs_toDouble hw h) fun _ => ?_
  refine runs_test hv hle (fun huserdata => ?_) fun _ => ?_
  · have hobject : (LuaState.isObject (-1) : Code σ Bool) w =
        .ok (Conversion.isObject w.lua v) w := by
      rw [← valueAt_top hw]
      rfl
    refine (recognized hobject).bind_le ?_ hle
    split
    · next hobj => exact runs_toObject hw hobj
    · next hobj => exact runs_toLuaObject hw (by simp_all [becomesLuaObject])
  · refine runs_toNull hw ?_
    cases v with
    | nil => exact .inl rfl
    | thread a => exact .inr rfl
    | _ => simp_all [Value.type]

theorem stack_toJavaObject {idx : Int} {obj : Option JavaObject}
    (h : LuaState.toJavaObject env idx w = .ok obj w') : w'.stack = w.stack := by
  cases h
  exact (toJavaObject_keeps env.host w.lua idx).1

theorem length_pop {x : Unit} (h : (LuaState.pop 1 : Code σ Unit) w = .ok x w') :
    w'.stack.length = w.stack.length - 1 := by
  cases h
  change (w.stack.take (w.stack.length - 1)).length = _
  rw [List.length_take]
  exact Nat.min_eq_left (Nat.sub_le _ _)

variable (env) in
/-- No result below the top one takes more than the test of the top one. -/
theorem runs_popResults (n : Nat) (res : List (Option JavaObject)) (hn : n ≤ w.stack.length) :
    Runs (popResults env n res) w (LuaObject.popResults env n res w)
      (if n = 0 then 0 else w.stack.length + conversionSlots w.lua (LuaState.valueAt w (-1))) := by
  induction n generalizing res w with
  | zero => exact runs_pure res w
  | succ n ih =>
    have hne : w.stack ≠ [] := by
      intro hnil
      rw [hnil] at hn
      exact absurd hn (Nat.not_succ_le_zero n)
    have hw := (List.dropLast_append_getLast hne).symm
    rw [valueAt_top hw, if_neg (Nat.succ_ne_zero n)]
    have hslots := (conversionSlots_le w.lua (w.stack.getLast hne)).1
    refine (runs_toJavaObject hw).bind_within fun obj w₁ h => ?_
    have hlength := congrArg List.length (stack_toJavaObject h)
    refine ((runs_pop 1 w₁).within (by omega)).bind fun _ w₂ h => ?_
    have hpopped := length_pop h
    refine (ih (obj :: res) (by omega)).within ?_
    have hrest := (conversionSlots_le w₂.lua (LuaState.valueAt w₂ (-1))).2
    split <;> omega

/-- How many results `getResults` converts. -/
def resultCount (top : Nat) (nres : Int) (w : World σ) : Int :=
  if nres = LUA_MULTRET then w.stack.length - top else nres

/-- What `getResults` takes: there is nothing to convert when results are missing. -/
def resultSlots (top : Nat) (nres : Int) (w : World σ) : Nat :=
  if 0 < resultCount top nres w ∧ resultCount top nres w ≤ w.stack.length - top then
    conversionSlots w.lua (LuaState.valueAt w (-1))
  else 2

variable (env) in
theorem runs_results (found count : Int) (hfound : found ≤ w.stack.length) :
    Runs (if found < count then lift (throwLuaException "Invalid Number of Results .")
      else if count < 0 then
        lift (throwJava (.runtimeException "java.lang.NegativeArraySizeException" ""))
      else popResults env count.toNat []) w
      ((if found < count then throwLuaException "Invalid Number of Results ."
      else if count < 0 then throwJava (.runtimeException "java.lang.NegativeArraySizeException" "")
      else LuaObject.popResults env count.toNat [] : Code σ _) w)
      (if 0 < count ∧ count ≤ found then
        w.stack.length + conversionSlots w.lua (LuaState.valueAt w (-1)) else 0) := by
  by_cases hmissing : found < count
  · rw [if_pos hmissing, if_pos hmissing, if_neg (by omega)]
    exact runs_lift (throwLuaException _) w
  rw [if_neg hmissing, if_neg hmissing]
  by_cases hnegative : count < 0
  · rw [if_pos hnegative, if_pos hnegative, if_neg (by omega)]
    exact runs_lift (throwJava _) w
  rw [if_neg hnegative, if_neg hnegative]
  have hpop := runs_popResults env (w := w) count.toNat [] (by omega)
  by_cases hzero : count = 0
  · rw [if_pos (by omega)] at hpop
    rw [if_neg (by omega)]
    exact hpop
  · rw [if_neg (by omega)] at hpop
    rw [if_pos (by omega)]
    exact hpop

theorem runs_getResults (top : Nat) (nres : Int) (w : World σ) :
    Runs (getResults env top nres) w (LuaObject.getResults env top nres w)
      (w.stack.length + resultSlots top nres w) := by
  have htop : (LuaState.getTop : Code σ Nat) w = .ok w.stack.length w := rfl
  have hslots := (conversionSlots_le w.lua (LuaState.valueAt w (-1))).1
  have hresults := runs_results env (w := w) (w.stack.length - top)
    (resultCount top nres w) (by omega)
  rw [LuaObject.getResults, bind_of_ok htop]
  refine ((asked htop).bind hresults).of_eq ?_
  unfold resultSlots
  split <;> omega

end JLua.StackRoom
