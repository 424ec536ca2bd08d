import JLua.Native
import JLua.StackDiscipline

/-!
# Java methods as Lua functions

The function made for a method takes its arguments from the top of the stack, as many as the method
has parameters. How many there are it does not ask. Below the arguments stands the function itself,
and below that what the callers have on their stacks.
-/

namespace JLua.RegisteredMethods

open Conversion JLuaAPI Native OutcomeRules StackDiscipline
set_option autoImplicit false

variable {σ α : Type}

/-- What `execute` has been made for; `target` is `null` for a static method. -/
structure RegisteredMethod where
  method : Method
  target : Option JavaObject
  argsTypes : List JavaClass
  types_eq : method.parameterTypes = argsTypes

/-- `Class.getMethod`; `none` is the `NoSuchMethodException`. -/
def register (methods : List Method) (target : Option JavaObject) (javaName : JString)
    (argsTypes : List JavaClass) : Option RegisteredMethod :=
  match h : methods.find? fun m => m.name = javaName ∧ m.parameterTypes = argsTypes with
  | some m => some ⟨m, target, argsTypes, by
      have hm := List.find?_some h
      exact (of_decide_eq_true hm).2⟩
  | none => none

variable (env : Env σ)

def getMethod (obj : JavaObject) (javaName : JString) (argsTypes : List JavaClass) :
    Option RegisteredMethod := register (env.getMethods obj.getClass) (some obj) javaName argsTypes

def getStaticMethod (clazz : JavaClass) (javaName : JString) (argsTypes : List JavaClass) :
    Option RegisteredMethod := register (env.getMethods clazz) none javaName argsTypes

/-- The loop of `execute`; the index is that of the parameters still to come. -/
def convertFromTop : List JavaClass → Code σ (List (Option JavaObject))
  | [] => return []
  | type :: types => do
    let arg ← compareTypes env type (-(types.length + 1))
    return arg :: (← convertFromTop types)

def nullPointer : Thrown := .runtimeException "java.lang.NullPointerException" ""

/-- Why reflection lets the caller not invoke the method, unless it has been made accessible. -/
abbrev Access := Method → Option JString

variable (access : Access)

def illegalAccess (message : JString) : Thrown :=
  .runtimeException "java.lang.IllegalAccessException" message

def invokeTarget (m : Method) (target : Option JavaObject) (args : List (Option JavaObject)) :
    Code σ (Option JavaObject) :=
  match access m, target with
  | some message, _ => throwJava (illegalAccess message)
  | none, some obj => JLuaAPI.invoke env m obj args
  | none, none =>
    if !m.isStatic then throwJava nullPointer
    else if !areLegalArguments env.host.classes m.parameterTypes args then
      throwJava (illegalArgument "argument type mismatch")
    else env.invoke m none args

def pushJavaArray (obj : JavaObject) : Code σ Unit :=
  LuaState.liftState fun L => (Conversion.pushJavaArray L obj).map ((), ·)

/-- `ret.getClass()` comes before anything else. -/
def pushReturned : Option JavaObject → Code σ Unit
  | none => throwJava nullPointer
  | some ret => if ret.isArray then pushJavaArray ret else LuaState.pushObjectValue env (some ret)

def isInvocationTarget : Stop → Bool
  | .throws (.invocationTargetException _) => true
  | _ => false

def rethrowRegistered : Stop → Code σ α
  | .throws (.invocationTargetException cause) => throwJava cause
  | .throws (.runtimeException name message) => throwLuaException
      ("IllegalAccessException: " ++ javaString name ++ javaString ": " ++ message)
  | stop => throw stop

def isCaught (stop : Stop) : Bool :=
  isInvocationTarget stop || isNamed "java.lang.IllegalAccessException" stop

def invokeRegistered (r : RegisteredMethod) (args : List (Option JavaObject)) : Code σ Nat := do
  catching (do
    let ret ← invokeTarget env access r.method r.target args
    if r.method.returnType = .primitive .void then pure ()
    else pushReturned env ret) isCaught rethrowRegistered
  return if r.method.returnType = .primitive .void then 0 else 1

def execute (r : RegisteredMethod) : Code σ Nat := do
  let args ← convertFromTop env r.argsTypes
  LuaState.pop r.argsTypes.length
  invokeRegistered env access r args

/-! ### Which slots are read -/

variable {env access}

theorem compareTypes_congr {w : World σ} {idx idx' : Int}
    (h : index2adr w.stack idx = index2adr w.stack idx') (type : JavaClass) :
    compareTypes env type idx w = compareTypes env type idx' w := by
  have hpush : luaPushvalue w.stack idx = luaPushvalue w.stack idx' := by
    rw [luaPushvalue, luaPushvalue, h]
  have hregister : LuaObject.registerValue idx w = LuaObject.registerValue idx' w := by
    unfold LuaObject.registerValue
    apply bind_congr_run
    exact congrArg (fun L => EStateM.Result.ok () (w.setStack L)) hpush
  have hlua : index2adr w.lua.stack idx = index2adr w.lua.stack idx' := h
  unfold JLuaAPI.compareTypes
  rw [get_bind, get_bind, h]
  cases index2adr w.stack idx' with
  | none => simp only [LuaState.liftState, Conversion.compareTypes, hlua]
  | some v =>
    cases v with
    | table a =>
      dsimp only
      split
      · exact bind_congr_run _ hregister
      · rfl
    | _ => simp only [LuaState.liftState, Conversion.compareTypes, hlua]

variable (env) in
/-- The loop gets an object for the value at this position, counted from the bottom. -/
inductive ConvertsSlot : List JavaClass → World σ → Nat → Prop where
  | here {type : JavaClass} {types : List JavaClass} {w w₁ : World σ} {x : Option JavaObject}
      (h : compareTypes env type (-(types.length + 1)) w = .ok x w₁) :
      ConvertsSlot (type :: types) w (absIndex w.stack (-(types.length + 1)))
  | there {type : JavaClass} {types : List JavaClass} {w w₁ : World σ} {x : Option JavaObject}
      {p : Nat} (h : compareTypes env type (-(types.length + 1)) w = .ok x w₁)
      (rest : ConvertsSlot types w₁ p) : ConvertsSlot (type :: types) w p

variable (env) in
/-- The objects for some values, converted one after the other. -/
inductive Conversions : List JavaClass → List Value → World σ → List (Option JavaObject) →
    World σ → Prop where
  | nil (w : World σ) : Conversions [] [] w [] w
  | cons {type : JavaClass} {types : List JavaClass} {v : Value} {vs : List Value} {idx : Int}
      {x : Option JavaObject} {xs : List (Option JavaObject)} {w w₁ w₂ : World σ}
      (slot : index2adr w.stack idx = some v) (h : compareTypes env type idx w = .ok x w₁)
      (rest : Conversions types vs w₁ xs w₂) :
      Conversions (type :: types) (v :: vs) w (x :: xs) w₂

theorem stack_of_compareTypes_ok {type : JavaClass} {idx : Int} {w w₁ : World σ}
    {x : Option JavaObject} (h : compareTypes env type idx w = .ok x w₁) : Same w w₁ :=
  (ends_of_ok h).mp (neutral_compareTypes type idx w)

theorem le_of_convertsSlot {types : List JavaClass} {w : World σ} {p : Nat}
    (h : ConvertsSlot env types w p) : w.stack.length - types.length ≤ p := by
  induction h with
  | @here type types w =>
    rw [absIndex_negative, List.length_cons]
  | @there type types w w₁ x p h rest ih =>
    rw [(stack_of_compareTypes_ok h).1] at ih
    rw [List.length_cons]
    omega

theorem convertFromTop_of_conversions {types : List JavaClass} {vs : List Value} {w w' : World σ}
    {xs : List (Option JavaObject)} (h : Conversions env types vs w xs w') {K : Stack}
    (hw : w.stack = K ++ vs) : convertFromTop env types w = .ok xs w' ∧ Same w w' := by
  induction h generalizing K with
  | nil w => exact ⟨rfl, Same.refl w⟩
  | @cons type types v vs idx x xs w w₁ w₂ slot h rest ih =>
    have hlength : types.length = vs.length := by
      clear ih slot h hw
      induction rest with
      | nil => rfl
      | cons _ _ _ ih => simp [ih]
    have htop : index2adr w.stack (-(types.length + 1)) = some v := by
      rw [hw, hlength, index2adr_above]
    have hsame := stack_of_compareTypes_ok h
    obtain ⟨hrest, hsame'⟩ := ih (K := K ++ [v]) (by rw [hsame.1, hw, List.append_assoc]; rfl)
    rw [compareTypes_congr (slot.trans htop.symm)] at h
    refine ⟨?_, hsame.trans hsame'⟩
    rw [convertFromTop, bind_of_ok h, bind_of_ok hrest]
    rfl

/-! ### Any number of arguments -/

section Arity
variable (env access) (r : RegisteredMethod) (below : Stack) (f : Value) (args : List Value)
  (w : World σ)

/-- The call of `f` with the arguments; `below` are the stacks of the callers. -/
def callWorld : World σ := w.setStack (below ++ f :: args)

/-- `execute` keeps to the arguments of its call, whatever their number: it gets an argument from
none of the slots below them, though it may look at one whose value it refuses. -/
structure AritySafe : Prop where
  converts : ∀ p, ConvertsSlot env r.argsTypes (callWorld below f args w) p →
    below.length + 1 ≤ p
  pops : ∀ objs w₁, convertFromTop env r.argsTypes (callWorld below f args w) = .ok objs w₁ →
    ∃ rest, luaPop w₁.stack r.argsTypes.length = below ++ f :: rest
  exact : args.length = r.argsTypes.length → ∀ objs w₁,
    Conversions env r.argsTypes args (callWorld below f args w) objs w₁ →
      execute env access r (callWorld below f args w) =
        invokeRegistered env access r objs (w₁.setStack (below ++ [f]))
  few : args.length < r.argsTypes.length → ∃ message w₁,
    convertFromTop env r.argsTypes (callWorld below f args w) =
      .error (.throws (.luaException message)) w₁ ∧
    execute env access r (callWorld below f args w) = .error (.throws (.luaException message)) w₁

/-- The first parameter does not take the value that many slots below the top. -/
def RejectsFirst : Prop := ∃ type types message w₁, r.argsTypes = type :: types ∧
  compareTypes env type (-(types.length + 1)) (callWorld below f args w) =
    .error (.throws (.luaException message)) w₁

variable {env access r below f args w}

theorem pop_to_function {n : Nat} (h : n ≤ args.length) :
    ∃ rest, luaPop (below ++ f :: args) n = below ++ f :: rest := by
  refine ⟨args.take (args.length - n), ?_⟩
  have hlength : (below ++ f :: args).length - n = (below ++ [f]).length + (args.length - n) := by
    simp only [List.length_append, List.length_cons, List.length_nil]
    omega
  have hsplit : below ++ f :: args = below ++ [f] ++ args := List.append_cons below f args
  rw [luaPop, hlength, hsplit, List.take_length_add_append]
  simp

theorem stack_of_convertFromTop {types : List JavaClass} {objs : List (Option JavaObject)}
    {w w₁ : World σ} (h : convertFromTop env types w = .ok objs w₁) : Same w w₁ := by
  induction types generalizing w objs with
  | nil =>
    cases h
    exact Same.refl _
  | cons type types ih =>
    obtain ⟨x, w₂, hx, h⟩ := bind_eq_ok_iff.mp h
    obtain ⟨xs, w₃, hxs, h⟩ := bind_eq_ok_iff.mp h
    cases h
    exact (stack_of_compareTypes_ok hx).trans (ih hxs)

theorem aritySafe_of_enough (h : r.argsTypes.length ≤ args.length) :
    AritySafe env access r below f args w where
  converts p hp := by
    have hle := le_of_convertsSlot hp
    simp only [callWorld, World.stack_setStack, List.length_append, List.length_cons] at hle
    omega
  pops objs w₁ hrun := by
    rw [(stack_of_convertFromTop hrun).1]
    exact pop_to_function h
  exact hk objs w₁ hconvert := by
    have hstack : (callWorld below f args w).stack = below ++ [f] ++ args :=
      List.append_cons below f args
    obtain ⟨hrun, hsame⟩ := convertFromTop_of_conversions hconvert hstack
    have hpop : (LuaState.pop r.argsTypes.length : Code σ Unit) w₁ =
        .ok () (w₁.setStack (below ++ [f])) := by
      have hrest : luaPop w₁.stack r.argsTypes.length = below ++ [f] := by
        rw [hsame.1, hstack, ← hk]
        exact luaPop_append_length _ _
      exact congrArg (fun L => EStateM.Result.ok () (w₁.setStack L)) hrest
    rw [execute, bind_of_ok hrun, bind_of_ok hpop]
  few hk := absurd h (Nat.not_le_of_lt hk)

theorem aritySafe_of_rejects (hfew : args.length < r.argsTypes.length)
    (h : RejectsFirst env r below f args w) : AritySafe env access r below f args w := by
  obtain ⟨type, types, message, w₁, htypes, hreject⟩ := h
  have hconvert : convertFromTop env r.argsTypes (callWorld below f args w) =
      .error (.throws (.luaException message)) w₁ := by
    rw [htypes]
    exact bind_of_error hreject
  refine ⟨?_, ?_, fun hk => absurd hk (Nat.ne_of_lt hfew), fun _ => ⟨message, w₁, hconvert, ?_⟩⟩
  · intro p hp
    rw [htypes] at hp
    cases hp with
    | here hx =>
      rw [hreject] at hx
      cases hx
    | there hx =>
      rw [hreject] at hx
      cases hx
  · intro objs w₂ hrun
    rw [hconvert] at hrun
    cases hrun
  · exact bind_of_error hconvert

/-- A call is safe exactly if it has an argument for every parameter, or the first value that is
none is rejected. -/
theorem aritySafe_iff : AritySafe env access r below f args w ↔
    r.argsTypes.length ≤ args.length ∨ RejectsFirst env r below f args w := by
  constructor
  · intro h
    refine or_iff_not_imp_left.mpr fun hnot => ?_
    have hfew := Nat.lt_of_not_le hnot
    obtain ⟨message, w₁, hconvert, _⟩ := h.few hfew
    cases htypes : r.argsTypes with
    | nil => simp [htypes] at hfew
    | cons type types =>
      have hhere := h.converts
      rw [htypes] at hconvert hhere hfew
      cases hx : compareTypes env type (-(types.length + 1)) (callWorld below f args w) with
      | ok x w₂ =>
        -- the slot of the first conversion is below the arguments
        have hp := hhere _ (.here hx)
        rw [absIndex_negative] at hp
        simp only [callWorld, World.stack_setStack, List.length_append, List.length_cons] at hp hfew
        omega
      | error stop w₂ =>
        have hrun := (bind_of_error hx).symm.trans hconvert
        cases hrun
        exact ⟨type, types, message, _, htypes, hx⟩
  · rintro (h | h)
    · exact aritySafe_of_enough h
    · rcases Nat.lt_or_ge args.length r.argsTypes.length with hfew | henough
      · exact aritySafe_of_rejects hfew h
      · exact aritySafe_of_enough henough

end Arity

/-! ### A call without its argument -/

def oneObject : RegisteredMethod :=
  ⟨⟨"m", [.object], .primitive .void, .declared 1, true⟩, none, [.object], rfl⟩

def functionWorld : World Unit :=
  ⟨⟨1, [], ⟨fun _ => .nil, 0⟩, [.java (.javaFunction 5 0)]⟩, ()⟩

/-- Called without an argument, the method is invoked on its own function. -/
theorem function_is_argument :
    (∃ w', convertFromTop (Env.plain .plain fun _ => []) oneObject.argsTypes
      (callWorld [] (.userdata 0) [] functionWorld) = .ok [some (.javaFunction 5 0)] w') ∧
    (∃ w', execute (Env.plain .plain fun _ => []) (fun _ => none) oneObject
      (callWorld [] (.userdata 0) [] functionWorld) = .ok 0 w') ∧
    ¬ AritySafe (Env.plain .plain fun _ => []) (fun _ => none) oneObject [] (.userdata 0) []
      functionWorld := by
  refine ⟨⟨_, rfl⟩, ⟨_, rfl⟩, ?_⟩
  intro h
  obtain ⟨message, w₁, _, hrun⟩ := h.few (by decide)
  cases hrun

end JLua.RegisteredMethods
