import JLua.TryBlock

/-!
# Exceptions across Java and Lua

A Java exception that leaves a callback is pushed as a userdata and raised; the Java code that
made the protected call looks whether the error is a Java object again, and rethrows it if it
is a `Throwable`. On the way reflection wraps it and the catch clauses of the callbacks unwrap
it.
-/

namespace JLua.Exceptions

set_option autoImplicit false

abbrev Ref := Nat

/-- What exception handling sees of a Java object; `throwable` is every other `Throwable`, and
`exception` tells whether it is an `Exception`. -/
inductive HeapObject where
  | invocationTargetException (cause : Option Ref)
  | illegalAccessException
  | luaException (message : String) (cause : Option Ref)
  | throwable (exception : Bool) (cause : Option Ref)
  | javaPackage
  | javaFunction
  | other
  deriving DecidableEq, Repr

namespace HeapObject

def isThrowable : HeapObject → Bool
  | invocationTargetException _ => true
  | illegalAccessException => true
  | luaException _ _ => true
  | throwable _ _ => true
  | _ => false

def isException : HeapObject → Bool
  | throwable exception _ => exception
  | o => o.isThrowable

def getCause : HeapObject → Option Ref
  | invocationTargetException cause => cause
  | luaException _ cause => cause
  | throwable _ cause => cause
  | _ => none

end HeapObject

/-- The Java heap; for every full userdata the Java object it refers to, if any; and the values
that `LuaObject`s hold in the registry. -/
structure World where
  heap : List HeapObject
  userdata : List (Option Ref)
  registry : List Value

def KeepsHeap (w w' : World) : Prop :=
  ∀ (r : Ref) (o : HeapObject), w.heap[r]? = some o → w'.heap[r]? = some o

/-- What code does to the world that neither throws nor catches. -/
structure Effect where
  run : World → World
  keepsHeap : ∀ w, KeepsHeap w (run w)

/-- A finally function that returns. The userdata of a pending exception stands on the stack of
`tryBlock` only, out of its reach. -/
structure Finally extends Effect where
  keepsUserdata : ∀ (w : World) (a : Nat) (r : Option Ref),
    w.userdata[a]? = some r → (run w).userdata[a]? = some r

/-- What is outside: the installed checker, the texts of values and objects, and what
`setExceptionStackTrace` does, the call of `debug.traceback` included. That this raises nothing
leaves out lookups of `debug` and `traceback` that raise an error, and the error that
`luaD_call` raises at `LUAI_MAXCCALLS`. -/
structure Host where
  checkJavaObject : Ref → Bool
  toString : Value → String
  objectToString : Ref → String
  luaObjectToString : World → Value → String
  setExceptionStackTrace : Effect

def World.new (w : World) (o : HeapObject) : Ref × World :=
  (w.heap.length, { w with heap := w.heap ++ [o] })

abbrev JavaResult := Except Ref Unit

def throwNew (w : World) (o : HeapObject) : JavaResult × World :=
  let (e, w) := w.new o
  (.error e, w)

def checkJavaObj (host : Host) (w : World) (obj : Ref) : JavaResult × World :=
  match w.heap[obj]? with
  | some (.luaException _ _) | some .javaPackage | some .javaFunction => (.ok (), w)
  | _ =>
    if host.checkJavaObject obj then (.ok (), w)
    else throwNew w
      (.luaException ("Permission denied: Cannot access " ++ host.objectToString obj) none)

/-- `pushJavaObject` of the C side; an error is an exception thrown by the check. -/
def pushJavaObject (host : Host) (w : World) (obj : Ref) (checkObject : Bool) :
    Except Ref Value × World :=
  match if checkObject then checkJavaObj host w obj else (.ok (), w) with
  | (.error e, w) => (.error e, w)
  | (.ok (), w) =>
    (.ok (.userdata w.userdata.length), { w with userdata := w.userdata ++ [some obj] })

def handleException (host : Host) (w : World) (exp : Ref) : Result × World :=
  match pushJavaObject host (host.setExceptionStackTrace.run w) exp false with
  | (.ok v, w) => (.error v, w)
  | (.error _, w) => (.error .nil, w)

inductive JavaEntry where
  | method
  | constructor
  | javaFunction
  | registeredMethod
  deriving DecidableEq, Repr

/-- `Method.invoke` and `Constructor.newInstance` wrap what their target throws. -/
def invoke : JavaResult × World → JavaResult × World
  | (.ok (), w) => (.ok (), w)
  | (.error t, w) => throwNew w (.invocationTargetException (some t))

/-- The catch clauses of `objectIndex`, and those of `getObjInstance`. -/
def catchInvoke (host : Host) : JavaResult × World → JavaResult × World
  | (.ok (), w) => (.ok (), w)
  | (.error e, w) =>
    match w.heap[e]? with
    | some (.invocationTargetException cause) => (.error (cause.getD e), w)
    | some o =>
      if o.isException then
        let inner := o.getCause.getD e
        throwNew w (.luaException (host.objectToString inner) (some inner))
      else (.error e, w)
    | none => (.error e, w)

/-- The catch clauses of the functions made by `getMethod` and `getStaticMethod`. -/
def catchRegistered (host : Host) : JavaResult × World → JavaResult × World
  | (.ok (), w) => (.ok (), w)
  | (.error e, w) =>
    match w.heap[e]? with
    | some .illegalAccessException =>
      throwNew w (.luaException ("IllegalAccessException: " ++ host.objectToString e) none)
    | some (.invocationTargetException none) => (.ok (), w)
    | some (.invocationTargetException (some cause)) => (.error cause, w)
    | _ => (.error e, w)

def callback (host : Host) (entry : JavaEntry) (r : JavaResult × World) : JavaResult × World :=
  match entry with
  | .method | .constructor => catchInvoke host (invoke r)
  | .javaFunction => r
  | .registeredMethod => catchRegistered host (invoke r)

/-- The C function that made the call goes on with `handleException`. -/
def nativeReturn (host : Host) : JavaResult × World → Result × World
  | (.ok (), w) => (.ok [], w)
  | (.error e, w) => handleException host w e

def isObject (w : World) : Value → Bool
  | .userdata a => (w.userdata[a]?.join).isSome
  | _ => false

def getObjectFromUserdata (w : World) : Value → Option Ref
  | .userdata a => w.userdata[a]?.join
  | _ => none

def getLuaObject (w : World) (v : Value) : Nat × World :=
  (w.registry.length, { w with registry := w.registry ++ [v] })

def push (w : World) (ref : Nat) : Value := w.registry[ref]?.getD .nil

def isThrowable (w : World) (obj : Ref) : Bool := (w.heap[obj]?).any HeapObject.isThrowable

def errorText (err : Int) (str : String) : String :=
  if err = LUA_ERRRUN then "Runtime error. " ++ str
  else if err = LUA_ERRMEM then "Memory allocation error. " ++ str
  else if err = LUA_ERRERR then "Error while running the error handler function. " ++ str
  else "Lua Error code " ++ toString err ++ ". " ++ str

def isString (v : Value) : Bool := v.type = .string ∨ v.type = .number

/-- What `LuaObject.call` throws when `pcall` answers `err` and leaves `v`. -/
def callError (host : Host) (w : World) (err : Int) (v : Value) : JavaResult × World :=
  if isString v then throwNew w (.luaException (errorText err (host.toString v)) none)
  else if isObject w v then
    let (ref, w) := getLuaObject w v
    match getObjectFromUserdata w (push w ref) with
    | none => throwNew w (.luaException "Index is not a java object" none)
    | some obj =>
      if isThrowable w obj then (.error obj, w)
      else throwNew w (.luaException (errorText err (host.objectToString obj)) none)
  else throwNew w (.luaException (errorText err "") none)

def handleThrows (host : Host) (w : World) (v : Value) : JavaResult × World :=
  let (exp, w) := getLuaObject w v
  match getObjectFromUserdata w (push w exp) with
  | some obj =>
    if isThrowable w obj then (.error obj, w)
    else throwNew w (.luaException (host.luaObjectToString w v) none)
  | none => throwNew w (.luaException (host.luaObjectToString w v) none)

inductive LuaEntry where
  | call
  | callFunctionEx
  | doString
  deriving DecidableEq, Repr

def protectedReturn (host : Host) (entry : LuaEntry) : Result × World → JavaResult × World
  | (.ok _, w) => (.ok (), w)
  | (.error v, w) =>
    match entry with
    | .call => callError host w LUA_ERRRUN v
    | .callFunctionEx | .doString => handleThrows host w v

mutual

/-- A Java frame: it throws, or it calls into Lua without catching what comes back. `after` is
what its finally clauses do. -/
inductive JavaCode where
  | throws (before : Effect) (t : Ref)
  | callsLua (before : Effect) (entry : LuaEntry) (script : LuaCode) (after : Effect)

/-- A Lua frame: it calls into Java, or executes `jlua.try(body, nil, g)`. -/
inductive LuaCode where
  | callsJava (before : Effect) (entry : JavaEntry) (body : JavaCode)
  | tryFinally (before : Effect) (body : LuaCode) (g : Finally)

end

/-- Function 0 is the body of a try, function 1 its finally function. -/
def scriptCall (body : World → Option (Result × World)) (g : Finally) : Call World :=
  fun f _ w => if f = .function 0 then body w else some (.ok [], g.run w)

mutual

def runJava (host : Host) : JavaCode → World → Option (JavaResult × World)
  | .throws before t, w => some (.error t, before.run w)
  | .callsLua before entry script after, w =>
    (runLua host script (before.run w)).map fun r =>
      let (r, w) := protectedReturn host entry r
      (r, after.run w)

def runLua (host : Host) : LuaCode → World → Option (Result × World)
  | .callsJava before entry body, w =>
    (runJava host body (before.run w)).map fun r => nativeReturn host (callback host entry r)
  | .tryFinally before body g, w =>
    TryBlock.tryBlock (scriptCall (runLua host body) g) [.function 0, .nil, .function 1]
      (before.run w)

end

mutual

/-- The innermost frame, reached from `w`, throws the `Throwable` `t`. -/
def JavaCode.Throws : JavaCode → World → Ref → Prop
  | .throws before t', w, t => t' = t ∧ isThrowable (before.run w) t
  | .callsLua before _ script _, w, t => script.Throws (before.run w) t

def LuaCode.Throws : LuaCode → World → Ref → Prop
  | .callsJava before _ body, w, t => body.Throws (before.run w) t
  | .tryFinally before body _, w, t => body.Throws (before.run w) t

end

theorem KeepsHeap.refl (w : World) : KeepsHeap w w := fun _ _ h => h

theorem KeepsHeap.trans {w₁ w₂ w₃ : World} (h₁ : KeepsHeap w₁ w₂) (h₂ : KeepsHeap w₂ w₃) :
    KeepsHeap w₁ w₃ := fun r o h => h₂ r o (h₁ r o h)

theorem KeepsHeap.isThrowable {w w' : World} (h : KeepsHeap w w') {t : Ref}
    (ht : isThrowable w t) : isThrowable w' t := by
  cases ho : w.heap[t]? with
  | none => simp [Exceptions.isThrowable, ho] at ht
  | some o => simpa [Exceptions.isThrowable, ho, h t o ho] using ht

theorem keepsHeap_new (w : World) (o : HeapObject) : KeepsHeap w (w.new o).2 := by
  intro r o' h
  simp only [World.new]
  rw [List.getElem?_append_left (List.getElem?_eq_some_iff.mp h).1, h]

@[simp] theorem getElem?_new (w : World) (o : HeapObject) :
    (w.new o).2.heap[w.heap.length]? = some o := by
  simp [World.new]

/-- Whatever the entry, what a Java frame throws leaves the callback as itself. -/
theorem callback_error (host : Host) (entry : JavaEntry) (w : World) (t : Ref) :
    ∃ w', callback host entry (.error t, w) = (.error t, w') ∧ KeepsHeap w w' := by
  have hwrapped := getElem?_new w (.invocationTargetException (some t))
  cases entry with
  | method | constructor =>
    refine ⟨_, ?_, keepsHeap_new w (.invocationTargetException (some t))⟩
    simp [callback, invoke, throwNew, catchInvoke, World.new]
  | javaFunction => exact ⟨w, rfl, KeepsHeap.refl w⟩
  | registeredMethod =>
    refine ⟨_, ?_, keepsHeap_new w (.invocationTargetException (some t))⟩
    simp [callback, invoke, throwNew, catchRegistered, World.new]

/-- The exception is pushed without asking the checker. -/
theorem handleException_spec (host : Host) (w : World) (t : Ref) :
    ∃ v w', handleException host w t = (.error v, w') ∧ getObjectFromUserdata w' v = some t ∧
      KeepsHeap w w' := by
  refine ⟨_, _, rfl, ?_, host.setExceptionStackTrace.keepsHeap w⟩
  simp [getObjectFromUserdata]

theorem push_getLuaObject (w : World) (v : Value) :
    push (getLuaObject w v).2 (getLuaObject w v).1 = v := by
  simp [push, getLuaObject]

/-- A protected call that ends with the userdata of a `Throwable` throws the `Throwable`. -/
theorem protectedReturn_error (host : Host) (entry : LuaEntry) {w : World} {v : Value} {t : Ref}
    (hv : getObjectFromUserdata w v = some t) (ht : isThrowable w t) :
    protectedReturn host entry (.error v, w) = (.error t, (getLuaObject w v).2) := by
  have hget : getObjectFromUserdata (getLuaObject w v).2 v = some t := hv
  have hthrow : isThrowable (getLuaObject w v).2 t = true := ht
  cases entry with
  | call =>
    have hstring : isString v = false := by
      cases v <;> first | rfl | simp [getObjectFromUserdata] at hv
    have hobject : isObject w v = true := by
      cases v <;> simp [getObjectFromUserdata] at hv
      simp [isObject, hv]
    simp only [protectedReturn, callError, hstring, hobject, push_getLuaObject, hget, hthrow]
    simp
  | callFunctionEx | doString =>
    simp [protectedReturn, handleThrows, push_getLuaObject, hget, hthrow]

/-- `jlua.try` without a catch function raises what its body raises, once `g` has returned. -/
theorem tryFinally_error {body : World → Option (Result × World)} {w w' : World} {v : Value}
    (h : body w = some (.error v, w')) (g : Finally) :
    TryBlock.tryBlock (scriptCall body g) [.function 0, .nil, .function 1] w =
      some (.error v, g.run w') := by
  rw [TryBlock.tryBlock_three _ (by decide)]
  simp [TryBlock.tryCatchFinally, TryBlock.runFinally, scriptCall, h, raised, TryBlock.resultOf]

structure Pending (w : World) (v : Value) (t : Ref) : Prop where
  object : getObjectFromUserdata w v = some t
  throwable : isThrowable w t

theorem Pending.finally_ {w : World} {v : Value} {t : Ref} (h : Pending w v t) (g : Finally) :
    Pending (g.run w) v t where
  object := by
    have hv := h.object
    cases v with
    | userdata a =>
      have ha := Option.join_eq_some_iff.mp hv
      exact Option.join_eq_some_iff.mpr (g.keepsUserdata w a (some t) ha)
    | nil | boolean | lightuserdata | number | string | table | function | thread => cases hv
  throwable := (g.keepsHeap w).isThrowable h.throwable

mutual

theorem runJava_throws (host : Host) : (code : JavaCode) → ∀ {w : World} {t : Ref},
    code.Throws w t → ∃ w', runJava host code w = some (.error t, w') ∧ isThrowable w' t
  | .throws before t', w, t, h => by
    obtain ⟨rfl, ht⟩ := h
    exact ⟨_, rfl, ht⟩
  | .callsLua before entry script after, w, t, h => by
    obtain ⟨v, w', hrun, hpending⟩ := runLua_raises host script h
    refine ⟨after.run (getLuaObject w' v).2, ?_,
      (after.keepsHeap _).isThrowable hpending.throwable⟩
    simp only [runJava, hrun, Option.map_some,
      protectedReturn_error host entry hpending.object hpending.throwable]

theorem runLua_raises (host : Host) : (code : LuaCode) → ∀ {w : World} {t : Ref},
    code.Throws w t → ∃ v w', runLua host code w = some (.error v, w') ∧ Pending w' v t
  | .callsJava before entry body, w, t, h => by
    obtain ⟨w₁, hrun, ht⟩ := runJava_throws host body h
    obtain ⟨w₂, hcallback, hkeep₂⟩ := callback_error host entry w₁ t
    obtain ⟨v, w₃, hraise, hv, hkeep₃⟩ := handleException_spec host w₂ t
    refine ⟨v, w₃, ?_, hv, (hkeep₂.trans hkeep₃).isThrowable ht⟩
    simp only [runLua, hrun, Option.map_some, hcallback, nativeReturn, hraise]
  | .tryFinally before body g, w, t, h => by
    obtain ⟨v, w', hrun, hpending⟩ := runLua_raises host body h
    exact ⟨v, g.run w', tryFinally_error hrun g, hpending.finally_ g⟩

end

/-- An exception that no frame catches comes out of the outermost call into Lua as the object
that was thrown, through any nesting of callbacks, calls and `jlua.try(f, nil, g)`, and with
any checker installed. -/
theorem exception_transparent (host : Host) (before : Effect) (entry : LuaEntry)
    (script : LuaCode) (after : Effect) {w : World} {t : Ref}
    (h : (JavaCode.callsLua before entry script after).Throws w t) :
    ∃ w', runJava host (.callsLua before entry script after) w = some (.error t, w') := by
  obtain ⟨w', hrun, _⟩ := runJava_throws host (.callsLua before entry script after) h
  exact ⟨w', hrun⟩

def noEffect : Effect := ⟨id, fun w => KeepsHeap.refl w⟩

def denyingHost : Host := ⟨fun _ => false, fun _ => "", fun _ => "", fun _ _ => "", noEffect⟩

/-- `doString` of a script that calls a method which calls a Lua function, which executes
`jlua.try(f, nil, g)` around a constructor that throws. -/
theorem exception_transparent_nested :
    ∃ w', runJava denyingHost (.callsLua noEffect .doString
      (.callsJava noEffect .method (.callsLua noEffect .call
        (.tryFinally noEffect (.callsJava noEffect .constructor (.throws noEffect 0))
          ⟨noEffect, fun _ _ _ h => h⟩) noEffect)) noEffect)
      ⟨[.throwable true none], [], []⟩ = some (.error 0, w') :=
  exception_transparent denyingHost noEffect .doString _ noEffect ⟨rfl, rfl⟩

end JLua.Exceptions
