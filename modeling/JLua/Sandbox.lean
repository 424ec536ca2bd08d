import JLua.Conversion
import JLua.Lib.Runs

/-!
# What a JavaObjectChecker keeps out of Lua

The callbacks hand objects to the push functions. Reflection is left open: what it produced, an
object or an exception, comes with the callback, together with the state of the Java world at
the time.
-/

namespace JLua.Sandbox

open Conversion TransitionRuns
set_option autoImplicit false

universe u
variable {σ : Type u}

inductive Outcome where
  | returns (ret : Option JavaObject)
  | throws (e : JavaObject)

inductive FieldLookup where
  | packageClass (clazz : JavaObject)
  | package (ref : Nat)
  | length (n : Int32)
  | declaredClass (clazz : JavaObject)
  | field (ret : Option JavaObject)
  | notFound

inductive Thrown where
  | object (e : JavaObject)
  | luaException (e : LuaException)

def lift (r : Except LuaException State) : Except Thrown State := r.mapError .luaException

/-- `objectIndex` of a class with the name `new`. -/
def objectIndexNew (host : Host) (L : State) : Outcome → Except Thrown State
  | .returns (some ret) => lift (pushJavaObject host L ret)
  | .returns none => .error (.luaException ⟨"Couldn't instantiate java Object"⟩)
  | .throws e => .error (.object e)

def objectIndex (host : Host) (L : State) (returnsVoid : Bool) : Outcome → Except Thrown State
  | .returns ret => if returnsVoid then .ok L else lift (pushObjectValue host L ret)
  | .throws e => .error (.object e)

def FieldLookup.value : FieldLookup → Option (Option JavaObject)
  | packageClass clazz => some (some clazz)
  | package ref => some (some (.javaPackage ref))
  | length n => some (some (.integer n))
  | declaredClass clazz => some (some clazz)
  | field ret => some ret
  | notFound => none

def checkField (host : Host) (L : State) (found : FieldLookup) : Except Thrown State :=
  match found.value with
  | some ret => lift (pushObjectValue host L ret)
  | none => .ok L

/-- `arrayIndex` with an element, and `newArray` with an array. -/
def pushOutcome (host : Host) (L : State) : Outcome → Except Thrown State
  | .returns ret => lift (pushObjectValue host L ret)
  | .throws e => .error (.object e)

def arrayIndex (host : Host) (L : State) (element : Outcome) : Except Thrown State :=
  pushOutcome host L element

def newArray (host : Host) (L : State) (array : Outcome) : Except Thrown State :=
  pushOutcome host L array

/-- `forName` never returns `null`. -/
def javaGetClass (host : Host) (L : State) (clazz : Except JavaObject JavaObject) :
    Except Thrown State :=
  match clazz with
  | .ok clazz => lift (pushJavaObject host L clazz)
  | .error e => .error (.object e)

/-- The exception is wrapped in another `LuaException`, named by its class and message. -/
def wrap (e : LuaException) : LuaException := ⟨"org.jlua.LuaException: " ++ e.message⟩

def createProxyObject (host : Host) (L : State) : ProxyResult → Except Thrown State
  | .proxy proxy => lift ((pushJavaObject host L proxy).mapError wrap)
  | .classNotFound name =>
    .error (.luaException ⟨"java.lang.ClassNotFoundException: " ++ name⟩)
  | .luaException e => .error (.luaException (wrap e))

inductive Callback where
  | objectIndexNew (ret : Outcome)
  | objectIndex (returnsVoid : Bool) (ret : Outcome)
  | checkField (found : FieldLookup)
  | arrayIndex (element : Outcome)
  | newArray (array : Outcome)
  | javaGetClass (clazz : Except JavaObject JavaObject)
  | createProxyObject (proxy : ProxyResult)

def perform (host : Host) (L : State) : Callback → Except Thrown State
  | .objectIndexNew ret => objectIndexNew host L ret
  | .objectIndex returnsVoid ret => objectIndex host L returnsVoid ret
  | .checkField found => checkField host L found
  | .arrayIndex element => arrayIndex host L element
  | .newArray array => newArray host L array
  | .javaGetClass clazz => javaGetClass host L clazz
  | .createProxyObject proxy => createProxyObject host L proxy

/-- The Java world as a host, with the checker that was installed before any script ran. -/
structure Environment (σ : Type u) where
  host : σ → Host
  check : σ → JavaObject → Bool
  installed : ∀ s, (host s).objectChecker = some (check s)

/-- A Java object that has been placed on the stack as a userdata, whether `handleException`
did it, and what the checker said about the object at the time. -/
structure Pushed where
  obj : JavaObject
  byHandleException : Bool
  approved : Bool

structure World (σ : Type u) where
  java : σ
  lua : State
  pushed : List Pushed

def newObjects (L L' : State) : List JavaObject :=
  (L'.userdata.drop L.userdata.length).filterMap fun
    | .java obj => some obj
    | .plain => none

def Thrown.pending (L : State) : Thrown → JavaObject
  | object e => e
  | luaException _ => .luaException L.userdata.length

/-- A callback whose Java code has left the Java world in `s`. -/
def callback (env : Environment σ) (w : World σ) (s : σ) (c : Callback) : World σ :=
  match perform (env.host s) w.lua c with
  | .ok L => ⟨s, L, w.pushed ++ (newObjects w.lua L).map fun obj => ⟨obj, false, env.check s obj⟩⟩
  | .error thrown =>
    let e := thrown.pending w.lua
    ⟨s, w.lua.pushUserdata e, w.pushed ++ [⟨e, true, env.check s e⟩]⟩

/-- A callback, or anything that Lua does without one. -/
inductive Action (σ : Type u) where
  | callback (s : σ) (c : Callback)
  | lua (L : State)

inductive Step (env : Environment σ) : World σ → Action σ → World σ → Prop where
  | callback {w : World σ} (s : σ) (c : Callback) :
      Step env w (.callback s c) (callback env w s c)
  | lua {w : World σ} (L : State) : Step env w (.lua L) { w with lua := L }

/-- The instances that `checkJavaObj` lets pass unseen. -/
def exempt : JavaObject → Bool
  | .luaException _ | .javaPackage _ | .javaFunction _ _ => true
  | _ => false

def Confined (w : World σ) : Prop :=
  ∀ p ∈ w.pushed, p.byHandleException ∨ exempt p.obj ∨ p.approved

end JLua.Sandbox
