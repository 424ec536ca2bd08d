import JLua.Lib.Monitors

/-!
# The monitors of LuaState, LuaObject, LuaInvocationHandler and JLuaAPI

A `synchronized native` method holds the monitor of its `LuaState` while its C code runs, also
while that code calls back into Java; a `static synchronized` one holds `LuaState.class`
instead. A thread is the stack of the frames it is in. Frames may nest in any way: what a
script or a Java callback really calls is one of the stacks allowed here.
-/

namespace JLua.Locking

open Monitors TransitionRuns
set_option autoImplicit false

universe u v
variable {T : Type u} {σ : Type v}

/-- The native methods of `LuaState` that work on the `lua_State` of their own object only. -/
inductive NativeMethod where
  | _open | _close | _newthread
  | _getTop | _setTop | _pushValue | _remove | _insert | _replace | _checkStack
  | _isNumber | _isString | _isCFunction | _isUserdata | _type | _typeName | _equal | _rawequal
  | _lessthan | _toNumber | _toInteger | _toBoolean | _toString | _toByteArray | _objlen
  | _toThread
  | _pushNil | _pushNumber | _pushInteger | _pushString | _pushStringBytes | _pushBoolean
  | _getTable | _getField | _rawGet | _rawGetI | _createTable | _getMetaTable | _getFEnv
  | _setTable | _setField | _rawSet | _rawSetI | _setMetaTable | _setFEnv | _call | _pcall
  | _yield | _resume | _status | _gc | _error | _next | _concat
  | _pop | _newTable | _strlen | _isFunction | _isTable | _isNil | _isBoolean | _isThread
  | _isNone | _isNoneOrNil | _setGlobal | _getGlobal | _getGcCount
  | _LdoFile | _LdoString | _LgetMetaField | _LcallMeta | _Ltyperror | _LargError
  | _LcheckString | _LoptString | _LcheckNumber | _LoptNumber | _LcheckInteger | _LoptInteger
  | _LcheckStack | _LcheckType | _LcheckAny | _LnewMetatable | _LgetMetatable | _Lwhere | _Lref
  | _LunRef | _LgetN | _LsetN | _LloadFile | _LloadBuffer | _LloadString | _Lgsub | _LfindTable
  | _openBase | _openTable | _openIo | _openOs | _openString | _openMath | _openDebug
  | _openPackage | _openLibs
  | jlua_open | _getObjectFromUserdata | _isObject | _pushJavaObject | _pushJavaArray
  | _pushJavaFunction | _isJavaFunction
  deriving DecidableEq, Repr

def NativeMethod.isStatic : NativeMethod → Bool
  -- the one method declared `static synchronized native`
  | ._LdoFile => true
  | _ => false

/-- The Java code that synchronizes on a `LuaState` without being native: the synchronized
methods of `LuaState`, and the `synchronized (L)` blocks of the other classes. -/
inductive SyncBlock where
  | close | isClosed | toJavaObject | getGlobal | setGlobal
  | newLuaObject | registerValue | finalize | isNil | isBoolean | isNumber | isString
  | isFunction | isJavaObject | isJavaFunction | isTable | isUserdata | type | getBoolean
  | getNumber | getString | getByteArray | getObject | call | toString | createProxy
  | invoke
  | objectIndex | arrayIndex | objectNewIndex | arrayNewIndex | newArray | checkJavaObj
  | setExceptionStackTrace | javaLoadLib | getObjInstance | checkField | checkMethod
  | createProxyObject
  | register
  deriving DecidableEq, Repr

inductive FactoryMethod where
  | newLuaState | getExistingState | insertLuaState | removeLuaState | getNextStateIndex
  deriving DecidableEq, Repr

inductive Monitor (σ : Type v) where
  | instance (L : σ)
  | luaStateClass
  | luaStateFactoryClass
  deriving DecidableEq

/-- What a thread can be in; `_xmove(from, to)` is a method of the state it moves values from. -/
inductive Frame (σ : Type v) where
  | native (m : NativeMethod) (L : σ)
  | xmove (source target : σ)
  | block (b : SyncBlock) (L : σ)
  | factory (m : FactoryMethod)

def monitor : Frame σ → Monitor σ
  | .native m L => if m.isStatic then .luaStateClass else .instance L
  | .xmove source _ => .instance source
  | .block _ L => .instance L
  | .factory _ => .luaStateFactoryClass

def ExecutesOn (S : σ) : Frame σ → Prop
  | .native _ L => L = S
  | .xmove source target => source = S ∨ target = S
  | .block _ _ => False
  | .factory _ => False

/-- `_LdoFile` on `S`, and `_xmove` into `S` from another state, are entered only by a thread
that already owns the monitor of `S`. -/
def ForeignEntryLocked (S : σ) (c : Config T (Frame σ)) : Action T (Frame σ) → Prop
  | .enter t (.native ._LdoFile L) => L = S → Owns monitor c t (.instance S)
  | .enter t (.xmove source target) =>
      target = S → source ≠ S → Owns monitor c t (.instance S)
  | _ => True

theorem foreignEntryLocked_iff (S : σ) (c : Config T (Frame σ)) (a : Action T (Frame σ)) :
    ForeignEntryLocked S c a ↔ EntersGuarded monitor (ExecutesOn S) (.instance S) c a := by
  cases a with
  | leave t => simp [ForeignEntryLocked, EntersGuarded]
  | enter t f =>
    cases f with
    | native m L =>
      by_cases hm : m = ._LdoFile
      · subst m
        simp [ForeignEntryLocked, EntersGuarded, ExecutesOn, monitor, NativeMethod.isStatic]
      · have hs : m.isStatic = false := by cases m <;> simp_all [NativeMethod.isStatic]
        have hl : ForeignEntryLocked S c (.enter t (.native m L)) := by
          cases m <;> trivial
        simp only [hl, EntersGuarded, ExecutesOn, monitor, hs, true_iff]
        exact fun h => Or.inl (by rw [h]; rfl)
    | xmove source target =>
      simp only [ForeignEntryLocked, EntersGuarded, ExecutesOn, monitor, Monitor.instance.injEq]
      constructor
      · rintro h (hs | ht)
        · exact Or.inl hs
        · by_cases hs : source = S
          · exact Or.inl hs
          · exact Or.inr (h ht hs)
      · intro h ht hs
        exact (h (Or.inr ht)).resolve_left hs
    | block b L => simp [ForeignEntryLocked, EntersGuarded, ExecutesOn]
    | factory m => simp [ForeignEntryLocked, EntersGuarded, ExecutesOn]

variable [DecidableEq T]

theorem alone_of_foreignEntryLocked (S : σ)
    {log : List (Config T (Frame σ) × Action T (Frame σ))} {c : Config T (Frame σ)}
    (run : Run (Step monitor) idle log c) (ok : Meets (ForeignEntryLocked S) log) :
    Visits (Alone (ExecutesOn S)) log c :=
  alone_of_entersGuarded run fun x hx => (foreignEntryLocked_iff S x.1 x.2).mp (ok x hx)

/-- A Java method that a running script called may call `doFile` on the same state. -/
theorem alone_of_foreignEntryLocked_nested :
    Visits (Alone (ExecutesOn (0 : Nat)))
      [((idle : Config Nat (Frame Nat)), Action.enter 1 (Frame.native ._LdoString 0)),
       (idle.enter 1 (.native ._LdoString 0), Action.enter 1 (Frame.native ._LdoFile 0))]
      ((idle.enter 1 (.native ._LdoString 0)).enter 1 (.native ._LdoFile 0)) := by
  refine alone_of_foreignEntryLocked 0
    (.next (.next .start (.enter fun u hu => absurd hu (not_owns_idle _ _)))
      (.enter fun u hu => ?_)) ?_
  · exact (owns_enter.mp hu).elim And.left fun hu => absurd hu (not_owns_idle _ _)
  · simp [Meets, ForeignEntryLocked, owns_enter, monitor, NativeMethod.isStatic]

/-- One thread runs `doFile` and another one `doString` on the same state: the first holds
`LuaState.class`, the second the state itself, and both are inside its `lua_State`. -/
theorem LdoFile_overlaps_LdoString :
    Run (Step monitor) (idle : Config Nat (Frame Nat))
      [(idle, .enter 1 (.native ._LdoFile 0)),
       (idle.enter 1 (.native ._LdoFile 0), .enter 2 (.native ._LdoString 0))]
      ((idle.enter 1 (.native ._LdoFile 0)).enter 2 (.native ._LdoString 0)) ∧
    ¬ Alone (ExecutesOn (0 : Nat))
      (((idle : Config Nat (Frame Nat)).enter 1 (.native ._LdoFile 0)).enter 2
        (.native ._LdoString 0)) := by
  constructor
  · refine .next (.next .start (.enter fun u hu => absurd hu (not_owns_idle _ _)))
      (.enter fun u hu => ?_)
    simp [owns_enter, monitor, NativeMethod.isStatic] at hu
  · intro h
    have heq := h 1 2 ⟨Frame.native ._LdoFile 0, by simp [mem_enter], rfl⟩
      ⟨Frame.native ._LdoString 0, by simp [mem_enter], rfl⟩
    exact absurd heq (by decide)

/-- The condition cannot be dropped for any single call: once a thread has entered `_LdoFile`
without owning `S`, another thread can be the next to enter `_LdoString` on `S`. -/
theorem unlocked_LdoFile_breaks {S : σ} {c c' : Config T (Frame σ)} {t u : T}
    (hx : Exclusive monitor c) (hun : ¬ Owns monitor c t (.instance S))
    (h : Step monitor c (.enter t (.native ._LdoFile S)) c') (hu : u ≠ t) :
    ∃ v c'', Step monitor c' (.enter v (.native ._LdoString S)) c'' ∧
      ¬ Alone (ExecutesOn S) c'' := by
  cases h with
  | enter _ =>
    -- the owner of `S`, or anyone else if `S` is free
    have hv : ∃ v, v ≠ t ∧ ∀ w, Owns monitor c w (.instance S) → w = v := by
      by_cases hown : ∃ v, Owns monitor c v (.instance S)
      · obtain ⟨v, hv⟩ := hown
        exact ⟨v, fun h => hun (h ▸ hv), fun w hw => hx w v _ hw hv⟩
      · exact ⟨u, hu, fun w hw => absurd ⟨w, hw⟩ hown⟩
    obtain ⟨v, hvt, hfree⟩ := hv
    refine ⟨v, _, .enter fun w hw => ?_, fun hal => hvt ?_⟩
    · rcases owns_enter.mp hw with ⟨_, hm⟩ | hw
      · simp [monitor, NativeMethod.isStatic] at hm
      · exact hfree w hw
    · exact hal v t ⟨.native ._LdoString S, mem_enter.mpr (Or.inl ⟨rfl, rfl⟩), rfl⟩
        ⟨.native ._LdoFile S,
          mem_enter.mpr (Or.inr (mem_enter.mpr (Or.inl ⟨rfl, rfl⟩))), rfl⟩

end JLua.Locking
