import JLua.InvocationHandler
import JLua.RegisteredMethods

/-!
# Two ways to call a Java method

A method is called through the object that has it, or through a function that has been made for
it. In the first case the object is below the arguments, which stay there during the call; in the
second one it is the function, and the arguments are gone when the method runs.
-/

namespace JLua.DirectCalls

open Accessors Calls Conversion Delivery JLuaAPI LuaInvocationHandler OutcomeRules Pushing
  RegisteredMethods StackDiscipline
set_option autoImplicit false

variable {σ α β : Type}

/-! ### Another stack -/

def atStack (L : Stack) : EStateM.Result Stop (World σ) α → EStateM.Result Stop (World σ) α
  | .ok a w => .ok a (w.setStack L)
  | .error stop w => .error stop (w.setStack L)

/-- The code neither looks at the stack nor leaves anything there. -/
def Blind (c : Code σ α) : Prop := ∀ w L, c (w.setStack L) = atStack L (c w)

/-- The code may use the stack, but a run that returns is the same on any other stack. -/
def Portable (c : Code σ α) : Prop :=
  ∀ w a w' L, c w = .ok a w' → c (w.setStack L) = .ok a (w'.setStack L)

theorem Blind.portable {c : Code σ α} (h : Blind c) : Portable c := by
  intro w a w' L hc
  rw [h w L, hc]
  rfl

theorem Portable.bind {c : Code σ α} {f : α → Code σ β} (hc : Portable c)
    (hf : ∀ a, Portable (f a)) : Portable (c >>= f) := by
  intro w b w' L h
  obtain ⟨a, w₁, ha, hb⟩ := bind_eq_ok_iff.mp h
  exact (bind_of_ok (hc w a w₁ L ha)).trans (hf a w₁ b w' L hb)

theorem portable_pure (a : α) : Portable (pure a : Code σ α) := by
  rintro w _ _ L ⟨⟩
  rfl

theorem portable_throw (stop : Stop) : Portable (throw stop : Code σ α) := nofun

theorem throwLuaException_ne_ok (message : JString) (w : World σ) (a : α) (w' : World σ) :
    throwLuaException message w ≠ .ok a w' := nofun

theorem portable_ite {p : Prop} [Decidable p] {c d : Code σ α} (hc : Portable c)
    (hd : Portable d) : Portable (if p then c else d) := by
  split
  · exact hc
  · exact hd

theorem Portable.map {c : Code σ α} (h : Portable c) (f : α → β) : Portable (f <$> c) := by
  intro w b w' L hb
  obtain ⟨a, ha, rfl⟩ := map_eq_ok_iff.mp hb
  exact map_eq_ok (h w a w' L ha)

/-- A handler that only throws something else. -/
theorem Portable.catching {c : Code σ α} {kind : Stop → Bool} {handler : Stop → Code σ α}
    (hc : Portable c) (hh : ∀ stop w a w', handler stop w ≠ .ok a w') :
    Portable (catching c kind handler) := by
  intro w a w' L h
  unfold OutcomeRules.catching at h ⊢
  cases hrun : c w with
  | ok b w₁ =>
    rw [hrun] at h
    obtain ⟨rfl, rfl⟩ := EStateM.Result.ok.inj h
    rw [hc w b w₁ L hrun]
  | error stop w₁ =>
    rw [hrun] at h
    dsimp only at h
    split at h
    · exact absurd h (hh stop w₁ a w')
    · cases h

theorem portable_library (f : Library σ α) : Portable (library f) := by
  intro w a w' L h
  have hrest : (w.setStack L).rest = w.rest := rfl
  unfold library at h ⊢
  rw [hrest]
  generalize f w.rest = found at h ⊢
  obtain ⟨result, s⟩ := found
  cases result with
  | ok b =>
    cases h
    rfl
  | error t => cases h

theorem portable_isTable (o : LuaObject) : Portable (o.isTable : Code σ Bool) := by
  intro w a w' L h
  cases (withPushed_type _ o w).symm.trans h
  exact withPushed_type _ o (w.setStack L)

theorem portable_isFunction (o : LuaObject) : Portable (o.isFunction : Code σ Bool) := by
  intro w a w' L h
  cases (withPushed_type _ o w).symm.trans h
  exact withPushed_type _ o (w.setStack L)

variable {env : Env σ}

theorem portable_getField (o : LuaObject) (name : JString) :
    Portable (o.getField env (some name)) := by
  intro w field w' L h
  obtain ⟨hindexable, f, heap, hlooks, rfl, rfl⟩ := getField_eq_ok_iff.mp h
  exact getField_eq_ok_iff.mpr ⟨hindexable, f, heap, hlooks, rfl, rfl⟩

theorem portable_checkMethods (o : LuaObject) (clazz : JavaClass) (methods : List JString) :
    Portable (LuaObject.checkMethods env o clazz methods) := by
  induction methods with
  | nil => exact portable_pure _
  | cons method methods ih =>
    refine (portable_getField o method).bind fun field => ?_
    exact (portable_isFunction field).bind fun _ => portable_ite (portable_throw _) ih

/-- A value gets a reference, wherever it is. -/
theorem registerValue_portable {k : LuaObject → Code σ α} (hk : ∀ o, Portable (k o))
    {idx idx' : Int} {v : Value} {w w' : World σ} {L : Stack} {x : α}
    (hv : index2adr w.stack idx = some v) (hv' : index2adr L idx' = some v)
    (h : (LuaObject.registerValue idx >>= k) w = .ok x w') :
    (LuaObject.registerValue idx' >>= k) (w.setStack L) = .ok x (w'.setStack L) := by
  have hstack : index2adr (w.setStack L).stack idx' = some v := hv'
  rw [bind_of_ok (registerValue_run hv)] at h
  exact (bind_of_ok (registerValue_run hstack)).trans (hk _ _ x w' L h)

theorem liftState_portable {f g : State → Except LuaException (α × State)} {w w' : World σ}
    {L : Stack} {x : α}
    (hfg : ∀ M, f w.lua = .ok (x, M) → g { w.lua with stack := L } = .ok (x, { M with stack := L }))
    (h : LuaState.liftState f w = .ok x w') :
    LuaState.liftState g (w.setStack L) = .ok x (w'.setStack L) := by
  obtain ⟨M, hf, rfl⟩ := LuaState.liftState_eq_ok_iff.mp h
  exact LuaState.liftState_eq_ok_iff.mpr ⟨{ M with stack := L }, hfg M hf, rfl⟩

theorem acceptIf_congr {c : Prop} [Decidable c] {e : LuaException} {M M' : State} {L : Stack}
    {x y : Option JavaObject} (h : (if c then Except.ok (y, M) else .error e) = .ok (x, M')) :
    (if c then Except.ok (y, { M with stack := L }) else .error e) =
      .ok (x, { M' with stack := L }) := by
  split at h
  · next hc =>
    cases h
    exact if_pos hc
  · cases h

theorem compareLuaObject_congr {host : Host} {M M' : State} {L : Stack} {type : JavaClass}
    {v : Value} {x : Option JavaObject} (h : compareLuaObject host M type v = .ok (x, M')) :
    compareLuaObject host { M with stack := L } type v = .ok (x, { M' with stack := L }) := by
  unfold compareLuaObject at h ⊢
  split at h
  · next hassign =>
    cases h
    exact if_pos hassign
  · cases h

theorem compareTypes_congr_value {host : Host} {M M' : State} {L : Stack} {type : JavaClass}
    {idx idx' : Int} {v : Value} {x : Option JavaObject} (hv : index2adr M.stack idx = some v)
    (hv' : index2adr L idx' = some v) (htable : ∀ a, v ≠ .table a)
    (h : Conversion.compareTypes host M type idx = .ok (x, M')) :
    Conversion.compareTypes host { M with stack := L } type idx' =
      .ok (x, { M' with stack := L }) := by
  unfold Conversion.compareTypes at h ⊢
  rw [hv] at h
  dsimp only
  rw [hv']
  cases v with
  | table a => exact absurd rfl (htable a)
  | function | lightuserdata => exact compareLuaObject_congr h
  | userdata a =>
    have hobject : getObjectFromUserdata { M with stack := L } (.userdata a) =
      getObjectFromUserdata M (.userdata a) := rfl
    dsimp only at h ⊢
    rw [hobject]
    generalize getObjectFromUserdata M (.userdata a) = found at h ⊢
    cases found with
    | none => exact compareLuaObject_congr h
    | some obj => exact acceptIf_congr h
  | number n =>
    dsimp only at h ⊢
    generalize convertLuaNumber host.classes n type = found at h ⊢
    cases found with
    | none => cases h
    | some obj =>
      cases h
      rfl
  | string bytes =>
    dsimp only at h ⊢
    split at h
    · next hbytes =>
      cases h
      exact if_pos hbytes
    · next hbytes =>
      rw [if_neg hbytes]
      split at h
      · next hchar =>
        cases h
        exact if_pos hchar
      · next hchar =>
        rw [if_neg hchar]
        exact acceptIf_congr h
  | boolean b => exact acceptIf_congr h
  | nil =>
    cases h
    rfl
  | thread => cases h

theorem index2adr_from_bottom (K : Stack) (v : Value) (vs : List Value) :
    index2adr (K ++ v :: vs) (K.length + 1) = some v := by
  have habs : absIndex (K ++ v :: vs) (K.length + 1) = K.length := by
    rw [absIndex, if_pos (by omega)]
    omega
  rw [index2adr, habs]
  simp

section Conversions
variable (hfor : ∀ name, Blind (env.forName name))
include hfor

theorem portable_createProxy (o : LuaObject) (implem : JString) :
    Portable (o.createProxy env implem) := by
  have hfind : ∀ names, Portable (LuaObject.findInterfaces env o names) := by
    intro names
    induction names with
    | nil => exact portable_pure _
    | cons name names ih =>
      refine (hfor name).portable.bind fun clazz => ?_
      exact (portable_checkMethods o clazz _).bind fun _ => ih.bind fun _ => portable_pure _
  refine (portable_isTable o).bind fun _ => portable_ite (portable_throw _) ?_
  exact (hfind _).bind fun interfaces => portable_library _

/-- The same value is converted to the same object, wherever it is. -/
theorem compareTypes_portable {type : JavaClass} {idx idx' : Int} {v : Value} {w w' : World σ}
    {L : Stack} {x : Option JavaObject} (hv : index2adr w.stack idx = some v)
    (hv' : index2adr L idx' = some v) (h : compareTypes env type idx w = .ok x w') :
    compareTypes env type idx' (w.setStack L) = .ok x (w'.setStack L) := by
  have hstack : index2adr (w.setStack L).stack idx' = some v := hv'
  unfold JLuaAPI.compareTypes at h ⊢
  rw [get_bind, hv] at h
  rw [get_bind, hstack]
  cases v with
  | table a =>
    dsimp only at h ⊢
    split at h
    · next hinterface =>
      rw [if_pos hinterface]
      refine registerValue_portable (fun o => ?_) hv hv' h
      refine ((portable_createProxy hfor o _).map some).catching fun _ => ?_
      exact throwLuaException_ne_ok _
    · next hinterface =>
      rw [if_neg hinterface]
      exact liftState_portable (fun M => compareLuaObject_congr (L := L)) h
  | _ => exact liftState_portable (fun _ => compareTypes_congr_value hv hv' nofun) h

theorem conversions_portable {types : List JavaClass} {vs : List Value} {w w' : World σ}
    {xs : List (Option JavaObject)} (h : Conversions env types vs w xs w') {L : Stack}
    (hL : ∀ v ∈ vs, v ∈ L) : Conversions env types vs (w.setStack L) xs (w'.setStack L) := by
  induction h with
  | nil w => exact .nil _
  | @cons type types v vs idx x xs w w₁ w₂ slot h rest ih =>
    obtain ⟨K, S, hsplit⟩ := List.append_of_mem (hL v List.mem_cons_self)
    have hslot : index2adr L (K.length + 1) = some v := by
      rw [hsplit]
      exact index2adr_from_bottom K v S
    exact .cons hslot (compareTypes_portable hfor slot hslot h)
      (ih fun v hv => hL v (List.mem_cons_of_mem _ hv))

end Conversions

/-- The arguments of a callback are the values above the first slots. -/
theorem convertArguments_of_conversions {types : List JavaClass} {vs : List Value}
    {w w' : World σ} {xs : List (Option JavaObject)} (h : Conversions env types vs w xs w')
    {K : Stack} (hw : w.stack = K ++ vs) :
    convertArguments env types (K.length + 1) w = .ok xs w' := by
  induction h generalizing K with
  | nil w => rfl
  | @cons type types v vs idx x xs w w₁ w₂ slot h rest ih =>
    have hslot : index2adr w.stack (K.length + 1) = some v := by
      rw [hw]
      exact index2adr_from_bottom K v vs
    rw [compareTypes_congr (slot.trans hslot.symm)] at h
    have hrest := ih (K := K ++ [v]) (by
      rw [(stack_of_compareTypes_ok h).1, hw, List.append_assoc]
      rfl)
    rw [List.length_append, List.length_singleton, Nat.cast_add, Nat.cast_one] at hrest
    rw [convertArguments, bind_of_ok h, bind_of_ok hrest]
    rfl

/-! ### The two calls -/

variable (env) in
/-- The method is the only one of its name and arity that the object can mean by the name. An
object of the class `Class` looks for it in the class that it stands for, too. -/
structure OnlyMethod (o : JavaObject) (m : Method) : Prop where
  candidates : methodCandidates (env.getMethods o.getClass) m.name (m.parameterTypes.length + 1) =
    [m]
  denoted : ∀ clazz, env.asClass o = some clazz → m.name ≠ "new" ∧
    methodCandidates (env.getMethods clazz) m.name (m.parameterTypes.length + 1) = []

variable {o : JavaObject} {m : Method} {access : Access} {args : List Value}
  {objs : List (Option JavaObject)} {w w₁ : World σ}

theorem getMethod_run {clazz : JavaClass} {top : Nat} {u : Value}
    (hmethods : methodCandidates (env.getMethods clazz) m.name top = [m])
    (hconv : Conversions env m.parameterTypes args (w.setStack (u :: args)) objs w₁) :
    JLuaAPI.getMethod env clazz m.name top (w.setStack (u :: args)) = .ok (some (m, objs)) w₁ := by
  have hrun : convertArguments env m.parameterTypes 2 (w.setStack (u :: args)) = .ok objs w₁ :=
    convertArguments_of_conversions hconv (K := [u]) rfl
  have htry : tryArguments env m.parameterTypes (w.setStack (u :: args)) =
      .ok (some objs) w₁ := by
    rw [tryArguments, OutcomeRules.catching, map_eq_ok hrun]
  rw [JLuaAPI.getMethod, hmethods]
  exact bind_of_ok htry

theorem length_of_conversions {types : List JavaClass} (h : Conversions env types args w objs w₁) :
    args.length = types.length := by
  induction h with
  | nil => rfl
  | cons slot h rest ih => rw [List.length_cons, List.length_cons, ih]

theorem objectIndex_run (only : OnlyMethod env o m) {u : Value}
    (hconv : Conversions env m.parameterTypes args (w.setStack (u :: args)) objs w₁) :
    objectIndex env o m.name (w.setStack (u :: args)) = invokeFound env o (some (m, objs)) w₁ := by
  have htop : luaGettop (u :: args) = m.parameterTypes.length + 1 := by
    rw [← length_of_conversions hconv]
    rfl
  have hgettop : (LuaState.getTop : Code σ Nat) (w.setStack (u :: args)) =
      .ok (m.parameterTypes.length + 1) (w.setStack (u :: args)) :=
    congrArg (fun n => EStateM.Result.ok n (w.setStack (u :: args))) htop
  have hallocate : (allocateArguments (m.parameterTypes.length + 1) : Code σ Unit)
      (w.setStack (u :: args)) = .ok () (w.setStack (u :: args)) := rfl
  rw [objectIndex, bind_of_ok hgettop, bind_of_ok hallocate]
  cases hclass : env.asClass o with
  | none =>
    exact bind_of_ok (getMethod_run only.candidates hconv)
  | some clazz =>
    obtain ⟨hnew, hnone⟩ := only.denoted clazz hclass
    have hself := only.candidates
    rw [env.getClass_of_asClass o clazz hclass] at hself
    have hfirst : JLuaAPI.getMethod env clazz m.name (m.parameterTypes.length + 1)
        (w.setStack (u :: args)) = .ok none (w.setStack (u :: args)) := by
      rw [JLuaAPI.getMethod, hnone]
      rfl
    have hboth : classMethod env clazz m.name (m.parameterTypes.length + 1)
        (w.setStack (u :: args)) = .ok (some (m, objs)) w₁ :=
      (bind_of_ok hfirst).trans (getMethod_run hself hconv)
    dsimp only
    rw [if_neg hnew]
    exact bind_of_ok hboth

theorem registered_of_only (only : OnlyMethod env o m) {r : RegisteredMethod}
    (hr : RegisteredMethods.getMethod env o m.name m.parameterTypes = some r) :
    r.method = m ∧ r.target = some o ∧ r.argsTypes = m.parameterTypes := by
  unfold RegisteredMethods.getMethod register at hr
  split at hr
  · next m' hfind =>
    cases hr
    refine ⟨?_, rfl, rfl⟩
    have hfound : m'.name = m.name ∧ m'.parameterTypes = m.parameterTypes := by
      simpa using List.find?_some hfind
    have hcandidate : m' ∈ methodCandidates (env.getMethods o.getClass) m.name
        (m.parameterTypes.length + 1) := by
      refine List.mem_filter.mpr ⟨List.mem_of_find?_eq_some hfind, ?_⟩
      simp [hfound]
    rw [only.candidates] at hcandidate
    exact List.mem_singleton.mp hcandidate
  · cases hr

/-- The values that a function returns are the topmost ones. -/
def results (w : World σ) (n : Nat) : List Value := w.stack.drop (w.stack.length - n)

/-- What a call makes of the world as Lua sees it: values that are returned or what ends it, and
everything but the stack. -/
def outcome : EStateM.Result Stop (World σ) Nat → Except Stop (List Value) × Heap σ
  | .ok n w => (.ok (results w n), w.heap)
  | .error stop w => (.error stop, w.heap)

def receiver (m : Method) (o : JavaObject) : Option JavaObject :=
  if m.isStatic then none else some o

def accessText (message : JString) : JString :=
  "IllegalAccessException: " ++ javaString "java.lang.IllegalAccessException" ++
    javaString ": " ++ message

variable (env access m) in
/-- Neither a method nor an initializer looks at the stack of the call. What a method throws is
wrapped by reflection, and no method throws what is made of the refusal to invoke it. -/
structure Reflection : Prop where
  forName : ∀ name, Blind (env.forName name)
  blind : ∀ target objs, Blind (env.invoke m target objs)
  throws : ∀ target objs w e w', env.invoke m target objs w = .error (.throws e) w' →
    (∃ cause, e = .invocationTargetException cause) ∨ env.isException (.throws e) = false
  refusal : ∀ message, access m = some message → ∀ target objs w cause w',
    env.invoke m target objs w = .error (.throws (.invocationTargetException cause)) w' →
      cause ≠ .luaException (some (accessText message))

variable (env o m access args objs w₁) in
/-- Reflection invokes the method on the arguments, and a result can be told from no result. -/
structure Agreeable (u f : Value) : Prop where
  accessible : access m = none
  legal : areLegalArguments env.host.classes m.parameterTypes objs
  result : m.returnType ≠ .primitive .void → ∀ ret w₂,
    env.invoke m (receiver m o) objs w₁ = .ok ret w₂ →
      ret ≠ none ∧ (Own w₂.peer ret ∨ (u :: args).getLast? = some f)

theorem invoke_eq (only : OnlyMethod env o m) (objs : List (Option JavaObject)) :
    JLuaAPI.invoke env m o objs =
      if areLegalArguments env.host.classes m.parameterTypes objs then
        env.invoke m (receiver m o) objs
      else throwJava (illegalArgument "argument type mismatch") := by
  have hmem : m ∈ env.getMethods o.getClass := by
    have hcandidate : m ∈ methodCandidates (env.getMethods o.getClass) m.name
        (m.parameterTypes.length + 1) := by
      rw [only.candidates]
      exact List.mem_singleton_self m
    exact (List.mem_filter.mp hcandidate).1
  have hreceiver : isReceiver env m o = true := by
    rw [isReceiver, env.declaringClass_of_mem _ m hmem, Bool.or_true]
  rw [JLuaAPI.invoke, if_neg (by simp [hreceiver])]
  cases areLegalArguments env.host.classes m.parameterTypes objs <;> rfl

theorem pushReturned_some (obj : JavaObject) :
    pushReturned env (some obj) = LuaState.pushObjectValue env (some obj) := by
  cases obj <;> rfl

variable (env) in
theorem pushOne_run (obj : Option JavaObject) (w : World σ) : pushOne env obj w =
    match denial env.host obj with
    | some e => .error (deniedWith e) w
    | none => .ok 1 { w with lua := pushed w.lua obj } := by
  have hpush := pushObjectValue_run env obj w
  cases hdenial : denial env.host obj with
  | some e =>
    rw [hdenial] at hpush
    exact bind_of_error hpush
  | none =>
    rw [hdenial] at hpush
    exact bind_of_ok hpush

section Direct
variable {w₂ : World σ} {ret : Option JavaObject} {stop : Stop}

theorem invokeFound_returned (h : JLuaAPI.invoke env m o objs w = .ok ret w₂) :
    invokeFound env o (some (m, objs)) w =
      if m.returnType = .primitive .void then .ok 0 w₂ else pushOne env ret w₂ := by
  rw [invokeFound]
  apply (bind_of_ok (catching_of_ok h)).trans
  split <;> rfl

theorem invokeFound_threw {cause : Thrown}
    (h : JLuaAPI.invoke env m o objs w = .error (.throws (.invocationTargetException cause)) w₂) :
    invokeFound env o (some (m, objs)) w = .error (.throws cause) w₂ :=
  bind_of_error (catching_of_error h)

theorem invokeFound_passed (h : JLuaAPI.invoke env m o objs w = .error stop w₂)
    (hstop : env.isException stop = false) :
    invokeFound env o (some (m, objs)) w = .error stop w₂ :=
  bind_of_error (catching_of_other h hstop)

/-- What reflection rejects is wrapped. -/
theorem invokeFound_illegal (h : JLuaAPI.invoke env m o objs w =
      .error (.throws (illegalArgument "argument type mismatch")) w) :
    invokeFound env o (some (m, objs)) w = .error (.throws
      (.luaExceptionOf none (illegalArgument "argument type mismatch"))) w :=
  bind_of_error (catching_of_error h)

end Direct

section Registered
variable {r : RegisteredMethod} {w₂ : World σ} {ret : Option JavaObject} {stop : Stop}

theorem invokeRegistered_returned
    (h : invokeTarget env access r.method r.target objs w = .ok ret w₂) :
    invokeRegistered env access r objs w =
      if r.method.returnType = .primitive .void then .ok 0 w₂
      else if ret = none then .error (.throws nullPointer) w₂ else pushOne env ret w₂ := by
  rw [invokeRegistered]
  split
  · exact bind_of_ok (catching_of_ok (bind_of_ok h))
  · cases ret with
    | none =>
      have hthrow : pushReturned env none w₂ = .error (.throws nullPointer) w₂ := rfl
      exact bind_of_error (catching_of_error ((bind_of_ok h).trans hthrow))
    | some obj =>
      rw [if_neg (Option.some_ne_none obj)]
      have hpush := pushObjectValue_run env (some obj) w₂
      have hone := pushOne_run env (some obj) w₂
      rw [← pushReturned_some] at hpush
      cases hdenial : denial env.host (some obj) with
      | some e =>
        rw [hdenial] at hpush hone
        rw [hone]
        exact bind_of_error (catching_of_error ((bind_of_ok h).trans hpush))
      | none =>
        rw [hdenial] at hpush hone
        rw [hone]
        exact bind_of_ok (catching_of_ok ((bind_of_ok h).trans hpush))

theorem invokeRegistered_threw {cause : Thrown}
    (h : invokeTarget env access r.method r.target objs w =
      .error (.throws (.invocationTargetException cause)) w₂) :
    invokeRegistered env access r objs w = .error (.throws cause) w₂ :=
  bind_of_error (catching_of_error (bind_of_error h))

theorem invokeRegistered_passed
    (h : invokeTarget env access r.method r.target objs w = .error stop w₂)
    (hstop : isCaught stop = false) :
    invokeRegistered env access r objs w = .error stop w₂ :=
  bind_of_error (catching_of_other (bind_of_error h) hstop)

theorem invokeRegistered_refused {message : JString} (h : access r.method = some message) :
    invokeRegistered env access r objs w =
      .error (.throws (.luaException (some (accessText message)))) w := by
  have hrun : invokeTarget env access r.method r.target objs w =
      .error (.throws (illegalAccess message)) w := by
    simp only [invokeTarget, h]
    rfl
  exact bind_of_error (catching_of_error (bind_of_error hrun))

end Registered

/-! ### Whether they agree -/

theorem results_push {K : Stack} {v : Value} {w : World σ} (h : w.stack = K ++ [v]) :
    results w 1 = [v] := by
  rw [results, h, List.length_append, List.length_singleton, Nat.add_sub_cancel]
  exact List.drop_left

theorem results_zero (w : World σ) : results w 0 = [] := List.drop_length

variable (env) in
/-- A value that is pushed is the result, and otherwise the topmost value is. -/
theorem outcome_pushOne (ret : Option JavaObject) {K : Stack} {v : Value} {w : World σ}
    (hstack : w.stack = K ++ [v]) : outcome (pushOne env ret w) =
      match denial env.host ret with
      | some e => (.error (deniedWith e), w.heap)
      | none => (.ok [if isOwn w.peer ret then image w.lua ret else v],
          ⟨w.lua.registry, w.lua.userdata ++ if isOwn w.peer ret then held ret else [],
            w.rest⟩) := by
  rw [pushOne_run]
  cases denial env.host ret with
  | some e => rfl
  | none =>
    have hpushed : World.stack { w with lua := pushed w.lua ret } = w.stack ++ _ :=
      stack_pushed w.lua ret
    dsimp only [outcome]
    refine Prod.ext (congrArg Except.ok ?_) ?_
    · by_cases hown : isOwn w.peer ret
      · rw [if_pos hown]
        rw [if_pos (show isOwn w.lua.peer ret from hown)] at hpushed
        exact results_push hpushed
      · rw [if_neg hown]
        rw [if_neg (show ¬ isOwn w.lua.peer ret from hown), List.append_nil] at hpushed
        exact results_push (hpushed.trans hstack)
    · rw [World.heap, userdata_pushed, pushed_registry]
      rfl

theorem denial_message {host : Host} {obj : Option JavaObject} {e : LuaException}
    (h : denial host obj = some e) :
    ∃ text, e.message = "Permission denied: Cannot access " ++ text := by
  have hdenied : ∀ obj, denial.denied (checkJavaObj host obj) = some e →
      ∃ text, e.message = "Permission denied: Cannot access " ++ text := by
    intro obj hobj
    unfold checkJavaObj at hobj
    split at hobj
    all_goals try cases hobj
    cases hchecker : host.objectChecker with
    | none =>
      rw [hchecker] at hobj
      cases hobj
    | some check =>
      rw [hchecker] at hobj
      dsimp only at hobj
      split at hobj <;> cases hobj
      exact ⟨_, rfl⟩
  unfold denial at h
  split at h
  · exact hdenied _ h
  · exact hdenied _ h
  · cases h

theorem denial_ne_accessText {host : Host} {obj : Option JavaObject} {e : LuaException}
    (h : denial host obj = some e) (message : JString) :
    javaString e.message ≠ accessText message := by
  obtain ⟨text, he⟩ := denial_message h
  have hdenied : (javaString e.message).head? = some 0x50 := by
    rw [he, javaString, String.toList_append, List.flatMap_append, List.head?_append]
    rfl
  have hrefused : (accessText message).head? = some 0x49 := by
    rw [accessText, List.append_assoc, List.append_assoc, List.head?_append]
    rfl
  intro heq
  rw [heq, hrefused] at hdenied
  cases hdenied

theorem invoke_illegal (only : OnlyMethod env o m)
    (hlegal : areLegalArguments env.host.classes m.parameterTypes objs = false) (w : World σ) :
    JLuaAPI.invoke env m o objs w =
      .error (.throws (illegalArgument "argument type mismatch")) w := by
  rw [invoke_eq only, hlegal]
  rfl

/-- A refusal does not come from the direct call. -/
theorem direct_ne_refused (laws : Reflection env m access) (only : OnlyMethod env o m)
    {message : JString} (hrefused : access m = some message) (w : World σ) :
    (outcome (invokeFound env o (some (m, objs)) w)).1 ≠
      .error (.throws (.luaException (some (accessText message)))) := by
  cases hlegal : areLegalArguments env.host.classes m.parameterTypes objs with
  | false =>
    rw [invokeFound_illegal (invoke_illegal only hlegal w)]
    nofun
  | true =>
    have hinvoke := congrFun (invoke_eq only objs) w
    rw [hlegal, if_pos rfl] at hinvoke
    cases hrun : env.invoke m (receiver m o) objs w with
    | ok ret w₂ =>
      rw [invokeFound_returned (hinvoke.trans hrun)]
      split
      · nofun
      · rw [pushOne_run]
        cases hdenial : denial env.host ret with
        | none => nofun
        | some e =>
          intro h
          have hmessage := Thrown.luaException.inj (Stop.throws.inj (Except.error.inj h))
          exact denial_ne_accessText hdenial message (Option.some.inj hmessage)
    | error stop w₂ =>
      have hstop := hinvoke.trans hrun
      cases stop with
      | throws e =>
        rcases laws.throws _ _ _ _ _ hrun with ⟨cause, rfl⟩ | hpassed
        · rw [invokeFound_threw hstop]
          intro h
          have hcause := Stop.throws.inj (Except.error.inj h)
          exact laws.refusal message hrefused _ _ _ _ _ hrun hcause
        · rw [invokeFound_passed hstop hpassed]
          intro h
          rw [Except.error.inj h] at hpassed
          cases hpassed
      | raises v =>
        rw [invokeFound_passed hstop rfl]
        nofun
      | hangs =>
        rw [invokeFound_passed hstop rfl]
        nofun

section Agree
variable {r : RegisteredMethod} {u f : Value}

/-- Both invocations are those of reflection. -/
theorem invokeTarget_eq (haccess : access m = none) :
    invokeTarget env access m (some o) objs = JLuaAPI.invoke env m o objs := by
  simp only [invokeTarget, haccess]

theorem getLast_frame (u : Value) (args : List Value) : ∃ K v, u :: args = K ++ [v] ∧
    (u :: args).getLast? = some v := by
  obtain ⟨K, v, hsplit⟩ := List.eq_nil_or_concat (u :: args) |>.resolve_left nofun
  refine ⟨K, v, by rw [hsplit, List.concat_eq_append], ?_⟩
  rw [hsplit, List.concat_eq_append, List.getLast?_append]
  rfl

theorem own_of_denial {host : Host} {peer : Nat} {obj : Option JavaObject} {e : LuaException}
    (h : denial host obj = some e) : Own peer obj := by
  rintro L ref rfl
  cases h

/-- An object that is pushed above two stacks gives the same result exactly if it is pushed here,
or the values on top are the same. -/
theorem outcome_pushOne_iff {w₂ : World σ} (obj : JavaObject) :
    outcome (pushOne env (some obj) (w₂.setStack (u :: args))) =
        outcome (pushOne env (some obj) (w₂.setStack [f])) ↔
      Own w₂.peer (some obj) ∨ (u :: args).getLast? = some f := by
  obtain ⟨K, v, hsplit, hlast⟩ := getLast_frame u args
  have hdirect := outcome_pushOne env (w := w₂.setStack (u :: args)) (some obj) hsplit
  have hregistered := outcome_pushOne env (w := w₂.setStack [f]) (K := []) (some obj) rfl
  rw [hdirect, hlast, hregistered]
  cases hdenial : denial env.host (some obj) with
  | some e => exact iff_of_true rfl (.inl (own_of_denial hdenial))
  | none =>
    dsimp only
    by_cases hown : isOwn w₂.peer (some obj)
    · refine iff_of_true ?_ (.inl (isOwn_iff.mp hown))
      have hvalue : ∀ (u : Value) L, (if isOwn (w₂.setStack L).peer (some obj) then
          image (w₂.setStack L).lua (some obj) else u) = image w₂.lua (some obj) :=
        fun u L => if_pos hown
      rw [hvalue, hvalue]
      rfl
    · have hvalue : ∀ (u : Value) L, (if isOwn (w₂.setStack L).peer (some obj) then
          image (w₂.setStack L).lua (some obj) else u) = u := fun u L => if_neg hown
      have hnot : ¬ Own w₂.peer (some obj) := fun h => hown (isOwn_iff.mpr h)
      rw [hvalue, hvalue, or_iff_right hnot]
      constructor
      · intro h
        have hvalues := Except.ok.inj (congrArg Prod.fst h)
        exact congrArg some (List.cons.inj hvalues).1
      · intro h
        rw [Option.some.inj h]
        rfl

/-- The values that both calls return, when the method returns and nothing refuses it. -/
theorem returned_iff (laws : Reflection env m access) (only : OnlyMethod env o m)
    (hmethod : r.method = m) (htarget : r.target = some o) (haccess : access m = none)
    (hlegal : areLegalArguments env.host.classes m.parameterTypes objs = true) {w₂ : World σ}
    {ret : Option JavaObject} (hrun : env.invoke m (receiver m o) objs w₁ = .ok ret w₂) :
    outcome (invokeFound env o (some (m, objs)) (w₁.setStack (u :: args))) =
        outcome (invokeRegistered env access r objs (w₁.setStack [f])) ↔
      (m.returnType ≠ .primitive .void → ret ≠ none ∧
        (Own w₂.peer ret ∨ (u :: args).getLast? = some f)) := by
  subst hmethod
  have hinvoke : ∀ L, JLuaAPI.invoke env r.method o objs (w₁.setStack L) =
      .ok ret (w₂.setStack L) := by
    intro L
    rw [invoke_eq only, if_pos hlegal]
    exact (laws.blind _ _).portable _ _ _ L hrun
  have htargeted : invokeTarget env access r.method r.target objs (w₁.setStack [f]) =
      .ok ret (w₂.setStack [f]) := by
    rw [htarget, invokeTarget_eq haccess]
    exact hinvoke [f]
  rw [invokeFound_returned (hinvoke _), invokeRegistered_returned htargeted]
  by_cases hvoid : r.method.returnType = .primitive .void
  · rw [if_pos hvoid, if_pos hvoid]
    refine iff_of_true ?_ fun hne => absurd hvoid hne
    rw [outcome, outcome, results_zero, results_zero]
    rfl
  · rw [if_neg hvoid, if_neg hvoid]
    cases ret with
    | none =>
      rw [if_pos rfl]
      refine iff_of_false (fun h => ?_) fun h => (h hvoid).1 rfl
      obtain ⟨K, v, hsplit, _⟩ := getLast_frame u args
      rw [outcome_pushOne env (w := w₂.setStack (u :: args)) none hsplit] at h
      cases congrArg Prod.fst h
    | some obj =>
      rw [if_neg (Option.some_ne_none obj), outcome_pushOne_iff]
      constructor
      · intro h _
        exact ⟨nofun, h⟩
      · intro h
        exact (h hvoid).2

/-- An exception of the method is the same either way. -/
theorem stopped_agree (laws : Reflection env m access) (only : OnlyMethod env o m)
    (hmethod : r.method = m) (htarget : r.target = some o) (haccess : access m = none)
    (hlegal : areLegalArguments env.host.classes m.parameterTypes objs = true) {w₂ : World σ}
    {stop : Stop} (hrun : env.invoke m (receiver m o) objs w₁ = .error stop w₂) :
    outcome (invokeFound env o (some (m, objs)) (w₁.setStack (u :: args))) =
      outcome (invokeRegistered env access r objs (w₁.setStack [f])) := by
  subst hmethod
  have hinvoke : ∀ L, JLuaAPI.invoke env r.method o objs (w₁.setStack L) =
      .error stop (w₂.setStack L) := by
    intro L
    rw [invoke_eq only, if_pos hlegal, laws.blind _ _ w₁ L, hrun]
    rfl
  have htargeted : invokeTarget env access r.method r.target objs (w₁.setStack [f]) =
      .error stop (w₂.setStack [f]) := by
    rw [htarget, invokeTarget_eq haccess]
    exact hinvoke [f]
  have hpassed (h : env.isException stop = false) (h' : isCaught stop = false) :
      outcome (invokeFound env o (some (r.method, objs)) (w₁.setStack (u :: args))) =
        outcome (invokeRegistered env access r objs (w₁.setStack [f])) := by
    rw [invokeFound_passed (hinvoke _) h, invokeRegistered_passed htargeted h']
    rfl
  cases stop with
  | raises v => exact hpassed rfl rfl
  | hangs => exact hpassed rfl rfl
  | throws e =>
    rcases laws.throws _ _ _ _ _ hrun with ⟨cause, rfl⟩ | h
    · rw [invokeFound_threw (hinvoke _), invokeRegistered_threw htargeted]
      rfl
    · refine hpassed h ?_
      cases e with
      | throwable obj => rfl
      | _ => cases h

/-- What reflection rejects is wrapped by the direct call alone. -/
theorem illegal_disagree (only : OnlyMethod env o m) (hmethod : r.method = m)
    (htarget : r.target = some o) (haccess : access m = none)
    (hlegal : areLegalArguments env.host.classes m.parameterTypes objs = false)
    (w w' : World σ) : outcome (invokeFound env o (some (m, objs)) w) ≠
      outcome (invokeRegistered env access r objs w') := by
  subst hmethod
  have htargeted : invokeTarget env access r.method r.target objs w' =
      .error (.throws (illegalArgument "argument type mismatch")) w' := by
    rw [htarget, invokeTarget_eq haccess]
    exact invoke_illegal only hlegal w'
  rw [invokeFound_illegal (invoke_illegal only hlegal w), invokeRegistered_passed htargeted rfl]
  intro h
  cases congrArg Prod.fst h

/-- The two calls of a method agree exactly if reflection lets both of them through and what comes
back is neither `null` nor a `LuaObject` of another state. -/
theorem calls_agree_iff (laws : Reflection env m access) (only : OnlyMethod env o m)
    (hr : RegisteredMethods.getMethod env o m.name m.parameterTypes = some r)
    (hconv : Conversions env m.parameterTypes args (w.setStack args) objs w₁) :
    outcome (objectIndex env o m.name (w.setStack (u :: args))) =
        outcome (execute env access r (w.setStack (f :: args))) ↔
      Agreeable env o m access args objs w₁ u f := by
  obtain ⟨hmethod, htarget, htypes⟩ := registered_of_only only hr
  have hdirect : objectIndex env o m.name (w.setStack (u :: args)) =
      invokeFound env o (some (m, objs)) (w₁.setStack (u :: args)) :=
    objectIndex_run only (conversions_portable laws.forName hconv
      fun v hv => List.mem_cons_of_mem u hv)
  have hregistered : execute env access r (w.setStack (f :: args)) =
      invokeRegistered env access r objs (w₁.setStack [f]) := by
    have hlength := length_of_conversions hconv
    have hframe : Conversions env m.parameterTypes args (callWorld [] f args w) objs
        (w₁.setStack (f :: args)) :=
      conversions_portable laws.forName hconv fun v hv => List.mem_cons_of_mem f hv
    rw [← htypes] at hlength hframe
    exact (aritySafe_of_enough hlength.ge).exact hlength objs (w₁.setStack (f :: args)) hframe
  rw [hdirect, hregistered]
  cases haccess : access m with
  | some message =>
    rw [← hmethod] at haccess
    rw [invokeRegistered_refused haccess]
    rw [hmethod] at haccess
    refine iff_of_false (fun h => ?_) fun h => ?_
    · exact direct_ne_refused laws only haccess _ (congrArg Prod.fst h)
    · cases haccess.symm.trans h.accessible
  | none =>
    cases hlegal : areLegalArguments env.host.classes m.parameterTypes objs with
    | false =>
      refine iff_of_false (illegal_disagree only hmethod htarget haccess hlegal _ _) fun h => ?_
      cases hlegal.symm.trans h.legal
    | true =>
      cases hrun : env.invoke m (receiver m o) objs w₁ with
      | error stop w₂ =>
        refine iff_of_true (stopped_agree laws only hmethod htarget haccess hlegal hrun) ?_
        refine ⟨haccess, hlegal, fun _ ret w' h => ?_⟩
        cases hrun.symm.trans h
      | ok ret w₂ =>
        refine (returned_iff laws only hmethod htarget haccess hlegal hrun).trans ?_
        constructor
        · intro h
          refine ⟨haccess, hlegal, fun hvoid ret' w' h' => ?_⟩
          cases hrun.symm.trans h'
          exact h hvoid
        · exact fun h hvoid => h.result hvoid ret w₂ hrun

end Agree

/-! ### A method that returns null -/

/-- A method with one parameter of the class `Object`. -/
def unary (returnType : JavaClass) : Method := ⟨"m", [.object], returnType, .declared 1, false⟩

def unaryEnv (returnType : JavaClass) : Env Unit :=
  .plain .plain fun c => if c = .declared 1 then [unary returnType] else []

/-- Userdata 0 is the object, and userdata 1 the function made for its method. -/
def callsWorld : World Unit :=
  ⟨⟨1, [], ⟨fun _ => .nil, 0⟩, [.java (.object 1 0), .java (.javaFunction 5 0)]⟩, ()⟩

def unaryMethod (returnType : JavaClass) : RegisteredMethod :=
  ⟨unary returnType, some (.object 1 0), [.object], rfl⟩

theorem blind_plain_forName (name : JString) (methods : JavaClass → List Method) :
    Blind ((Env.plain .plain methods).forName name) := by
  intro w L
  cases hname : interfaceNamed name <;> simp [Env.plain, hname] <;> rfl

theorem reflection_plain (methods : JavaClass → List Method) (m : Method) :
    Reflection (Env.plain .plain methods) m fun _ => none where
  forName name := blind_plain_forName name methods
  blind _ _ _ _ := rfl
  throws _ _ _ _ _ h := by cases h
  refusal _ h := by cases h

theorem onlyMethod_unary (returnType : JavaClass) :
    OnlyMethod (unaryEnv returnType) (.object 1 0) (unary returnType) where
  candidates := by
    have hmethods : (unaryEnv returnType).getMethods (.declared 1) = [unary returnType] := by
      simp [unaryEnv, Env.plain, unary, ClassTable.isAssignableFrom]
    have hclass : JavaObject.getClass (.object 1 0) = .declared 1 := rfl
    rw [hclass, hmethods]
    simp [methodCandidates, unary]
  denoted := nofun

theorem calls_agree_iff_void :
    outcome (objectIndex (unaryEnv (.primitive .void)) (.object 1 0) "m"
        (callsWorld.setStack [.userdata 0, .boolean true])) =
      outcome (execute (unaryEnv (.primitive .void)) (fun _ => none)
        (unaryMethod (.primitive .void)) (callsWorld.setStack [.userdata 1, .boolean true])) :=
  have hconv : Conversions (unaryEnv (.primitive .void)) [.object] [.boolean true]
      (callsWorld.setStack [.boolean true]) [some (.boolean true)]
      (callsWorld.setStack [.boolean true]) :=
    @Conversions.cons _ _ _ _ _ _ 1 _ _ _ _ _ rfl rfl (.nil _)
  (calls_agree_iff (w := callsWorld) (reflection_plain _ _) (onlyMethod_unary (.primitive .void))
    (r := unaryMethod (.primitive .void)) rfl hconv).mpr ⟨rfl, rfl, fun h => absurd rfl h⟩

/-- The direct call gives `nil` for `null`, and the other one throws. -/
theorem null_result_disagrees :
    RegisteredMethods.getMethod (unaryEnv .object) (.object 1 0) "m" [.object] =
      some (unaryMethod .object) ∧
    (outcome (objectIndex (unaryEnv .object) (.object 1 0) "m"
      (callsWorld.setStack [.userdata 0, .boolean true]))).1 = .ok [.nil] ∧
    (outcome (execute (unaryEnv .object) (fun _ => none) (unaryMethod .object)
      (callsWorld.setStack [.userdata 1, .boolean true]))).1 = .error (.throws nullPointer) := by
  refine ⟨rfl, rfl, rfl⟩

end JLua.DirectCalls
