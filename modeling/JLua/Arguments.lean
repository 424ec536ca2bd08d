import JLua.StackDiscipline

/-!
# The arguments that compareTypes makes

Reflection takes what `compareTypes` returns, unless it returns `null` for a parameter of
primitive type, which it does for nil.
-/

namespace JLua.Arguments

open BinaryFloat Conversion JLuaAPI OutcomeRules StackDiscipline
set_option autoImplicit false

section Classes
variable {C : ClassTable} {parameter c : JavaClass}

theorem isLegalArgument_reference (h : ¬ parameter.isPrimitive) (obj : JavaObject) :
    isLegalArgument C parameter (some obj) = C.isAssignableFrom parameter obj.getClass := by
  cases parameter with
  | primitive => exact absurd rfl h
  | _ => rfl

theorem isLegalArgument_null : isLegalArgument C parameter none = !parameter.isPrimitive := by
  cases parameter <;> rfl

theorem getClass_not_primitive (obj : JavaObject) : ¬ obj.getClass.isPrimitive := by
  cases obj <;> simp [JavaObject.getClass, JavaClass.isPrimitive]

theorem not_mem_supers (hC : ∀ id p, .primitive p ∉ C.supertypes id) (c : JavaClass)
    (p : Primitive) : .primitive p ∉ C.supers c := by
  cases c with
  | declared id => exact hC id p
  | boxed q => cases q <;> simp [ClassTable.supers]
  | _ => simp [ClassTable.supers]

theorem not_isPrimitive_of_assignable (hC : ∀ id p, .primitive p ∉ C.supertypes id)
    (hc : ¬ c.isPrimitive) (h : C.isAssignableFrom parameter c) : ¬ parameter.isPrimitive := by
  intro hp
  cases parameter with
  | primitive p =>
    rw [ClassTable.isAssignableFrom, Bool.or_eq_true, decide_eq_true_eq,
      List.contains_iff_mem] at h
    rcases h with rfl | h
    · exact hc hp
    · exact not_mem_supers hC c p h
  | _ => cases hp

theorem isLegalArgument_of_assignable (hC : ∀ id p, .primitive p ∉ C.supertypes id)
    {obj : JavaObject} (h : C.isAssignableFrom parameter obj.getClass) :
    isLegalArgument C parameter (some obj) := by
  rwa [isLegalArgument_reference
    (not_isPrimitive_of_assignable hC (getClass_not_primitive obj) h)]

/-- The branches of `convertLuaNumber` test the very class that they convert to. -/
theorem isLegalArgument_of_convertLuaNumber {x : Double} {obj : JavaObject}
    (h : convertLuaNumber C x parameter = some obj) :
    isLegalArgument C parameter (some obj) := by
  unfold convertLuaNumber at h
  by_cases hp : parameter.isPrimitive
  · rw [if_pos hp] at h
    repeat' split at h
    all_goals cases h
    all_goals simp_all [isLegalArgument, JavaObject.unboxed, Primitive.widensTo]
  · rw [if_neg hp] at h
    rw [isLegalArgument_reference hp]
    repeat' split at h
    all_goals cases h
    all_goals assumption

end Classes

/-- What a conversion returns: `null` for nil, and otherwise an object that reflection takes. -/
def Converted (C : ClassTable) (parameter : JavaClass) (v : Option Value)
    (o : Option JavaObject) : Prop :=
  match o with
  | none => v = some .nil
  | some obj => v ≠ some .nil ∧ isLegalArgument C parameter (some obj)

theorem Converted.isLegalArgument_iff {C : ClassTable} {parameter : JavaClass} {v : Option Value}
    {o : Option JavaObject} (h : Converted C parameter v o) :
    isLegalArgument C parameter o ↔ ¬ (parameter.isPrimitive ∧ v = some .nil) := by
  cases o with
  | none =>
    have hnil : v = some .nil := h
    simp [isLegalArgument_null, hnil]
  | some obj => exact iff_of_true h.2 fun hp => h.1 hp.2

section Host
variable {host : Host} {L L' : State} {parameter : JavaClass} {v : Value} {o : Option JavaObject}

/-- The test that most types of values end with. -/
theorem converted_of_assignable (obj : JavaObject) {e : LuaException}
    (hC : ∀ id p, .primitive p ∉ host.classes.supertypes id) (hv : v ≠ .nil)
    (h : (if host.classes.isAssignableFrom parameter obj.getClass then .ok (some obj, L)
      else .error e) = Except.ok (o, L')) : Converted host.classes parameter (some v) o := by
  split at h
  · next ha =>
    cases h
    exact ⟨by simpa using hv, isLegalArgument_of_assignable hC ha⟩
  · cases h

theorem converted_of_compareLuaObject (hC : ∀ id p, .primitive p ∉ host.classes.supertypes id)
    (hv : v ≠ .nil) (h : compareLuaObject host L parameter v = .ok (o, L')) :
    Converted host.classes parameter (some v) o :=
  converted_of_assignable (getLuaObject L v).1 hC hv h

theorem converted_of_compareTypes {idx : Int}
    (hC : ∀ id p, .primitive p ∉ host.classes.supertypes id)
    (hproxy : ∀ a, index2adr L.stack idx = some (.table a) →
      ¬ host.classes.isInterface parameter)
    (h : Conversion.compareTypes host L parameter idx = .ok (o, L')) :
    Converted host.classes parameter (index2adr L.stack idx) o := by
  unfold Conversion.compareTypes at h
  cases hv : index2adr L.stack idx with
  | none => rw [hv] at h; cases h
  | some v =>
    rw [hv] at h
    cases v with
    | nil => cases h; rfl
    | boolean b =>
      dsimp only at h
      by_cases hp : parameter.isPrimitive
      · simp only [if_pos hp] at h
        split at h
        · next hb =>
          cases h
          subst hb
          exact ⟨by simp, rfl⟩
        · cases h
      · simp only [if_neg hp] at h
        exact converted_of_assignable (.boolean b) hC (by simp) h
    | string bytes =>
      dsimp only at h
      split at h
      · next hp =>
        cases h
        subst hp
        exact ⟨by simp, isLegalArgument_of_assignable hC (ClassTable.isAssignableFrom_self _ _)⟩
      · split at h
        · next hchar =>
          obtain ⟨rfl, hlength⟩ := hchar
          obtain ⟨u, hu⟩ := List.length_eq_one_iff.mp hlength
          rw [hu] at h
          cases h
          exact ⟨by simp, rfl⟩
        · exact converted_of_assignable (.string _) hC (by simp) h
    | table a =>
      dsimp only at h
      rw [if_neg (hproxy a hv)] at h
      exact converted_of_compareLuaObject hC (by simp) h
    | number x =>
      dsimp only at h
      split at h
      · next obj hx =>
        cases h
        exact ⟨by simp, isLegalArgument_of_convertLuaNumber hx⟩
      · cases h
    | userdata a =>
      dsimp only at h
      split at h
      · exact converted_of_assignable _ hC (by simp) h
      · exact converted_of_compareLuaObject hC (by simp) h
    | function a => exact converted_of_compareLuaObject hC (by simp) h
    | lightuserdata p => exact converted_of_compareLuaObject hC (by simp) h
    | thread a => cases h

end Host

/-! ### Proxies -/

section Env
variable {σ : Type} (env : Env σ)

theorem tokens_of_proper {name : JString} (h : name ≠ [] ∧ 0x2C ∉ name) :
    LuaObject.tokens name = [name] := by
  rw [LuaObject.tokens, List.splitOn_eq_singleton h.2]
  simp [h.1]

theorem returns_findInterfaces {c : JavaClass} (o : LuaObject)
    (hc : env.host.classes.isInterface c) :
    Returns (LuaObject.findInterfaces env o [env.getName c]) (· = [c]) := by
  unfold LuaObject.findInterfaces
  refine Returns.bind (P := (· = c)) (env.forName_getName c · hc) fun c' hc' => ?_
  subst hc'
  exact returns_bind fun _ => returns_pure rfl

theorem returns_createProxy {c : JavaClass} (o : LuaObject)
    (hc : env.host.classes.isInterface c) : Returns (o.createProxy env (env.getName c))
      fun obj => env.host.classes.isAssignableFrom c obj.getClass := by
  unfold LuaObject.createProxy
  rw [tokens_of_proper (env.getName_proper c hc)]
  refine returns_bind fun table => ?_
  split
  · exact returns_throw _ _
  · refine (returns_findInterfaces env o hc).bind fun interfaces hi => ?_
    subst hi
    intro w
    rw [ends_library]
    refine ⟨fun obj s' hs' => ?_, fun _ _ _ => trivial⟩
    exact env.proxy_implements [c] o.ref w.rest obj s' hs' c (List.mem_singleton_self c)

/-! ### compareTypes -/

theorem ends_compareTypes (parameter : JavaClass) (idx : Int) (w : World σ) :
    Ends (JLuaAPI.compareTypes env parameter idx) w
      (fun o _ => Converted env.host.classes parameter (index2adr w.stack idx) o)
      fun _ _ => True := by
  unfold JLuaAPI.compareTypes
  simp only [ends_bind, ends_get]
  split
  · next a ha =>
    split
    · next hi =>
      rw [ends_bind]
      refine (returns_true _ w).mono (fun o w' _ => ?_) fun _ _ _ => trivial
      refine ((returns_createProxy env o hi).map ?_).catching (fun _ => ?_) w'
      · intro obj hobj
        exact ⟨by simp [ha], isLegalArgument_of_assignable env.supertypes_reference hobj⟩
      · exact returns_throw _ _
    · rw [ha]
      refine LuaState.ends_liftState.mpr ⟨fun o L h => ?_, fun _ _ => trivial⟩
      exact converted_of_compareLuaObject env.supertypes_reference (by simp) h
  · next hv =>
    refine LuaState.ends_liftState.mpr ⟨fun o L h => ?_, fun _ _ => trivial⟩
    exact converted_of_compareTypes env.supertypes_reference (fun a ha => absurd ha (hv a)) h

theorem compareTypes_nil {parameter : JavaClass} {idx : Int} {w : World σ}
    (h : index2adr w.stack idx = some .nil) :
    JLuaAPI.compareTypes env parameter idx w = .ok none w := by
  have hpure : Conversion.compareTypes env.host w.lua parameter idx = .ok (none, w.lua) := by
    rw [Conversion.compareTypes, show index2adr w.lua.stack idx = some .nil from h]
  rw [JLuaAPI.compareTypes, get_bind, h]
  change LuaState.liftState _ w = _
  rw [LuaState.liftState, hpure]

def SoundAt (parameter : JavaClass) (idx : Int) (w : World σ) : Prop :=
  ∀ o w', JLuaAPI.compareTypes env parameter idx w = .ok o w' →
    isLegalArgument env.host.classes parameter o

theorem soundAt_iff (parameter : JavaClass) (idx : Int) (w : World σ) :
    SoundAt env parameter idx w ↔
      ¬ (parameter.isPrimitive ∧ index2adr w.stack idx = some .nil) := by
  constructor
  · rintro hsound ⟨hp, hnil⟩
    have hlegal := hsound none w (compareTypes_nil env hnil)
    rw [isLegalArgument_null, hp] at hlegal
    cases hlegal
  · intro hnot o w' h
    exact ((ends_iff.mp (ends_compareTypes env parameter idx w)).1 o w' h).isLegalArgument_iff.mpr
      hnot

/-! ### Overloads -/

/-- A primitive parameter meets nil, the parameters being those of the slots from `j` on. -/
def NilForPrimitive (L : Stack) (parameters : List JavaClass) (j : Int) : Prop :=
  ∃ (i : Nat) (parameter : JavaClass), parameters[i]? = some parameter ∧ parameter.isPrimitive ∧
    index2adr L (j + i) = some .nil

theorem not_nilForPrimitive_nil (L : Stack) (j : Int) : ¬ NilForPrimitive L [] j := by
  simp [NilForPrimitive]

theorem nilForPrimitive_cons {L : Stack} {parameter : JavaClass} {parameters : List JavaClass}
    {j : Int} : NilForPrimitive L (parameter :: parameters) j ↔
      (parameter.isPrimitive ∧ index2adr L j = some .nil) ∨
        NilForPrimitive L parameters (j + 1) := by
  constructor
  · rintro ⟨i, p, hp, hnil⟩
    cases i with
    | zero =>
      cases hp
      exact Or.inl (by simpa using hnil)
    | succ i =>
      refine Or.inr ⟨i, p, hp, ?_⟩
      rwa [show j + 1 + (i : Int) = j + (i + 1 : Nat) by omega]
  · rintro (hnil | ⟨i, p, hp, hnil⟩)
    · exact ⟨0, parameter, rfl, by simpa using hnil⟩
    · refine ⟨i + 1, p, hp, ?_⟩
      rwa [show j + ((i + 1 : Nat) : Int) = j + 1 + i by omega]

theorem areLegalArguments_cons {C : ClassTable} {parameter : JavaClass}
    {parameters : List JavaClass} {o : Option JavaObject} {objs : List (Option JavaObject)} :
    areLegalArguments C (parameter :: parameters) (o :: objs) ↔
      isLegalArgument C parameter o ∧ areLegalArguments C parameters objs := by
  simp only [areLegalArguments, List.length_cons, List.zip_cons_cons, List.all_cons,
    Bool.and_eq_true, decide_eq_true_eq, Nat.add_right_cancel_iff]
  exact and_left_comm

theorem ends_convertArguments (parameters : List JavaClass) (j : Int) (w : World σ) :
    Ends (convertArguments env parameters j) w
      (fun objs _ => areLegalArguments env.host.classes parameters objs ↔
        ¬ NilForPrimitive w.stack parameters j) fun _ _ => True := by
  induction parameters generalizing j w with
  | nil => exact iff_of_true rfl (not_nilForPrimitive_nil _ _)
  | cons parameter parameters ih =>
    unfold convertArguments
    rw [ends_bind]
    refine ((ends_compareTypes env parameter j w).and (neutral_compareTypes parameter j w)).mono
      (fun o w₁ ho => ?_) fun _ _ _ => trivial
    rw [ends_bind]
    refine (ih (j + 1) w₁).mono (fun objs _ hobjs => ?_) fun _ _ => id
    rw [ends_pure, areLegalArguments_cons, nilForPrimitive_cons, not_or,
      ho.1.isLegalArgument_iff, hobjs, ho.2.1]

theorem ends_tryArguments (parameters : List JavaClass) (w : World σ) :
    Ends (tryArguments env parameters) w
      (fun tried w' => Same w w' ∧ ∀ objs, tried = some objs →
        (areLegalArguments env.host.classes parameters objs ↔
          ¬ NilForPrimitive w.stack parameters 2)) fun _ _ => True := by
  unfold tryArguments
  rw [ends_catching, ends_map]
  refine ((ends_convertArguments env parameters 2 w).and
    (neutral_convertArguments parameters 2 w)).mono (fun objs w' h => ⟨h.2, ?_⟩)
    fun stop w' h => ?_
  · rintro _ ⟨⟩
    exact h.1
  · split
    · next hk => exact ⟨h.2 (isException_throws hk), by simp⟩
    · trivial

/-- The candidates that were tried before leave the arguments on the stack as they are. -/
theorem ends_firstAccepting {M : Type} (parameterTypes : M → List JavaClass) (candidates : List M)
    (w : World σ) : Ends (firstAccepting env parameterTypes candidates) w
      (fun found _ => ∀ c objs, found = some (c, objs) →
        (areLegalArguments env.host.classes (parameterTypes c) objs ↔
          ¬ NilForPrimitive w.stack (parameterTypes c) 2)) fun _ _ => True := by
  induction candidates generalizing w with
  | nil => simp [firstAccepting]
  | cons candidate candidates ih =>
    unfold firstAccepting
    rw [ends_bind]
    refine (ends_tryArguments env (parameterTypes candidate) w).mono (fun tried w₁ h => ?_)
      fun _ _ => id
    cases tried with
    | none =>
      have hrest := ih w₁
      rwa [h.1.1] at hrest
    | some objs =>
      rintro _ _ ⟨⟩
      exact h.2 objs rfl

/-- Everything that `compareTypes` returns is legal but for nil as a primitive value, and
reflection takes the arguments of the overload that was found unless one of its primitive
parameters meets nil. -/
theorem reflection_accepts_iff :
    (∀ parameter idx w, SoundAt env parameter idx w ↔
      ¬ (parameter.isPrimitive ∧ index2adr w.stack idx = some .nil)) ∧
    (∀ clazz methodName top w m objs w',
      getMethod env clazz methodName top w = .ok (some (m, objs)) w' →
        (areLegalArguments env.host.classes m.parameterTypes objs ↔
          ¬ NilForPrimitive w.stack m.parameterTypes 2)) ∧
    ∀ clazz top w c objs w', firstAccepting env Constructor.parameterTypes
        (constructorCandidates (env.getConstructors clazz) top) w = .ok (some (c, objs)) w' →
      (areLegalArguments env.host.classes c.parameterTypes objs ↔
        ¬ NilForPrimitive w.stack c.parameterTypes 2) := by
  refine ⟨soundAt_iff env, fun clazz methodName top w m objs w' h => ?_,
    fun clazz top w c objs w' h => ?_⟩
  · exact (ends_iff.mp (ends_firstAccepting env _ _ w)).1 _ w' h m objs rfl
  · exact (ends_iff.mp (ends_firstAccepting env _ _ w)).1 _ w' h c objs rfl

end Env

/-- A method `f(int)` of the class `.declared 1`. -/
def intMethod : Method :=
  ⟨javaString "f", [.primitive .int], .primitive .void, .declared 1, false⟩

def demoEnv : Env Unit := .plain .plain fun _ => [intMethod]

/-- The stack of the call `obj:f(v)`. -/
def demoWorld (v : Value) : World Unit :=
  ⟨⟨1, [.userdata 0, v], ⟨fun _ => .nil, 0⟩, [.java (.object 1 0)]⟩, ()⟩

theorem reflection_accepts_iff_number :
    SoundAt demoEnv (.primitive .int) 2 (demoWorld (.number (.ofInt _ 1))) ∧
      areLegalArguments demoEnv.host.classes intMethod.parameterTypes
        [some (.integer (intValue (.ofInt _ 1)))] := by
  have hnil : ¬ NilForPrimitive (demoWorld (.number (.ofInt _ 1))).stack intMethod.parameterTypes
      2 := by
    rw [intMethod, nilForPrimitive_cons, not_or]
    exact ⟨by simp [demoWorld, index2adr, absIndex, World.stack], not_nilForPrimitive_nil _ _⟩
  refine ⟨((reflection_accepts_iff demoEnv).1 _ _ _).mpr ?_, ?_⟩
  · simp [demoWorld, index2adr, absIndex, World.stack]
  · exact ((reflection_accepts_iff demoEnv).2.1 (.declared 1) (javaString "f") 2 _ intMethod _
      (demoWorld (.number (.ofInt _ 1))) rfl).mpr hnil

/-- With nil, `f(int)` is found, and reflection rejects the `null` that it is to be given. -/
theorem nil_converted_for_int :
    ¬ SoundAt demoEnv (.primitive .int) 2 (demoWorld .nil) ∧
      ∃ w', getMethod demoEnv (.declared 1) (javaString "f") 2 (demoWorld .nil) =
          .ok (some (intMethod, [none])) w' ∧
        areLegalArguments demoEnv.host.classes intMethod.parameterTypes [none] = false := by
  refine ⟨fun h => ?_, demoWorld .nil, rfl, rfl⟩
  cases h none (demoWorld .nil) rfl

end JLua.Arguments
