import JLua.Arguments
import JLua.Native
import JLua.TableFields

/-!
# Fields of Java objects

A script writes a field through one callback and reads it through another one. The first looks for
fields only; the second looks for packages, the length of an array and declared classes before it
looks for a field.
-/

namespace JLua.FieldAccess

open Arguments Conversion JLuaAPI Native OutcomeRules Pushing TableFields
set_option autoImplicit false

variable {σ : Type}

/-! ### Fields in the heap -/

/-- What the fields of the Java heap contain. A static field has no holder; a field of a class that
is not public is not accessible. -/
structure Fields (σ : Type) where
  isStatic : Field → Bool
  isFinal : Field → Bool
  isAccessible : Field → Bool
  value : σ → Field → Option JavaObject → Option JavaObject
  assign : σ → Field → Option JavaObject → Option JavaObject → σ

def Fields.holder (F : Fields σ) (f : Field) (o : JavaObject) : Option JavaObject :=
  if F.isStatic f then none else some o

/-- A value that a field of the type keeps as it is: a field of a primitive type would widen a box
of another one. -/
def IsExactly : JavaClass → Option JavaObject → Prop
  | .primitive p, some obj => obj.unboxed = some p
  | .primitive _, none => False
  | _, _ => True

/-- `java.lang.reflect.Field` on these fields. Neither `Class` nor `JavaPackage` nor an array class
has public fields. -/
structure Reflects (env : Env σ) (F : Fields σ) : Prop where
  getField_package : ∀ name, env.getField .javaPackage name = none
  getField_array : ∀ c name, env.getField (.array c) name = none
  getField_class : ∀ name, env.getField env.javaLangClass name = none
  fieldSet : ∀ o name f x w, env.getField o.getClass name = some f → F.isAccessible f →
    F.isFinal f = false → isLegalArgument env.host.classes f.type x → IsExactly f.type x →
      env.fieldSet f o x w = .ok () { w with rest := F.assign w.rest f (F.holder f o) x }
  fieldGet : ∀ o name f w, env.getField o.getClass name = some f → F.isAccessible f →
    env.fieldGet f o w = .ok (F.value w.rest f (F.holder f o)) w
  value_assign : ∀ s f r x f' r',
    F.value (F.assign s f r x) f' r' = if f' = f ∧ r' = r then x else F.value s f' r'

/-! ### What a conversion gives and changes -/

section Conversion
variable {env : Env σ} {type : JavaClass} {idx : Int} {v : Value} {w w₁ : World σ}
  {x : Option JavaObject}

theorem unboxed_of_convertLuaNumber {C : ClassTable} {n : Double} {p : Primitive}
    {obj : JavaObject} (h : convertLuaNumber C n (.primitive p) = some obj) :
    obj.unboxed = some p := by
  unfold convertLuaNumber at h
  rw [if_pos (show (JavaClass.primitive p).isPrimitive = true from rfl)] at h
  repeat' split at h
  all_goals cases h
  all_goals simp_all [JavaObject.unboxed]

theorem not_assignable_to_primitive (env : Env σ) (p : Primitive) {c : JavaClass}
    (hc : ¬ c.isPrimitive) : ¬ env.host.classes.isAssignableFrom (.primitive p) c := fun h =>
  not_isPrimitive_of_assignable env.supertypes_reference hc h rfl

theorem compareLuaObject_primitive (env : Env σ) (L : State) (p : Primitive) (v : Value) :
    compareLuaObject env.host L (.primitive p) v = .error invalidParameter :=
  if_neg (not_assignable_to_primitive env p (c := .luaObject) nofun)

theorem unboxed_of_conversion {L L' : State} {p : Primitive} {obj : JavaObject}
    (h : Conversion.compareTypes env.host L (.primitive p) idx = .ok (some obj, L')) :
    obj.unboxed = some p := by
  unfold Conversion.compareTypes at h
  cases hv : index2adr L.stack idx with
  | none => rw [hv] at h; cases h
  | some v =>
    rw [hv] at h
    cases v with
    | nil => cases h
    | boolean b =>
      dsimp only at h
      simp only [if_pos (show (JavaClass.primitive p).isPrimitive = true from rfl)] at h
      split at h
      · next hb =>
        cases h
        obtain rfl : p = .boolean := by simpa using hb
        rfl
      · cases h
    | string bytes =>
      dsimp only at h
      rw [if_neg nofun] at h
      split at h
      · next hchar =>
        obtain ⟨hp, hlength⟩ := hchar
        obtain rfl : p = .char := by simpa using hp
        obtain ⟨u, hu⟩ := List.length_eq_one_iff.mp hlength
        rw [hu] at h
        cases h
        rfl
      · rw [if_neg (not_assignable_to_primitive env p (c := .string) nofun)] at h
        cases h
    | table a =>
      dsimp only at h
      rw [if_neg (show ¬ env.host.classes.isInterface (.primitive p) from nofun),
        compareLuaObject_primitive] at h
      cases h
    | number n =>
      dsimp only at h
      split at h
      · next hn =>
        cases h
        exact unboxed_of_convertLuaNumber hn
      · cases h
    | userdata a =>
      dsimp only at h
      split at h
      · rw [if_neg (not_assignable_to_primitive env p (getClass_not_primitive _))] at h
        cases h
      · rw [compareLuaObject_primitive] at h
        cases h
    | function a =>
      dsimp only at h
      rw [compareLuaObject_primitive] at h
      cases h
    | lightuserdata p' =>
      dsimp only at h
      rw [compareLuaObject_primitive] at h
      cases h
    | thread a => cases h

/-- Only a table that is to implement an interface needs more than the state. -/
theorem compareTypes_eq_liftState
    (hproxy : ∀ a, index2adr w.stack idx = some (.table a) →
      ¬ env.host.classes.isInterface type) :
    JLuaAPI.compareTypes env type idx w =
      LuaState.liftState (fun L => Conversion.compareTypes env.host L type idx) w := by
  have hlua : index2adr w.lua.stack idx = index2adr w.stack idx := rfl
  unfold JLuaAPI.compareTypes
  rw [get_bind]
  cases hv : index2adr w.stack idx with
  | none => rfl
  | some v =>
    cases v with
    | table a =>
      rw [hv] at hlua
      dsimp only
      rw [if_neg (hproxy a hv)]
      simp only [LuaState.liftState, Conversion.compareTypes, hlua, if_neg (hproxy a hv)]
    | _ => rfl

theorem compareTypes_cases
    (hproxy : ∀ a, index2adr w.stack idx = some (.table a) →
      ¬ env.host.classes.isInterface type)
    (h : JLuaAPI.compareTypes env type idx w = .ok x w₁) :
    ∃ L, Conversion.compareTypes env.host w.lua type idx = .ok (x, L) ∧
      w₁ = { w with lua := L } := by
  rw [compareTypes_eq_liftState hproxy] at h
  exact LuaState.liftState_eq_ok_iff.mp h

/-- What is accepted for a primitive type is a box of this very type, or `null`. -/
theorem isExactly_of_compareTypes (h : JLuaAPI.compareTypes env type idx w = .ok x w₁)
    (hlegal : isLegalArgument env.host.classes type x) : IsExactly type x := by
  cases type with
  | primitive p =>
    cases x with
    | none => cases hlegal
    | some obj =>
      have hproxy : ¬ env.host.classes.isInterface (.primitive p) := Bool.false_ne_true
      obtain ⟨L, hrun, _⟩ := compareTypes_cases (fun _ _ => hproxy) h
      exact unboxed_of_conversion hrun
  | _ => trivial

end Conversion

/-! ### The callbacks -/

section Callbacks
variable {env : Env σ} {F : Fields σ} {o : JavaObject} {name : JString} {f : Field}
  {w w₁ : World σ} {x : Option JavaObject}

theorem objClass_eq (laws : Reflects env F) (hf : env.getField o.getClass name = some f) :
    objClass env o = o.getClass ∧ env.asClass o = none := by
  cases hclass : env.asClass o with
  | none => exact ⟨by rw [objClass, hclass]; rfl, rfl⟩
  | some clazz =>
    have hnone := laws.getField_class name
    rw [Env.javaLangClass, ← env.getClass_of_asClass o clazz hclass, hf] at hnone
    cases hnone

/-- The write goes through, if reflection takes the value. -/
theorem objectNewIndex_legal (laws : Reflects env F)
    (hf : env.getField o.getClass name = some f) (haccess : F.isAccessible f = true)
    (hfinal : F.isFinal f = false) (hx : JLuaAPI.compareTypes env f.type 3 w = .ok x w₁)
    (hlegal : isLegalArgument env.host.classes f.type x = true) :
    JLuaAPI.objectNewIndex env o name w =
      .ok 0 { w₁ with rest := F.assign w₁.rest f (F.holder f o) x } := by
  have hset : fieldSet env f o x w₁ =
      .ok () { w₁ with rest := F.assign w₁.rest f (F.holder f o) x } := by
    rw [fieldSet, if_pos hlegal]
    exact laws.fieldSet o name f x w₁ hf haccess hfinal hlegal
      (isExactly_of_compareTypes hx hlegal)
  unfold JLuaAPI.objectNewIndex
  rw [(objClass_eq laws hf).1, hf]
  apply (bind_of_ok hx).trans
  exact bind_of_ok (catching_of_ok (catching_of_ok hset))

theorem objectNewIndex_illegal (laws : Reflects env F)
    (hf : env.getField o.getClass name = some f)
    (hx : JLuaAPI.compareTypes env f.type 3 w = .ok x w₁)
    (hlegal : isLegalArgument env.host.classes f.type x = false) :
    JLuaAPI.objectNewIndex env o name w = .error (.throws (.luaExceptionOf
      (some "Ilegal argument to set field.") (illegalArgument "argument type mismatch"))) w₁ := by
  have hset : fieldSet env f o x w₁ =
      .error (.throws (illegalArgument "argument type mismatch")) w₁ := by
    rw [fieldSet, hlegal]
    rfl
  unfold JLuaAPI.objectNewIndex
  rw [(objClass_eq laws hf).1, hf]
  apply (bind_of_ok hx).trans
  have hinner : catching (fieldSet env f o x) (isNamed "java.lang.IllegalArgumentException")
      (throwWith "Ilegal argument to set field.") w₁ = .error (.throws (.luaExceptionOf
        (some "Ilegal argument to set field.") (illegalArgument "argument type mismatch"))) w₁ :=
    catching_of_error hset
  exact bind_of_error (catching_of_error hinner)

theorem objectNewIndex_rejected (laws : Reflects env F)
    (hf : env.getField o.getClass name = some f) {stop : Stop}
    (hx : JLuaAPI.compareTypes env f.type 3 w = .error stop w₁) :
    JLuaAPI.objectNewIndex env o name w = .error stop w₁ := by
  unfold JLuaAPI.objectNewIndex
  rw [(objClass_eq laws hf).1, hf]
  exact bind_of_error hx

/-- The declared class of the name that a read finds first. -/
def shadowing (env : Env σ) (o : JavaObject) (name : JString) : Option JavaClass :=
  ((env.getDeclaredClasses o.getClass).find? (·.1 = name)).map Prod.snd

theorem checkField_run (laws : Reflects env F) (hf : env.getField o.getClass name = some f)
    (haccess : F.isAccessible f = true) (w : World σ) :
    checkField env o name w =
      match shadowing env o name with
      | some c => pushOne env (some (env.classObject c)) w
      | none => pushOne env (F.value w.rest f (F.holder f o)) w := by
  have hmember : checkField env o name w = checkMember env o.getClass o name w := by
    have hclass := (objClass_eq laws hf).2
    cases o with
    | javaPackage ref => cases (laws.getField_package name).symm.trans hf
    | array c ref => cases (laws.getField_array c name).symm.trans hf
    | byteArray bytes => cases (laws.getField_array _ name).symm.trans hf
    | _ =>
      simp only [checkField, hclass]
      rfl
  rw [hmember, checkMember, shadowing]
  cases (env.getDeclaredClasses o.getClass).find? (·.1 = name) with
  | some c => rfl
  | none =>
    rw [hf]
    have hget := laws.fieldGet o name f w hf haccess
    exact bind_of_ok (catching_of_ok (map_eq_ok hget))

end Callbacks

/-! ### The assignment and the index expression -/

section Lua
variable {env : Env σ} {B : Bridge σ} {F : Fields σ} {o : JavaObject} {s : List UInt8} {f : Field}
  {u v : Value} {w : World σ}

/-- The name that a key gives. -/
def keyName (env : Env σ) (s : List UInt8) : JString :=
  env.host.newStringUTF (ModifiedUtf8.cString s)

variable (env s v) in
theorem objectNewIndex_run (hopened : Opened B w.heap)
    (hu : getObjectFromUserdata w.lua u = some o) :
    Native.objectNewIndex env B (w.setStack [u, .string s, v]) =
      handleException env B (JLuaAPI.objectNewIndex env o (keyName env s))
        (w.setStack [u, .string s, v]) := by
  let w₀ := w.setStack [u, .string s, v]
  obtain ⟨stateIndex, hindex⟩ := Opened.getLuaStateIndex (w := w₀) hopened
  have hobj : javaObject 1 "Not a valid java class." w₀ = .ok o w₀ := javaObject_run _ hu _
  have hisString : (LuaState.isString 2 : Code σ Bool) w₀ = .ok true w₀ := rfl
  have htext : LuaState.toString env 2 w₀ = .ok (some (keyName env s)) w₀ := rfl
  have hcheck : getEnvFromStateCheck B w₀ = .ok () w₀ := Opened.getEnvFromStateCheck hopened
  rw [Native.objectNewIndex]
  apply (bind_of_ok hindex).trans
  apply (bind_of_ok hobj).trans
  apply (bind_of_ok hisString).trans
  apply (bind_of_ok htext).trans
  exact bind_of_ok hcheck

theorem handleException_ne_ok {callback : Code σ Nat} {stop : Stop} {w₁ : World σ}
    (h : callback w = .error stop w₁) (n : Nat) (w' : World σ) :
    handleException env B callback w ≠ .ok n w' := by
  rw [handleException, h]
  cases stop with
  | throws t => exact raiseException_ne_ok
  | raises | hangs =>
    intro hend
    cases hend

/-- What a read through the callback pushes is its result. -/
theorem objectIndex_run (hopened : Opened B w.heap)
    (hu : getObjectFromUserdata w.lua u = some o) {x : Option JavaObject}
    (hfield : checkField env o (keyName env s) (w.setStack [u, .string s]) =
      pushOne env x (w.setStack [u, .string s])) :
    Native.objectIndex env B (w.setStack [u, .string s]) =
      handleException env B (pushOne env x) (w.setStack [u, .string s]) := by
  let w₀ := w.setStack [u, .string s]
  obtain ⟨stateIndex, hindex⟩ := Opened.getLuaStateIndex (w := w₀) hopened
  have hobj : javaObject 1 "Not a valid Java Object." w₀ = .ok o w₀ := javaObject_run _ hu _
  have hisString : (LuaState.isString (-1) : Code σ Bool) w₀ = .ok true w₀ := rfl
  have htext : LuaState.toString env (-1) w₀ = .ok (some (keyName env s)) w₀ := rfl
  have hcheck : getEnvFromStateCheck B w₀ = .ok () w₀ := Opened.getEnvFromStateCheck hopened
  have hhandled : handleException env B (checkField env o (keyName env s)) w₀ =
      handleException env B (pushOne env x) w₀ := by
    unfold handleException
    rw [show checkField env o (keyName env s) w₀ = pushOne env x w₀ from hfield]
  rw [Native.objectIndex]
  apply (bind_of_ok hindex).trans
  apply (bind_of_ok hisString).trans
  apply (bind_of_ok htext).trans
  apply (bind_of_ok hobj).trans
  apply (bind_of_ok hcheck).trans
  apply (bind_congr_run _ hhandled).trans
  cases hpush : pushOne env x w₀ with
  | ok n w₁ =>
    obtain rfl : n = 1 := by
      obtain ⟨_, w₂, _, h⟩ := bind_eq_ok_iff.mp hpush
      cases h
      rfl
    apply (bind_of_ok (handleException_ok hpush)).trans
    exact (handleException_ok hpush).symm
  | error stop w₁ =>
    -- nothing follows an error
    cases hend : handleException env B (pushOne env x) w₀ with
    | ok n w₂ => exact absurd hend (handleException_ne_ok hpush n w₂)
    | error stop' w₂ => exact bind_of_error hend

/-- The callback has been stopped in this world, and its error is raised from there. -/
structure Raised (env : Env σ) (B : Bridge σ) (result : EStateM.Result Stop (World σ) Nat)
    (stop : Stop) (w₁ : World σ) : Prop where
  handled : result = handleException env B (throw stop) w₁
  raises : ∀ n w', result ≠ .ok n w'

theorem raised_of_error {callback : Code σ Nat} {stop : Stop} {w₁ : World σ}
    (h : callback w = .error stop w₁) :
    Raised env B (handleException env B callback w) stop w₁ where
  handled := by
    rw [handleException, h]
    rfl
  raises := handleException_ne_ok h

variable (env B F o s f u v w) in
/-- `o.f = v` and `o.f`. The conversion of a value may run code of a script only if the value is a
table that is to implement an interface. -/
structure WriteAndRead : Prop where
  written : ¬ (f.type.isPrimitive ∧ v = .nil) → ∀ x w₁,
    JLuaAPI.compareTypes env f.type 3 (w.setStack [u, .string s, v]) = .ok x w₁ →
      ∃ w₂, Native.objectNewIndex env B (w.setStack [u, .string s, v]) = .ok 0 w₂ ∧
        F.value w₂.rest f (F.holder f o) = x ∧ ∀ f' r', ¬ (f' = f ∧ r' = F.holder f o) →
          F.value w₂.rest f' r' = F.value w₁.rest f' r'
  null : f.type.isPrimitive → v = .nil →
    Raised env B (Native.objectNewIndex env B (w.setStack [u, .string s, v]))
      (.throws (.luaExceptionOf (some "Ilegal argument to set field.")
        (illegalArgument "argument type mismatch"))) (w.setStack [u, .string s, v])
  rejected : ∀ stop w₁,
    JLuaAPI.compareTypes env f.type 3 (w.setStack [u, .string s, v]) = .error stop w₁ →
      Raised env B (Native.objectNewIndex env B (w.setStack [u, .string s, v])) stop w₁
  converted : (∀ a, v = .table a → ¬ env.host.classes.isInterface f.type) →
    Ends (JLuaAPI.compareTypes env f.type 3) (w.setStack [u, .string s, v])
      (fun _ w₁ => w₁.rest = w.rest) fun _ w₁ => w₁.rest = w.rest
  read : ∀ w₂ : World σ, Opened B w₂.heap → getObjectFromUserdata w₂.lua u = some o →
    shadowing env o (keyName env s) = none →
      Native.objectIndex env B (w₂.setStack [u, .string s]) =
        handleException env B (pushOne env (F.value w₂.rest f (F.holder f o)))
          (w₂.setStack [u, .string s])
  shadowed : ∀ (w₂ : World σ) c, Opened B w₂.heap → getObjectFromUserdata w₂.lua u = some o →
    shadowing env o (keyName env s) = some c →
      Native.objectIndex env B (w₂.setStack [u, .string s]) =
        handleException env B (pushOne env (some (env.classObject c)))
          (w₂.setStack [u, .string s])

theorem write_and_read (laws : Reflects env F)
    (hf : env.getField o.getClass (keyName env s) = some f) (haccess : F.isAccessible f = true)
    (hfinal : F.isFinal f = false) (hopened : Opened B w.heap)
    (hu : getObjectFromUserdata w.lua u = some o) : WriteAndRead env B F o s f u v w := by
  have hnew := objectNewIndex_run env s v hopened hu
  refine ⟨?_, ?_, ?_, ?_, ?_, ?_⟩
  · intro hnull x w₁ hx
    have hlegal : isLegalArgument env.host.classes f.type x = true := by
      refine ((soundAt_iff env f.type 3 _).mpr ?_) x w₁ hx
      rintro ⟨hp, hv⟩
      exact hnull ⟨hp, Option.some.inj hv⟩
    have hrun := objectNewIndex_legal laws hf haccess hfinal hx hlegal
    refine ⟨_, hnew.trans (handleException_ok hrun), ?_, fun f' r' hother => ?_⟩
    · exact (laws.value_assign _ _ _ _ _ _).trans (if_pos ⟨rfl, rfl⟩)
    · exact (laws.value_assign _ _ _ _ _ _).trans (if_neg hother)
  · rintro hp rfl
    have hlegal : isLegalArgument env.host.classes f.type none = false := by
      rw [isLegalArgument_null, hp]
      rfl
    rw [hnew]
    exact raised_of_error (objectNewIndex_illegal laws hf (compareTypes_nil env rfl) hlegal)
  · intro stop w₁ hx
    rw [hnew]
    exact raised_of_error (objectNewIndex_rejected laws hf hx)
  · intro hproxy
    have hrun : JLuaAPI.compareTypes env f.type 3 (w.setStack [u, .string s, v]) =
        LuaState.liftState (fun L => Conversion.compareTypes env.host L f.type 3)
          (w.setStack [u, .string s, v]) :=
      compareTypes_eq_liftState fun a ha => hproxy a (Option.some.inj ha)
    unfold Ends
    rw [hrun]
    exact LuaState.ends_liftState.mpr ⟨fun _ _ _ => rfl, fun _ _ => rfl⟩
  · intro w₂ hopened₂ hu₂ hshadow
    apply objectIndex_run hopened₂ hu₂
    rw [checkField_run laws hf haccess, hshadow]
    rfl
  · intro w₂ c hopened₂ hu₂ hshadow
    apply objectIndex_run hopened₂ hu₂
    rw [checkField_run laws hf haccess, hshadow]

end Lua

/-! ### A counter -/

/-- What the fields of all objects contain. -/
abbrev FieldHeap := Field → Option JavaObject → Option JavaObject

def fieldStore : Fields FieldHeap where
  isStatic _ := false
  isFinal _ := false
  isAccessible _ := true
  value s f r := s f r
  assign s f r x := fun f' r' => if f' = f ∧ r' = r then x else s f' r'

def countField : Field := ⟨"count", .primitive .int, .declared 1⟩

def fieldVm : Metatables.Vm (Heap FieldHeap) where
  globals _ := .table 0
  rawget _ _ _ := .nil
  rawset h _ _ _ := h
  gettmbyobj _ _ _ := .nil
  newtable h := (1, h)
  call _ _ h := some (.ok [], h)

/-- Objects of the class 1 have one field, whatever it is called. -/
def fieldEnv : Env FieldHeap :=
  { Env.plain fieldVm fun _ => [] with
    getField := fun c _ => if c = .declared 1 then some countField else none
    fieldGet := fun f o w => .ok (fieldStore.value w.rest f (fieldStore.holder f o)) w
    fieldSet := fun f o x w =>
      .ok () { w with rest := fieldStore.assign w.rest f (fieldStore.holder f o) x } }

theorem reflects_fieldEnv : Reflects fieldEnv fieldStore where
  getField_package _ := rfl
  getField_array _ _ := rfl
  getField_class _ := rfl
  fieldSet _ _ _ _ _ _ _ _ _ _ := rfl
  fieldGet _ _ _ _ _ _ := rfl
  value_assign _ _ _ _ _ _ := rfl

/-- Userdata 0 is an object of the class 1. -/
def fieldWorld : World FieldHeap :=
  ⟨⟨1, [], ⟨fun _ => .nil, 0⟩, [.java (.object 1 0)]⟩, fun _ _ => some (.integer 7)⟩

theorem write_and_read_count : WriteAndRead fieldEnv .plain fieldStore (.object 1 0) [0x63]
    countField (.userdata 0) (.number (.zero false)) fieldWorld :=
  write_and_read reflects_fieldEnv rfl rfl rfl (opened_plain _) rfl

/-- The class 1 declares a class with the name of the field. -/
def nestedEnv : Env FieldHeap :=
  { fieldEnv with getDeclaredClasses := fun _ => [(keyName fieldEnv [0x63], .declared 2)] }

/-- `nil` is accepted for the counter, but what is assigned is an error; and a counter that has the
name of a declared class is written and not read. -/
theorem count_not_written_and_not_read :
    (JLuaAPI.compareTypes fieldEnv countField.type 3
        (fieldWorld.setStack [.userdata 0, .string [0x63], .nil]) =
          .ok none (fieldWorld.setStack [.userdata 0, .string [0x63], .nil]) ∧
      JLuaAPI.objectNewIndex fieldEnv (.object 1 0) (keyName fieldEnv [0x63])
        (fieldWorld.setStack [.userdata 0, .string [0x63], .nil]) =
          .error (.throws (.luaExceptionOf (some "Ilegal argument to set field.")
            (illegalArgument "argument type mismatch")))
            (fieldWorld.setStack [.userdata 0, .string [0x63], .nil])) ∧
    ∃ w₁ w₂, JLuaAPI.objectNewIndex nestedEnv (.object 1 0) (keyName nestedEnv [0x63])
        (fieldWorld.setStack [.userdata 0, .string [0x63], .number (.zero false)]) = .ok 0 w₁ ∧
      fieldStore.value w₁.rest countField (some (.object 1 0)) = some (.integer 0) ∧
      checkField nestedEnv (.object 1 0) (keyName nestedEnv [0x63])
        (w₁.setStack [.userdata 0, .string [0x63]]) = .ok 1 w₂ ∧
      getObjectFromUserdata w₂.lua (LuaState.valueAt w₂ (-1)) = some (.object 0 2) :=
  ⟨⟨rfl, rfl⟩, _, _, rfl, rfl, rfl, rfl⟩

end JLua.FieldAccess
