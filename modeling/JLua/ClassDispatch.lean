import JLua.Overloads

/-!
# Methods called on a class object

`objectIndex` looks for a method of the class that the object stands for, and for a method of
`java.lang.Class` if there is none. The first search takes the instance methods of the class too,
which the class object itself does not have.
-/

namespace JLua.ClassDispatch

open FirstMatch JLuaAPI OutcomeRules
set_option autoImplicit false

section Search
variable {σ : Type} (env : Env σ)

/-- The methods of a class that a call with this name and stack height can mean. -/
def candidates (clazz : JavaClass) (methodName : JString) (top : Nat) : List Method :=
  methodCandidates (env.getMethods clazz) methodName top

/-- The method is the first one, tried in order, that accepts the arguments. -/
inductive First : List Method → World σ → Method → List (Option JavaObject) → World σ → Prop where
  | here {m : Method} {ms : List Method} {objs : List (Option JavaObject)} {w w' : World σ}
      (h : tryArguments env m.parameterTypes w = .ok (some objs) w') : First (m :: ms) w m objs w'
  | later {c m : Method} {ms : List Method} {objs : List (Option JavaObject)} {w w₁ w' : World σ}
      (hc : tryArguments env c.parameterTypes w = .ok none w₁) (h : First ms w₁ m objs w') :
      First (c :: ms) w m objs w'

inductive Exhausted : List Method → World σ → World σ → Prop where
  | nil (w : World σ) : Exhausted [] w w
  | cons {c : Method} {ms : List Method} {w w₁ w' : World σ}
      (hc : tryArguments env c.parameterTypes w = .ok none w₁) (h : Exhausted ms w₁ w') :
      Exhausted (c :: ms) w w'

variable {env} {ms : List Method} {m : Method} {objs : List (Option JavaObject)} {w w' : World σ}

theorem firstAccepting_eq_some_iff :
    firstAccepting env Method.parameterTypes ms w = .ok (some (m, objs)) w' ↔
      First env ms w m objs w' := by
  induction ms generalizing w with
  | nil => exact ⟨fun h => (by cases h), fun h => (by cases h)⟩
  | cons c ms ih =>
    simp only [firstAccepting, bind, EStateM.bind]
    cases htry : tryArguments env c.parameterTypes w with
    | error e w₁ =>
      refine iff_of_false (fun h => by cases h) fun h => ?_
      cases h with
      | here h | later h => rw [htry] at h; cases h
    | ok tried w₁ =>
      cases tried with
      | some objs' =>
        refine ⟨fun h => by cases h; exact .here htry, fun h => ?_⟩
        cases h with
        | here h => rw [htry] at h; cases h; rfl
        | later h => rw [htry] at h; cases h
      | none =>
        refine ih.trans ⟨.later htry, fun h => ?_⟩
        cases h with
        | here h => rw [htry] at h; cases h
        | later h hrest => rw [htry] at h; cases h; exact hrest

theorem firstAccepting_eq_none_iff :
    firstAccepting env Method.parameterTypes ms w = .ok none w' ↔ Exhausted env ms w w' := by
  induction ms generalizing w with
  | nil => exact ⟨fun h => (by cases h; exact .nil _), fun h => (by cases h; rfl)⟩
  | cons c ms ih =>
    simp only [firstAccepting, bind, EStateM.bind]
    cases htry : tryArguments env c.parameterTypes w with
    | error e w₁ =>
      refine iff_of_false (fun h => by cases h) fun h => ?_
      cases h with
      | cons h => rw [htry] at h; cases h
    | ok tried w₁ =>
      cases tried with
      | some objs' =>
        refine iff_of_false (fun h => by cases h) fun h => ?_
        cases h with
        | cons h => rw [htry] at h; cases h
      | none =>
        refine ih.trans ⟨.cons htry, fun h => ?_⟩
        cases h with
        | cons h hrest => rw [htry] at h; cases h; exact hrest

theorem First.mem (h : First env ms w m objs w') : m ∈ ms := by
  induction h with
  | here => exact List.mem_cons_self
  | later _ _ ih => exact List.mem_cons_of_mem _ ih

end Search

section Dispatch
variable {σ : Type} (env : Env σ)

def OfClassObject (m : Method) : Prop :=
  env.host.classes.isAssignableFrom m.declaringClass env.javaLangClass

/-- A method that can be meant by a call on the object of the class. -/
def Proper (clazz : JavaClass) (m : Method) : Prop :=
  (m.isStatic ∧ m ∈ env.getMethods clazz) ∨ OfClassObject env m

/-- The call invokes a proper method, never one that the class object does not have, and does
not miss a method of `java.lang.Class`. The searches are those of `objectIndex`. -/
structure DispatchesRight (obj : JavaObject) (clazz : JavaClass) (methodName : JString) (top : Nat)
    (w : World σ) : Prop where
  proper : ∀ m objs w', classMethod env clazz methodName top w = .ok (some (m, objs)) w' →
    Proper env clazz m
  receiver : ∀ m objs w', classMethod env clazz methodName top w = .ok (some (m, objs)) w' →
    isReceiver env m obj
  found : ∀ first w₁ w', getMethod env clazz methodName top w = .ok first w₁ →
    classMethod env clazz methodName top w = .ok none w' →
    ∀ m objs w₂, ¬ First env (candidates env env.javaLangClass methodName top) w₁ m objs w₂

/-- If a method of the class accepts the arguments, then so does one when the search is made again,
and the first one that does is static or one of `Class` objects. -/
def FirstProper (clazz : JavaClass) (methodName : JString) (top : Nat) (w : World σ) : Prop :=
  ∀ m objs w₁, First env (candidates env clazz methodName top) w m objs w₁ →
    (∀ m' objs' w', First env (candidates env clazz methodName top) w₁ m' objs' w' →
      m'.isStatic ∨ OfClassObject env m') ∧
    ∀ w', Exhausted env (candidates env clazz methodName top) w₁ w' →
      ∀ m' objs' w₂,
        ¬ First env (candidates env env.javaLangClass methodName top) w₁ m' objs' w₂

variable {env} {clazz : JavaClass} {methodName : JString} {top : Nat} {w w' : World σ}
  {obj : JavaObject}

theorem getMethod_eq_some_iff {m : Method} {objs : List (Option JavaObject)} :
    getMethod env clazz methodName top w = .ok (some (m, objs)) w' ↔
      First env (candidates env clazz methodName top) w m objs w' :=
  firstAccepting_eq_some_iff

theorem getMethod_eq_none_iff : getMethod env clazz methodName top w = .ok none w' ↔
    Exhausted env (candidates env clazz methodName top) w w' :=
  firstAccepting_eq_none_iff

theorem classMethod_eq (first : Option (Method × List (Option JavaObject))) {w₁ : World σ}
    (h : getMethod env clazz methodName top w = .ok first w₁) :
    classMethod env clazz methodName top w =
      getMethod env (if first.isNone then env.javaLangClass else clazz) methodName top w₁ := by
  simp only [classMethod, bind, EStateM.bind, h]

theorem mem_getMethods_of_first {m : Method} {objs : List (Option JavaObject)}
    (h : First env (candidates env clazz methodName top) w m objs w') :
    m ∈ env.getMethods clazz :=
  (List.mem_filter.mp h.mem).1

theorem isReceiver_of_proper {m : Method} (hobj : env.asClass obj = some clazz)
    (h : Proper env clazz m) : isReceiver env m obj := by
  rw [isReceiver, env.getClass_of_asClass obj clazz hobj, Bool.or_eq_true]
  exact h.imp And.left id

theorem ofClassObject_of_first {m : Method} {objs : List (Option JavaObject)}
    (h : First env (candidates env env.javaLangClass methodName top) w m objs w') :
    OfClassObject env m :=
  env.declaringClass_of_mem _ m (mem_getMethods_of_first h)

theorem dispatchesRight_of_firstProper (hobj : env.asClass obj = some clazz)
    (h : FirstProper env clazz methodName top w) :
    DispatchesRight env obj clazz methodName top w := by
  have hproper : ∀ m objs w', classMethod env clazz methodName top w = .ok (some (m, objs)) w' →
      Proper env clazz m := by
    intro m objs w' hm
    cases hfirst : getMethod env clazz methodName top w with
    | error e w₁ => simp [classMethod, bind, EStateM.bind, hfirst] at hm
    | ok first w₁ =>
      rw [classMethod_eq first hfirst, getMethod_eq_some_iff] at hm
      cases first with
      | none => exact Or.inr (ofClassObject_of_first hm)
      | some r =>
        have hstatic := (h r.1 r.2 w₁ (getMethod_eq_some_iff.mp hfirst)).1 m objs w' hm
        exact hstatic.imp_left fun hs => ⟨hs, mem_getMethods_of_first hm⟩
  refine ⟨hproper, fun m objs w' hm => isReceiver_of_proper hobj (hproper m objs w' hm), ?_⟩
  intro first w₁ w' hfirst hnone
  rw [classMethod_eq first hfirst, getMethod_eq_none_iff] at hnone
  cases first with
  | none =>
    intro m objs w₂ hm
    rw [← getMethod_eq_some_iff] at hm
    rw [← getMethod_eq_none_iff] at hnone
    cases hm.symm.trans hnone
  | some r => exact (h r.1 r.2 w₁ (getMethod_eq_some_iff.mp hfirst)).2 w' hnone

theorem firstProper_of_dispatchesRight (h : DispatchesRight env obj clazz methodName top w) :
    FirstProper env clazz methodName top w := by
  intro m objs w₁ hm
  have hfirst := getMethod_eq_some_iff.mpr hm
  constructor
  · intro m' objs' w' hm'
    have hclass := (classMethod_eq _ hfirst).trans (getMethod_eq_some_iff.mpr hm')
    exact (h.proper m' objs' w' hclass).imp_left And.left
  · intro w' hnone
    have hclass := (classMethod_eq _ hfirst).trans (getMethod_eq_none_iff.mpr hnone)
    exact h.found _ w₁ w' hfirst hclass

/-- A call on a class object is dispatched right exactly if the first method of the class to
accept the arguments, if there is one, is static or one that every class object has. -/
theorem dispatchesRight_iff (hobj : env.asClass obj = some clazz) :
    DispatchesRight env obj clazz methodName top w ↔ FirstProper env clazz methodName top w :=
  ⟨firstProper_of_dispatchesRight, dispatchesRight_of_firstProper hobj⟩

/-- The method that `objectIndex` invokes on a class object is the one that `classMethod` finds. -/
theorem objectIndex_eq (hobj : env.asClass obj = some clazz) (hnew : methodName ≠ "new")
    (hw : w.stack ≠ []) : objectIndex env obj methodName w =
      (classMethod env clazz methodName w.stack.length >>= invokeFound env obj) w := by
  have htop : (LuaState.getTop : Code σ Nat) w = .ok w.stack.length w := rfl
  have hargs : (allocateArguments w.stack.length : Code σ Unit) w = .ok () w := by
    rw [allocateArguments, if_neg (by simpa using hw)]
    rfl
  rw [objectIndex, bind_of_ok htop, bind_of_ok hargs, hobj]
  change (if methodName = "new" then _ else _ : Code σ Nat) w = _
  rw [if_neg hnew]

end Dispatch

/-- `toString()` of the class `.declared 5` and of `java.lang.Class`. -/
def ownToString : Method := ⟨javaString "toString", [], .string, .declared 5, false⟩

def classToString : Method := ⟨javaString "toString", [], .string, .declared 0, false⟩

def ownNewInstance : Method := ⟨javaString "newInstance", [], .object, .declared 5, true⟩

def demoEnv : Env Unit := .plain .plain fun
  | .declared 5 => [ownToString, ownNewInstance]
  | .declared 0 => [classToString]
  | _ => []

def demoWorld : World Unit :=
  ⟨⟨1, [.userdata 0], ⟨fun _ => .nil, 0⟩, [.java (.object 0 5)]⟩, ()⟩

theorem dispatchesRight_iff_static :
    DispatchesRight demoEnv (.object 0 5) (.declared 5) (javaString "newInstance") 1 demoWorld := by
  have hcandidates : candidates demoEnv (.declared 5) (javaString "newInstance") 1 =
      [ownNewInstance] := rfl
  refine (dispatchesRight_iff rfl).mpr fun m objs w₁ _ => ⟨fun m' objs' w' h => ?_, fun w' h => ?_⟩
  · rw [hcandidates] at h
    obtain rfl := List.mem_singleton.mp h.mem
    exact Or.inl rfl
  · rw [hcandidates] at h
    cases h with
    | cons hc => cases hc

/-- The class has a `toString` of its own. It is chosen for the class object, which has only the
one of `java.lang.Class`, and reflection refuses to invoke it. -/
theorem instance_method_chosen :
    ¬ DispatchesRight demoEnv (.object 0 5) (.declared 5) (javaString "toString") 1 demoWorld ∧
      getMethod demoEnv demoEnv.javaLangClass (javaString "toString") 1 demoWorld =
        .ok (some (classToString, [])) demoWorld ∧
      objectIndex demoEnv (.object 0 5) (javaString "toString") demoWorld =
        .error (.throws (.luaExceptionOf none
          (illegalArgument "object is not an instance of declaring class"))) demoWorld := by
  refine ⟨fun h => ?_, rfl, rfl⟩
  have hreceiver := h.receiver ownToString [] demoWorld rfl
  cases hreceiver

end JLua.ClassDispatch
