import JLua.JLuaAPI
import JLua.Lib.FirstMatch

/-!
# The choice among overloads

`getMethod` and `getObjInstance` take the first candidate that accepts the arguments, in the order
in which reflection lists them. The order matters as soon as the candidates are ambiguous.
-/

namespace JLua.Overloads

open FirstMatch JLuaAPI
set_option autoImplicit false

variable {σ M : Type} (env : Env σ)

def trial (parameterTypes : M → List JavaClass) (c : M) (w : World σ) : Trial (World σ) :=
  match tryArguments env (parameterTypes c) w with
  | .ok (some _) _ => .accepts
  | .ok none w' => .rejects w'
  | .error _ _ => .stops

def found (search : Code σ (Option (M × List (Option JavaObject)))) (w : World σ) : Option M :=
  match search w with
  | .ok (some (c, _)) _ => some c
  | _ => none

/-- The choice of `getMethod` if `getMethods` returned this array. -/
def selectMethod (methods : List Method) (methodName : JString) (top : Nat) (w : World σ) :
    Option Method :=
  found (firstAccepting env Method.parameterTypes (methodCandidates methods methodName top)) w

def selectConstructor (constructors : List Constructor) (top : Nat) (w : World σ) :
    Option Constructor :=
  found (firstAccepting env Constructor.parameterTypes (constructorCandidates constructors top)) w

theorem found_firstAccepting (parameterTypes : M → List JavaClass) (candidates : List M)
    (w : World σ) : found (firstAccepting env parameterTypes candidates) w =
      choose (trial env parameterTypes) candidates w := by
  induction candidates generalizing w with
  | nil => rfl
  | cons c candidates ih =>
    simp only [found, firstAccepting, choose, trial, bind, EStateM.bind]
    cases h : tryArguments env (parameterTypes c) w with
    | error e w' => rfl
    | ok tried w' =>
      cases tried with
      | none => exact ih w'
      | some objs => rfl

/-- The choice of a method or constructor is the same for every order in which reflection lists
them exactly if the candidates of that name and arity are unambiguous. -/
theorem selection_same_iff :
    (∀ clazz methodName top w,
      (∀ methods, methods.Perm (env.getMethods clazz) →
        selectMethod env methods methodName top w =
          selectMethod env (env.getMethods clazz) methodName top w) ↔
      Unambiguous (trial env Method.parameterTypes)
        (methodCandidates (env.getMethods clazz) methodName top) w) ∧
    ∀ clazz top w,
      (∀ constructors, constructors.Perm (env.getConstructors clazz) →
        selectConstructor env constructors top w =
          selectConstructor env (env.getConstructors clazz) top w) ↔
      Unambiguous (trial env Constructor.parameterTypes)
        (constructorCandidates (env.getConstructors clazz) top) w := by
  constructor
  · intro clazz methodName top w
    simp only [selectMethod, found_firstAccepting, methodCandidates]
    rw [← same_iff_unambiguous ((env.getMethods_nodup clazz).filter _)]
    exact forall_perm_filter_iff (P := fun cs => choose (trial env Method.parameterTypes) cs w = _)
  · intro clazz top w
    simp only [selectConstructor, found_firstAccepting, constructorCandidates]
    rw [← same_iff_unambiguous ((env.getConstructors_nodup clazz).filter _)]
    exact forall_perm_filter_iff
      (P := fun cs => choose (trial env Constructor.parameterTypes) cs w = _)

/-- Methods `f(int)` and `f(double)` of the class `.declared 1`. -/
def intMethod : Method := ⟨javaString "f", [.primitive .int], .primitive .void, .declared 1, false⟩

def doubleMethod : Method :=
  ⟨javaString "f", [.primitive .double], .primitive .void, .declared 1, false⟩

def demoEnv : Env Unit := .plain .plain fun _ => [intMethod, doubleMethod]

def demoWorld : World Unit :=
  ⟨⟨1, [.userdata 0, .number (.ofInt _ 1)], ⟨fun _ => .nil, 0⟩, [.java (.object 1 0)]⟩, ()⟩

/-- A number is taken for an `int` and for a `double` alike. -/
theorem overload_depends_on_order :
    ∃ methods, methods.Perm (demoEnv.getMethods (.declared 1)) ∧
      selectMethod demoEnv (demoEnv.getMethods (.declared 1)) (javaString "f") 2 demoWorld =
        some intMethod ∧
      selectMethod demoEnv methods (javaString "f") 2 demoWorld = some doubleMethod :=
  ⟨[doubleMethod, intMethod], .swap _ _ _, rfl, rfl⟩

end JLua.Overloads
