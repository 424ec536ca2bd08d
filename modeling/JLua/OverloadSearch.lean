import JLua.ClassDispatch

/-!
# The array that the search for an overload fills

Every candidate stores what it converts into one array, up to the parameter that it refuses.
`getMethod` has such an array of its own and copies it for its caller when a candidate is found,
and `objectIndex` passes the same array to both of its searches.
-/

namespace JLua.OverloadSearch

open JLuaAPI OutcomeRules
set_option autoImplicit false

variable {σ M : Type} (env : Env σ)

/-- `Object[]` -/
abbrev Objects := List (Option JavaObject)

/-- `new Object[top - 1]` -/
def newObjects (top : Nat) : Code σ Objects := do
  allocateArguments top
  return List.replicate (top - 1) none

def store (objs : Objects) (j : Nat) (obj : Option JavaObject) : Code σ Objects :=
  if j < objs.length then return objs.set j obj
  else throwJava (arrayIndexOutOfBounds j)

/-- The loop over the parameters: whether all of them took their arguments, and the array. -/
def fill : List JavaClass → Nat → Objects → Code σ (Bool × Objects)
  | [], _, objs => return (true, objs)
  | parameter :: parameters, j, objs => do
    let stored ← catching (do
      let obj ← compareTypes env parameter (j + 2)
      some <$> store objs j obj) env.isException fun _ => return none
    match stored with
    | some objs => fill parameters (j + 1) objs
    | none => return (false, objs)

/-- The loop over all methods or constructors, which skips those that cannot be meant. -/
def search (meant : M → Bool) (parameterTypes : M → List JavaClass) :
    List M → Objects → Code σ (Option M × Objects)
  | [], objs => return (none, objs)
  | m :: ms, objs =>
    if !meant m then search meant parameterTypes ms objs
    else do
      let (ok, objs) ← fill env (parameterTypes m) 0 objs
      if ok then return (some m, objs)
      else search meant parameterTypes ms objs

/-- `for (k = 0; k < objs.length; k++) retObjs[k] = objs[k]` -/
def copyInto : Objects → Objects → Objects
  | obj :: objs, _ :: retObjs => obj :: copyInto objs retObjs
  | _, retObjs => retObjs

def isMeant (methodName : JString) (top : Nat) (m : Method) : Bool :=
  m.name = methodName ∧ m.parameterTypes.length = top - 1

def takesArguments (top : Nat) (c : Constructor) : Bool := c.parameterTypes.length = top - 1

/-- `getMethod` of a class whose `getMethods` returns the array. -/
def getMethod (methods : List Method) (methodName : JString) (retObjs : Objects) (top : Nat) :
    Code σ (Option Method × Objects) := do
  let objs ← newObjects top
  let (method, objs) ← search env (isMeant methodName top) Method.parameterTypes methods objs
  return (method, if method.isSome then copyInto objs retObjs else retObjs)

/-- The loop of `getObjInstance`. -/
def getConstructor (constructors : List Constructor) (objs : Objects) (top : Nat) :
    Code σ (Option Constructor × Objects) :=
  search env (takesArguments top) Constructor.parameterTypes constructors objs

def getObjInstance (clazz : JavaClass) : Code σ JavaObject := do
  let top ← LuaState.getTop
  let objs ← newObjects top
  let (constructor, objs) ← getConstructor env (env.getConstructors clazz) objs top
  match constructor with
  | none => throwLuaException "Invalid method call. No such method."
  | some constructor => catching (newInstance env constructor objs) env.isException (rethrow env)

/-- The searches of `objectIndex`: the method, and the array that it is invoked with. -/
def findMethod (obj : JavaObject) (methodName : JString) (objs : Objects) (top : Nat) :
    Code σ (Option Method × Objects) :=
  match env.asClass obj with
  | some clazz => do
    let (method, objs) ← getMethod env (env.getMethods clazz) methodName objs top
    let clazz := if method.isNone then env.javaLangClass else clazz
    getMethod env (env.getMethods clazz) methodName objs top
  | none => getMethod env (env.getMethods obj.getClass) methodName objs top

def objectIndex (obj : JavaObject) (methodName : JString) : Code σ Nat := do
  let top ← LuaState.getTop
  let objs ← newObjects top
  match env.asClass obj, decide (methodName = javaString "new") with
  | some clazz, true =>
    let ret ← getObjInstance env clazz
    LuaState.pushJavaObject env ret
    return 1
  | _, _ =>
    let (method, objs) ← findMethod env obj methodName objs top
    invokeFound env obj (method.map fun m => (m, objs))

/-! ### What is to be found -/

/-- The parameters take the values from slot `j + 2` on, one after the other. -/
inductive Converts : List JavaClass → Nat → World σ → Objects → World σ → Prop where
  | nil (j : Nat) (w : World σ) : Converts [] j w [] w
  | cons {parameter : JavaClass} {parameters : List JavaClass} {j : Nat} {w w₁ w' : World σ}
      {obj : Option JavaObject} {objs : Objects}
      (h : compareTypes env parameter (j + 2) w = .ok obj w₁)
      (hs : Converts parameters (j + 1) w₁ objs w') :
      Converts (parameter :: parameters) j w (obj :: objs) w'

/-- One of the parameters does not take its value, and those before it do. -/
inductive Refuses : List JavaClass → Nat → World σ → World σ → Prop where
  | here {parameter : JavaClass} {parameters : List JavaClass} {j : Nat} {w w' : World σ}
      {stop : Stop} (h : compareTypes env parameter (j + 2) w = .error stop w')
      (hstop : env.isException stop) : Refuses (parameter :: parameters) j w w'
  | later {parameter : JavaClass} {parameters : List JavaClass} {j : Nat} {w w₁ w' : World σ}
      {obj : Option JavaObject} (h : compareTypes env parameter (j + 2) w = .ok obj w₁)
      (hs : Refuses parameters (j + 1) w₁ w') : Refuses (parameter :: parameters) j w w'

/-- The candidates are tried in turn, and none of them takes the arguments. -/
inductive AllRefuse (parameterTypes : M → List JavaClass) : List M → World σ → World σ → Prop where
  | nil (w : World σ) : AllRefuse parameterTypes [] w w
  | cons {m : M} {ms : List M} {w w₁ w' : World σ} (hm : Refuses env (parameterTypes m) 0 w w₁)
      (hms : AllRefuse parameterTypes ms w₁ w') : AllRefuse parameterTypes (m :: ms) w w'

/-- The first candidate that takes the arguments, and what they are converted to for it. -/
def Picks (parameterTypes : M → List JavaClass) (candidates : List M) (w : World σ) (m : M)
    (objs : Objects) (w' : World σ) : Prop :=
  ∃ before after w₁, candidates = before ++ m :: after ∧
    AllRefuse env parameterTypes before w w₁ ∧ Converts env (parameterTypes m) 0 w₁ objs w'

/-- What the searches of `objectIndex` are to find. A class object is asked for the methods of its
class, and for these again, or for those of `java.lang.Class` if there are none. -/
def Finds (obj : JavaObject) (methodName : JString) (top : Nat) (w : World σ) (m : Method)
    (objs : Objects) (w' : World σ) : Prop :=
  let picks clazz := Picks env Method.parameterTypes
    (methodCandidates (env.getMethods clazz) methodName top)
  let allRefuse clazz := AllRefuse env Method.parameterTypes
    (methodCandidates (env.getMethods clazz) methodName top)
  match env.asClass obj with
  | none => picks obj.getClass w m objs w'
  | some clazz =>
    (∃ first old w₁, picks clazz w first old w₁ ∧ picks clazz w₁ m objs w') ∨
      ∃ w₁, allRefuse clazz w w₁ ∧ picks env.javaLangClass w₁ m objs w'

section Relations
variable {env} {parameters : List JavaClass} {parameterTypes : M → List JavaClass} {j : Nat}
  {w w' : World σ} {objs : Objects} {ms : List M} {m c : M}

theorem convertArguments_eq_ok_iff :
    convertArguments env parameters (j + 2) w = .ok objs w' ↔
      Converts env parameters j w objs w' := by
  induction parameters generalizing j w objs with
  | nil =>
    constructor
    · intro h
      cases h
      exact .nil j _
    · intro h
      cases h
      rfl
  | cons parameter parameters ih =>
    have hnext : (j : Int) + 2 + 1 = (j + 1 : Nat) + 2 := by omega
    simp only [convertArguments, hnext, bind_eq_ok_iff]
    constructor
    · rintro ⟨obj, w₁, h, rest, w₂, hrest, hpure⟩
      cases hpure
      exact .cons h (ih.mp hrest)
    · intro h
      cases h with
      | cons h hs => exact ⟨_, _, h, _, _, ih.mpr hs, rfl⟩

theorem convertArguments_eq_error_iff :
    (∃ stop, convertArguments env parameters (j + 2) w = .error stop w' ∧ env.isException stop) ↔
      Refuses env parameters j w w' := by
  induction parameters generalizing j w with
  | nil =>
    constructor
    · rintro ⟨_, h, _⟩
      cases h
    · intro h
      cases h
  | cons parameter parameters ih =>
    have hnext : (j : Int) + 2 + 1 = (j + 1 : Nat) + 2 := by omega
    simp only [convertArguments, hnext, bind_eq_error_iff]
    constructor
    · rintro ⟨stop, h | ⟨obj, w₁, h, hrest | ⟨_, _, _, hpure⟩⟩, hstop⟩
      · exact .here h hstop
      · exact .later h (ih.mp ⟨stop, hrest, hstop⟩)
      · cases hpure
    · intro h
      cases h with
      | here h hstop => exact ⟨_, Or.inl h, hstop⟩
      | later h hs =>
        obtain ⟨stop, hrest, hstop⟩ := ih.mpr hs
        exact ⟨stop, Or.inr ⟨_, _, h, Or.inl hrest⟩, hstop⟩

theorem Converts.length_eq (h : Converts env parameters j w objs w') :
    objs.length = parameters.length := by
  induction h with
  | nil => rfl
  | cons _ _ ih => simp [ih]

/-- A refusal is an exception that the conversion of the arguments has thrown. -/
theorem tryArguments_run : tryArguments env parameters w =
    match convertArguments env parameters 2 w with
    | .ok objs w' => .ok (some objs) w'
    | .error stop w' => if env.isException stop then .ok none w' else .error stop w' := by
  simp only [tryArguments, catching, Functor.map, EStateM.map]
  cases convertArguments env parameters 2 w <;> rfl

theorem tryArguments_eq_some_iff :
    tryArguments env parameters w = .ok (some objs) w' ↔ Converts env parameters 0 w objs w' := by
  rw [← convertArguments_eq_ok_iff]
  rw [tryArguments_run, Nat.cast_zero, zero_add]
  cases convertArguments env parameters 2 w with
  | ok objs' w₁ => simp
  | error stop w₁ => cases hk : env.isException stop <;> simp [hk]

theorem tryArguments_eq_none_iff :
    tryArguments env parameters w = .ok none w' ↔ Refuses env parameters 0 w w' := by
  rw [← convertArguments_eq_error_iff]
  rw [tryArguments_run, Nat.cast_zero, zero_add]
  cases convertArguments env parameters 2 w with
  | ok objs' w₁ => simp
  | error stop w₁ => cases hk : env.isException stop <;> simp [hk]

theorem picks_cons : Picks env parameterTypes (c :: ms) w m objs w' ↔
    (m = c ∧ Converts env (parameterTypes c) 0 w objs w') ∨
      ∃ w₁, Refuses env (parameterTypes c) 0 w w₁ ∧
        Picks env parameterTypes ms w₁ m objs w' := by
  constructor
  · rintro ⟨before, after, w₁, hsplit, hbefore, hm⟩
    cases hbefore with
    | nil =>
      obtain ⟨rfl, rfl⟩ := List.cons.inj hsplit
      exact Or.inl ⟨rfl, hm⟩
    | cons hc hrest =>
      obtain ⟨rfl, rfl⟩ := List.cons.inj hsplit
      exact Or.inr ⟨_, hc, _, after, w₁, rfl, hrest, hm⟩
  · rintro (⟨rfl, hm⟩ | ⟨w₁, hc, before, after, w₂, rfl, hbefore, hm⟩)
    · exact ⟨[], ms, w, rfl, .nil w, hm⟩
    · exact ⟨c :: before, after, w₂, rfl, .cons hc hbefore, hm⟩

theorem not_picks_nil : ¬ Picks env parameterTypes [] w m objs w' := by
  rintro ⟨before, after, w₁, hsplit, _⟩
  simp at hsplit

theorem firstAccepting_eq_some_iff :
    firstAccepting env parameterTypes ms w = .ok (some (m, objs)) w' ↔
      Picks env parameterTypes ms w m objs w' := by
  induction ms generalizing w with
  | nil => exact iff_of_false (fun h => by cases h) not_picks_nil
  | cons c ms ih =>
    simp only [firstAccepting, picks_cons, bind_eq_ok_iff]
    constructor
    · rintro ⟨tried, w₁, htry, h⟩
      cases tried with
      | some new =>
        cases h
        exact Or.inl ⟨rfl, tryArguments_eq_some_iff.mp htry⟩
      | none => exact Or.inr ⟨w₁, tryArguments_eq_none_iff.mp htry, ih.mp h⟩
    · rintro (⟨rfl, h⟩ | ⟨w₁, hc, h⟩)
      · exact ⟨_, _, tryArguments_eq_some_iff.mpr h, rfl⟩
      · exact ⟨_, w₁, tryArguments_eq_none_iff.mpr hc, ih.mpr h⟩

theorem firstAccepting_eq_none_iff :
    firstAccepting env parameterTypes ms w = .ok none w' ↔
      AllRefuse env parameterTypes ms w w' := by
  induction ms generalizing w with
  | nil =>
    constructor
    · intro h
      cases h
      exact .nil _
    · intro h
      cases h
      rfl
  | cons c ms ih =>
    simp only [firstAccepting, bind_eq_ok_iff]
    constructor
    · rintro ⟨tried, w₁, htry, h⟩
      cases tried with
      | some new => cases h
      | none => exact .cons (tryArguments_eq_none_iff.mp htry) (ih.mp h)
    · intro h
      cases h with
      | cons hc hrest => exact ⟨_, _, tryArguments_eq_none_iff.mpr hc, ih.mpr hrest⟩

theorem length_of_firstAccepting {ms : List M} {m : M} {objs : Objects}
    (h : firstAccepting env parameterTypes ms w = .ok (some (m, objs)) w') :
    m ∈ ms ∧ objs.length = (parameterTypes m).length := by
  obtain ⟨before, after, w₁, rfl, _, hm⟩ := firstAccepting_eq_some_iff.mp h
  exact ⟨by simp, hm.length_eq⟩

end Relations

/-! ### What the loops leave in the array -/

section Loops
variable {parameterTypes : M → List JavaClass} {w w' : World σ}

theorem store_eq (objs : Objects) {j : Nat} (hj : j < objs.length) (obj : Option JavaObject) :
    store objs j obj w = .ok (objs.set j obj) w := by
  rw [store, if_pos hj]
  rfl

/-- If all parameters take their arguments, the array holds these from `j` on and what it held
before below. -/
theorem fill_spec (parameters : List JavaClass) (w : World σ) {j : Nat} {objs : Objects}
    (hlength : objs.length = j + parameters.length) :
    match convertArguments env parameters (j + 2) w with
    | .ok new w' => fill env parameters j objs w = .ok (true, objs.take j ++ new) w'
    | .error stop w' =>
      if env.isException stop then
        ∃ objs', objs'.length = objs.length ∧ fill env parameters j objs w = .ok (false, objs') w'
      else fill env parameters j objs w = .error stop w' := by
  induction parameters generalizing j objs w with
  | nil =>
    have hall : objs.take j = objs := List.take_of_length_le (Nat.le_of_eq hlength)
    simp only [convertArguments, fill, pure, EStateM.pure, hall, List.append_nil]
  | cons parameter parameters ih =>
    have hj : j < objs.length := by
      rw [hlength, List.length_cons]
      omega
    have hnext : (j : Int) + 2 + 1 = (j + 1 : Nat) + 2 := by omega
    simp only [convertArguments, fill, hnext, bind, EStateM.bind, catching]
    cases hobj : compareTypes env parameter (j + 2) w with
    | error stop w₁ =>
      dsimp only
      by_cases hk : env.isException stop
      · simp only [hk, if_true]
        exact ⟨objs, rfl, rfl⟩
      · simp [hk]
    | ok obj w₁ =>
      simp only [Functor.map, EStateM.map, store_eq objs hj]
      have hlength' : (objs.set j obj).length = j + 1 + parameters.length := by
        rw [List.length_set, hlength, List.length_cons]
        omega
      have hrest := ih w₁ hlength'
      cases hnew : convertArguments env parameters ((j + 1 : Nat) + 2) w₁ with
      | ok new w₂ =>
        simp only [hnew] at hrest
        have htake : (objs.set j obj).take (j + 1) = objs.take j ++ [obj] := by
          rw [List.take_succ_eq_append_getElem (by simpa using hj), List.getElem_set_self,
            List.take_set_of_le (Nat.le_refl j)]
        rw [htake, List.append_assoc] at hrest
        exact hrest
      | error stop w₂ =>
        simp only [hnew, List.length_set] at hrest
        exact hrest

/-- What `fill` returns, the array being left as it is if a parameter refuses. -/
def filled (left : Objects) : Option Objects → Bool × Objects
  | some new => (true, new)
  | none => (false, left)

theorem fill_eq {parameters : List JavaClass} {objs : Objects}
    (hlength : objs.length = parameters.length) (w : World σ) :
    ∃ left, left.length = objs.length ∧
      fill env parameters 0 objs w = (filled left <$> tryArguments env parameters) w := by
  have hstart : objs.length = 0 + parameters.length := by rw [hlength, Nat.zero_add]
  have hfill := fill_spec env parameters w hstart
  rw [Nat.cast_zero, zero_add] at hfill
  simp only [tryArguments, Functor.map, EStateM.map, catching]
  cases hnew : convertArguments env parameters 2 w with
  | ok new w₁ =>
    rw [hnew] at hfill
    exact ⟨objs, rfl, hfill⟩
  | error stop w₁ =>
    rw [hnew] at hfill
    by_cases hk : env.isException stop
    · simp only [hk, if_true] at hfill ⊢
      exact hfill
    · simp only [hk] at hfill ⊢
      exact ⟨objs, rfl, hfill⟩

/-- What a search returns, the array being left as it is if nothing is found. -/
def result (left : Objects) : Option (M × Objects) → Option M × Objects
  | some (m, objs) => (some m, objs)
  | none => (none, left)

/-- What a rejected candidate has stored is overwritten by the one that is found. -/
theorem search_eq {meant : M → Bool} (ms : List M) {objs : Objects}
    (hmeant : ∀ m, meant m → (parameterTypes m).length = objs.length) (w : World σ) :
    ∃ left, left.length = objs.length ∧ search env meant parameterTypes ms objs w =
      (result left <$> firstAccepting env parameterTypes (ms.filter meant)) w := by
  induction ms generalizing objs w with
  | nil => exact ⟨objs, rfl, rfl⟩
  | cons c ms ih =>
    by_cases hc : meant c
    · obtain ⟨left, hleft, hfill⟩ := fill_eq env (hmeant c hc).symm w
      rw [List.filter_cons_of_pos hc]
      unfold firstAccepting search
      rw [hc, Bool.not_true, if_neg Bool.false_ne_true]
      cases htry : tryArguments env (parameterTypes c) w with
      | error stop w₁ =>
        rw [map_eq_error htry] at hfill
        exact ⟨objs, rfl, (bind_of_error hfill).trans (map_eq_error (bind_of_error htry)).symm⟩
      | ok tried w₁ =>
        rw [map_eq_ok htry] at hfill
        cases tried with
        | some new =>
          refine ⟨objs, rfl, (bind_of_ok hfill).trans ?_⟩
          rw [map_bind, bind_of_ok htry]
          rfl
        | none =>
          have hmeant' : ∀ m, meant m → (parameterTypes m).length = left.length := fun m hm =>
            (hmeant m hm).trans hleft.symm
          obtain ⟨left', hleft', hrest⟩ := ih hmeant' w₁
          refine ⟨left', hleft'.trans hleft, (bind_of_ok hfill).trans (hrest.trans ?_)⟩
          rw [map_bind, bind_of_ok htry]
    · rw [List.filter_cons_of_neg hc]
      unfold search
      rw [if_pos (by simpa using hc)]
      exact ih hmeant w

theorem map_result_eq_some_iff {left objs : Objects} {m : M}
    {c : Code σ (Option (M × Objects))} {w w' : World σ} :
    (result left <$> c) w = .ok (some m, objs) w' ↔ c w = .ok (some (m, objs)) w' := by
  rw [map_eq_ok_iff]
  constructor
  · rintro ⟨found, hfound, hresult⟩
    cases found with
    | none => cases hresult
    | some r =>
      cases hresult
      exact hfound
  · exact fun hfound => ⟨_, hfound, rfl⟩

theorem map_result_eq_none_iff {left objs : Objects} {c : Code σ (Option (M × Objects))}
    {w w' : World σ} :
    (result left <$> c) w = .ok (none, objs) w' ↔ objs = left ∧ c w = .ok none w' := by
  rw [map_eq_ok_iff]
  constructor
  · rintro ⟨found, hfound, hresult⟩
    cases found with
    | none =>
      cases hresult
      exact ⟨rfl, hfound⟩
    | some r => cases hresult
  · rintro ⟨rfl, hfound⟩
    exact ⟨_, hfound, rfl⟩

theorem allocateArguments_eq {top : Nat} (htop : top ≠ 0) :
    (allocateArguments top : Code σ Unit) w = .ok () w := by
  rw [allocateArguments, if_neg htop]
  rfl

theorem allocateArguments_zero (w : World σ) {top : Nat} (htop : top = 0) :
    (allocateArguments top : Code σ Unit) w = .error
      (.throws (.runtimeException "java.lang.NegativeArraySizeException" "-1")) w := by
  rw [allocateArguments, if_pos htop]
  rfl

theorem newObjects_eq {top : Nat} (htop : top ≠ 0) :
    newObjects top w = .ok (List.replicate (top - 1) none) w :=
  bind_of_ok (allocateArguments_eq htop)

/-- There is room for all values but the object itself. -/
theorem length_newObjects {top : Nat} (htop : top ≠ 0) :
    top = (List.replicate (top - 1) (none : Option JavaObject)).length + 1 := by
  rw [List.length_replicate]
  omega

theorem copyInto_eq {objs retObjs : Objects} (h : objs.length = retObjs.length) :
    copyInto objs retObjs = objs := by
  induction objs generalizing retObjs with
  | nil => exact (List.length_eq_zero_iff.mp h.symm)
  | cons obj objs ih =>
    cases retObjs with
    | nil => cases h
    | cons old retObjs => rw [copyInto, ih (Nat.succ.inj h)]

end Loops

/-! ### The searches -/

section Searches
variable {env} {w w' : World σ} {methods : List Method} {constructors : List Constructor}
  {methodName : JString} {retObjs objs : Objects} {top : Nat} {m : Method} {c : Constructor}

theorem getMethod_eq (methods : List Method) (methodName : JString) (w : World σ)
    (htop : top = retObjs.length + 1) : getMethod env methods methodName retObjs top w =
      (result retObjs <$> firstAccepting env Method.parameterTypes
        (methodCandidates methods methodName top)) w := by
  have hmeant : ∀ m, isMeant methodName top m →
      m.parameterTypes.length = (List.replicate (top - 1) (none : Option JavaObject)).length :=
    fun m hm => (of_decide_eq_true hm).2.trans List.length_replicate.symm
  obtain ⟨left, _, hsearch⟩ := search_eq env methods hmeant w
  have hcandidates : methodCandidates methods methodName top =
    methods.filter (isMeant methodName top) := rfl
  rw [getMethod, bind_of_ok (newObjects_eq (by omega)), hcandidates]
  cases hfirst : firstAccepting env Method.parameterTypes
      (methods.filter (isMeant methodName top)) w with
  | error stop w' =>
    rw [map_eq_error hfirst] at hsearch ⊢
    exact bind_of_error hsearch
  | ok found w' =>
    rw [map_eq_ok hfirst] at hsearch ⊢
    apply (bind_of_ok hsearch).trans
    cases found with
    | none => rfl
    | some r =>
      obtain ⟨hm, hlength⟩ := length_of_firstAccepting hfirst
      have harity := (of_decide_eq_true (List.mem_filter.mp hm).2).2
      have hcopy : copyInto r.2 retObjs = r.2 := copyInto_eq (by omega)
      exact congrArg (fun objs => EStateM.Result.ok (some r.1, objs) w') hcopy

theorem getMethod_eq_some_iff (htop : top = retObjs.length + 1) :
    getMethod env methods methodName retObjs top w = .ok (some m, objs) w' ↔
      Picks env Method.parameterTypes (methodCandidates methods methodName top) w m objs w' := by
  rw [getMethod_eq _ _ _ htop, ← firstAccepting_eq_some_iff]
  exact map_result_eq_some_iff

theorem getMethod_eq_none_iff (htop : top = retObjs.length + 1) :
    getMethod env methods methodName retObjs top w = .ok (none, objs) w' ↔
      objs = retObjs ∧ AllRefuse env Method.parameterTypes
        (methodCandidates methods methodName top) w w' := by
  rw [getMethod_eq _ _ _ htop, ← firstAccepting_eq_none_iff]
  exact map_result_eq_none_iff

theorem length_of_getMethod (htop : top = retObjs.length + 1) {found : Option Method}
    (h : getMethod env methods methodName retObjs top w = .ok (found, objs) w') :
    top = objs.length + 1 := by
  cases found with
  | none => rw [((getMethod_eq_none_iff htop).mp h).1, htop]
  | some m =>
    have hfirst := firstAccepting_eq_some_iff.mpr ((getMethod_eq_some_iff htop).mp h)
    obtain ⟨hm, hlength⟩ := length_of_firstAccepting hfirst
    have harity := (of_decide_eq_true (List.mem_filter.mp hm).2).2
    omega

variable (env) in
theorem getConstructor_eq (constructors : List Constructor) (w : World σ)
    (htop : top = objs.length + 1) :
    ∃ left, getConstructor env constructors objs top w =
      (result left <$> firstAccepting env Constructor.parameterTypes
        (constructorCandidates constructors top)) w := by
  have hmeant : ∀ c, takesArguments top c → c.parameterTypes.length = objs.length := by
    intro c hc
    have harity := of_decide_eq_true hc
    omega
  obtain ⟨left, _, hsearch⟩ := search_eq env constructors hmeant w
  exact ⟨left, hsearch⟩

theorem getConstructor_eq_some_iff (htop : top = retObjs.length + 1) :
    getConstructor env constructors retObjs top w = .ok (some c, objs) w' ↔
      Picks env Constructor.parameterTypes (constructorCandidates constructors top) w c objs
        w' := by
  obtain ⟨left, hsearch⟩ := getConstructor_eq env constructors w htop
  rw [hsearch, ← firstAccepting_eq_some_iff]
  exact map_result_eq_some_iff

theorem getConstructor_eq_none_iff (htop : top = retObjs.length + 1) :
    (∃ objs, getConstructor env constructors retObjs top w = .ok (none, objs) w') ↔
      AllRefuse env Constructor.parameterTypes (constructorCandidates constructors top) w w' := by
  obtain ⟨left, hsearch⟩ := getConstructor_eq env constructors w htop
  simp only [hsearch, ← firstAccepting_eq_none_iff, map_result_eq_none_iff]
  exact ⟨fun ⟨_, _, h⟩ => h, fun h => ⟨left, rfl, h⟩⟩

theorem findMethod_eq_some_iff {obj : JavaObject} (htop : top = retObjs.length + 1) :
    findMethod env obj methodName retObjs top w = .ok (some m, objs) w' ↔
      Finds env obj methodName top w m objs w' := by
  unfold findMethod Finds
  cases env.asClass obj with
  | none => exact getMethod_eq_some_iff htop
  | some clazz =>
    dsimp only
    rw [bind_eq_ok_iff]
    constructor
    · rintro ⟨⟨found, old⟩, w₁, hfirst, hsecond⟩
      have hpicks := (getMethod_eq_some_iff (length_of_getMethod htop hfirst)).mp hsecond
      cases found with
      | none => exact Or.inr ⟨w₁, ((getMethod_eq_none_iff htop).mp hfirst).2, hpicks⟩
      | some first => exact Or.inl ⟨first, old, w₁, (getMethod_eq_some_iff htop).mp hfirst, hpicks⟩
    · rintro (⟨first, old, w₁, hfirst, hsecond⟩ | ⟨w₁, hfirst, hsecond⟩)
      · have hm := (getMethod_eq_some_iff htop).mpr hfirst
        have hm' := (getMethod_eq_some_iff (length_of_getMethod htop hm)).mpr hsecond
        exact ⟨(some first, old), w₁, hm, hm'⟩
      · have hm := (getMethod_eq_none_iff htop).mpr ⟨rfl, hfirst⟩
        exact ⟨(none, retObjs), w₁, hm, (getMethod_eq_some_iff htop).mpr hsecond⟩

end Searches

/-! ### The callers -/

def paired (r : Option M × Objects) : Option (M × Objects) := r.1.map fun m => (m, r.2)

@[simp] theorem paired_result (left : Objects) (found : Option (M × Objects)) :
    paired (result left found) = found := by
  cases found <;> rfl

theorem paired_map_result (left : Objects) (c : Code σ (Option (M × Objects))) :
    paired <$> result left <$> c = c := by
  simp

section Callers
variable {top : Nat} {retObjs : Objects}

theorem paired_getMethod (clazz : JavaClass) (methodName : JString) (w : World σ)
    (htop : top = retObjs.length + 1) :
    (paired <$> getMethod env (env.getMethods clazz) methodName retObjs top) w =
      JLuaAPI.getMethod env clazz methodName top w := by
  rw [map_congr_run paired (getMethod_eq (env.getMethods clazz) methodName w htop),
    paired_map_result]
  rfl

theorem paired_findMethod (obj : JavaObject) (methodName : JString) (w : World σ)
    (htop : top = retObjs.length + 1) :
    (paired <$> findMethod env obj methodName retObjs top) w =
      (match env.asClass obj with
      | some clazz => classMethod env clazz methodName top
      | none => JLuaAPI.getMethod env obj.getClass methodName top) w := by
  unfold findMethod
  cases env.asClass obj with
  | none => exact paired_getMethod env obj.getClass methodName w htop
  | some clazz =>
    dsimp only
    have hfirst : getMethod env (env.getMethods clazz) methodName retObjs top w =
      (result retObjs <$> JLuaAPI.getMethod env clazz methodName top) w := getMethod_eq _ _ _ htop
    unfold classMethod
    rw [map_bind]
    cases hclass : JLuaAPI.getMethod env clazz methodName top w with
    | error stop w₁ =>
      rw [map_eq_error hclass] at hfirst
      rw [bind_of_error hfirst, bind_of_error hclass]
    | ok found w₁ =>
      rw [map_eq_ok hclass] at hfirst
      rw [bind_of_ok hfirst, bind_of_ok hclass]
      have hlength := length_of_getMethod htop hfirst
      cases found with
      | none => exact paired_getMethod env env.javaLangClass methodName w₁ hlength
      | some r => exact paired_getMethod env clazz methodName w₁ hlength

/-- The arguments of the constructor are those that the search has stored last. -/
theorem getObjInstance_eq (clazz : JavaClass) :
    getObjInstance env clazz = JLuaAPI.getObjInstance env clazz := by
  funext w
  have htop : (LuaState.getTop : Code σ Nat) w = .ok w.stack.length w := rfl
  rw [getObjInstance, JLuaAPI.getObjInstance, bind_of_ok htop, bind_of_ok htop]
  by_cases hempty : w.stack.length = 0
  · have halloc := allocateArguments_zero w hempty
    rw [bind_of_error halloc]
    exact bind_of_error (bind_of_error halloc)
  · have hlength := length_newObjects hempty
    obtain ⟨left, hsearch⟩ := getConstructor_eq env (env.getConstructors clazz) w hlength
    rw [bind_of_ok (newObjects_eq hempty), bind_of_ok (allocateArguments_eq hempty)]
    cases hfirst : firstAccepting env Constructor.parameterTypes
        (constructorCandidates (env.getConstructors clazz) w.stack.length) w with
    | error stop w₁ =>
      rw [map_eq_error hfirst] at hsearch
      rw [bind_of_error hfirst]
      exact bind_of_error hsearch
    | ok found w₁ =>
      rw [map_eq_ok hfirst] at hsearch
      rw [bind_of_ok hfirst]
      apply (bind_of_ok hsearch).trans
      cases found <;> rfl

/-- The callback passes the array of its searches to the method that they find. -/
theorem objectIndex_eq (obj : JavaObject) (methodName : JString) :
    objectIndex env obj methodName = JLuaAPI.objectIndex env obj methodName := by
  funext w
  have htop : (LuaState.getTop : Code σ Nat) w = .ok w.stack.length w := rfl
  rw [objectIndex, JLuaAPI.objectIndex, bind_of_ok htop, bind_of_ok htop]
  by_cases hempty : w.stack.length = 0
  · have halloc := allocateArguments_zero w hempty
    rw [bind_of_error halloc]
    exact bind_of_error (bind_of_error halloc)
  · have hlength := length_newObjects hempty
    rw [bind_of_ok (newObjects_eq hempty), bind_of_ok (allocateArguments_eq hempty)]
    have hfind := paired_findMethod env obj methodName w hlength
    have hinvoke := bind_congr_run (invokeFound env obj) hfind
    rw [bind_map_left] at hinvoke
    cases hobj : env.asClass obj with
    | none =>
      simp only [hobj] at hinvoke
      exact hinvoke
    | some clazz =>
      by_cases hnew : methodName = javaString "new"
      · simp only [hnew, decide_true, getObjInstance_eq]
        rfl
      · simp only [hobj] at hinvoke
        simp only [hnew, decide_false]
        exact hinvoke

end Callers

/-- A search finds the first candidate that takes the arguments, with what they are converted to
for it and nothing else in the array, and it finds none exactly if none takes them. A second search
into the same array leaves nothing of the first. -/
theorem overload_search_exact :
    (∀ methods methodName retObjs w w',
      (∀ m objs, getMethod env methods methodName retObjs (retObjs.length + 1) w =
          .ok (some m, objs) w' ↔
        Picks env Method.parameterTypes
          (methodCandidates methods methodName (retObjs.length + 1)) w m objs w') ∧
      ∀ objs, getMethod env methods methodName retObjs (retObjs.length + 1) w =
          .ok (none, objs) w' ↔
        objs = retObjs ∧ AllRefuse env Method.parameterTypes
          (methodCandidates methods methodName (retObjs.length + 1)) w w') ∧
    (∀ constructors objs w w',
      (∀ c objs', getConstructor env constructors objs (objs.length + 1) w =
          .ok (some c, objs') w' ↔
        Picks env Constructor.parameterTypes
          (constructorCandidates constructors (objs.length + 1)) w c objs' w') ∧
      ((∃ objs', getConstructor env constructors objs (objs.length + 1) w =
          .ok (none, objs') w') ↔
        AllRefuse env Constructor.parameterTypes
          (constructorCandidates constructors (objs.length + 1)) w w')) ∧
    ∀ obj methodName objs w w' m objs',
      findMethod env obj methodName objs (objs.length + 1) w = .ok (some m, objs') w' ↔
        Finds env obj methodName (objs.length + 1) w m objs' w' := by
  refine ⟨fun methods methodName retObjs w w' => ⟨fun m objs => ?_, fun objs => ?_⟩,
    fun constructors objs w w' => ⟨fun c objs' => ?_, ?_⟩,
    fun obj methodName objs w w' m objs' => ?_⟩
  · exact getMethod_eq_some_iff rfl
  · exact getMethod_eq_none_iff rfl
  · exact getConstructor_eq_some_iff rfl
  · exact getConstructor_eq_none_iff rfl
  · exact findMethod_eq_some_iff rfl

def flagMethod : Method :=
  ⟨javaString "f", [.primitive .int, .primitive .boolean], .primitive .void, .declared 1, false⟩

def sizeMethod : Method :=
  ⟨javaString "f", [.primitive .double, .primitive .long], .primitive .void, .declared 1, false⟩

def demoWorld : World Unit :=
  ⟨⟨1, [.userdata 0, .number (.ofInt _ 1), .number (.ofInt _ 2)], ⟨fun _ => .nil, 0⟩,
    [.java (.object 1 0)]⟩, ()⟩

/-- `f(int, boolean)` refuses the second number after it has taken the first one as an `int`. -/
example : getMethod (.plain .plain fun _ => []) [flagMethod, sizeMethod] (javaString "f")
    [none, none] 3 demoWorld =
      .ok (some sizeMethod, [some (.double (.ofInt _ 1)), some (.long (longValue (.ofInt _ 2)))])
        demoWorld := rfl

end JLua.OverloadSearch
