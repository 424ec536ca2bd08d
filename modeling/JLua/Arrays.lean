import JLua.Calls
import JLua.Native

/-!
# Array indices and lengths on their way from Lua to Java

A Lua number is a double. It becomes a `lua_Integer` and then a `jint`; what is lost on the way is
not noticed by the checks on the other side.
-/

namespace JLua.Arrays

open BinaryFloat Calls Conversion JLuaAPI Native OutcomeRules Pushing
set_option autoImplicit false

variable {σ : Type}

/-- The arrays of the Java heap under `java.lang.reflect.Array`. `stored` is a value as a component
keeps it: unboxed and widened. -/
structure ArrayHeap (env : Env σ) where
  elements : σ → JavaObject → List (Option JavaObject)
  stored : JavaClass → Option JavaObject → Option JavaObject
  length_eq : ∀ obj s, obj.isArray → env.getLength obj = (elements s obj).length
  length_lt : ∀ obj, env.getLength obj < 2 ^ 31
  get : ∀ obj s i v, (elements s obj)[i]? = some v → env.arrayGet obj i s = (.ok v, s)
  set : ∀ obj s i v, obj.isArray → i < (elements s obj).length →
    isLegalArgument env.host.classes (componentType obj) v →
    ∃ s', env.arraySet obj i v s = (.ok (), s') ∧
      elements s' obj = (elements s obj).set i (stored (componentType obj) v) ∧
      ∀ other, other ≠ obj → elements s' other = elements s other

/-- The number is this integer. -/
def Denotes (n : Double) (i : Int) : Prop := n.value = some (i : ℚ)

/-- What Java is given for a number. -/
def jint (B : Bridge σ) (n : Double) : Int := (luaNumber2integer B n).toInt32.toInt

theorem Denotes.unique {n : Double} {i j : Int} (hi : Denotes n i) (hj : Denotes n j) : i = j := by
  have h := hi.symm.trans hj
  rw [Option.some.injEq] at h
  exact_mod_cast h

theorem integralPart_of_denotes {n : Double} {i : Int} (h : Denotes n i) :
    integralPart n = some i := by
  cases n with
  | nan | inf => simp [Denotes, Number.value] at h
  | zero =>
    simp only [Denotes, Number.value, Option.some.injEq] at h
    have hi : i = 0 := by exact_mod_cast h.symm
    rw [hi, integralPart]
  | finite m e fits => rw [integralPart, Number.truncate_of_value fits h]

/-- An integer with room in a `jint` arrives as it is. -/
theorem jint_of_denotes (B : Bridge σ) {n : Double} {i : Int} (h : Denotes n i) (hlo : 0 ≤ i)
    (hhi : i < 2 ^ 31) : jint B n = i := by
  have hrange : -2 ^ 63 ≤ i ∧ i < 2 ^ 63 := by omega
  rw [jint, luaNumber2integer, integralPart_of_denotes h]
  simp only [hrange, and_self, if_true, Int64.toInt32_ofInt]
  exact Int32.toInt_ofInt_of_le (by omega) (by omega)

/-! ### The callbacks -/

section Callbacks
variable {env : Env σ} {obj : JavaObject} {w : World σ}

theorem checkIndex_past (harray : obj.isArray = true) {index : Int}
    (h : env.getLength obj < index) :
    checkIndex env obj index w =
      .error (.throws (.luaException (some "Index out of bounds."))) w := by
  simp only [checkIndex, harray, h]
  rfl

theorem checkIndex_within (harray : obj.isArray = true) {index : Int}
    (h : index ≤ env.getLength obj) : checkIndex env obj index w = .ok () w := by
  have hnot : ¬ env.getLength obj < index := by omega
  simp only [checkIndex, harray, hnot]
  rfl

theorem previous_below {index : Int} (h : index ≤ 0) (hlo : -2 ^ 31 ≤ index) {length : Int}
    (hlength : length < 2 ^ 31) : previous index < 0 ∨ length ≤ previous index := by
  unfold previous
  split <;> omega

theorem previous_within {index : Int} (h : 1 ≤ index) : previous index = index - 1 := by
  unfold previous
  split
  · omega
  · rfl

theorem arrayGet_outside {index : Int} (h : index < 0 ∨ env.getLength obj ≤ index) :
    arrayGet env obj index w = .error (.throws (arrayIndexOutOfBounds index)) w := by
  rw [arrayGet, if_pos h]
  rfl

theorem arraySet_outside {index : Int} (h : index < 0 ∨ env.getLength obj ≤ index)
    (value : Option JavaObject) :
    arraySet env obj index value w = .error (.throws (arrayIndexOutOfBounds index)) w := by
  rw [arraySet, if_pos h]
  rfl

/-- Outside of `1..length` the callback throws and has changed nothing. -/
theorem arrayIndex_outside (harray : obj.isArray = true) (hlength : env.getLength obj < 2 ^ 31)
    {index : Int} (hlo : -2 ^ 31 ≤ index) (h : ¬ (1 ≤ index ∧ index ≤ env.getLength obj)) :
    ∃ t, JLuaAPI.arrayIndex env obj index w = .error (.throws t) w := by
  rcases Int.lt_or_le (env.getLength obj) index with hpast | hwithin
  · exact ⟨_, bind_of_error (checkIndex_past harray hpast)⟩
  · have hprevious : previous index < 0 ∨ env.getLength obj ≤ previous index :=
      previous_below (by omega) hlo hlength
    refine ⟨arrayIndexOutOfBounds (previous index), ?_⟩
    rw [JLuaAPI.arrayIndex, bind_of_ok (checkIndex_within harray hwithin)]
    exact bind_of_error (arrayGet_outside hprevious)

theorem arrayIndex_within (A : ArrayHeap env) (harray : obj.isArray = true) {i : Nat}
    {v : Option JavaObject} (hv : (A.elements w.rest obj)[i]? = some v) :
    JLuaAPI.arrayIndex env obj (i + 1) w = pushOne env v w := by
  obtain ⟨hlt, _⟩ := List.getElem?_eq_some_iff.mp hv
  have hlen := A.length_eq obj w.rest harray
  have hinside : ¬ ((i : Int) < 0 ∨ env.getLength obj ≤ i) := by omega
  have hget : arrayGet env obj (previous (i + 1)) w = .ok v w := by
    rw [previous_within (by omega), Int.add_sub_cancel, arrayGet, if_neg hinside, Int.toNat_natCast]
    exact library_run (A.get obj w.rest i v hv)
  rw [JLuaAPI.arrayIndex, bind_of_ok (checkIndex_within harray (by omega)), bind_of_ok hget]

variable {x : Option JavaObject} {w₁ : World σ}

theorem arrayNewIndex_outside (harray : obj.isArray = true) (hlength : env.getLength obj < 2 ^ 31)
    (hconvert : JLuaAPI.compareTypes env (componentType obj) 3 w = .ok x w₁) {index : Int}
    (hlo : -2 ^ 31 ≤ index) (h : ¬ (1 ≤ index ∧ index ≤ env.getLength obj)) :
    ∃ t w', JLuaAPI.arrayNewIndex env obj index w = .error (.throws t) w' ∧
      (w' = w ∨ w' = w₁) := by
  rcases Int.lt_or_le (env.getLength obj) index with hpast | hwithin
  · exact ⟨_, w, bind_of_error (checkIndex_past harray hpast), Or.inl rfl⟩
  · have hprevious : previous index < 0 ∨ env.getLength obj ≤ previous index :=
      previous_below (by omega) hlo hlength
    refine ⟨arrayIndexOutOfBounds (previous index), w₁, ?_, Or.inr rfl⟩
    rw [JLuaAPI.arrayNewIndex, bind_of_ok (checkIndex_within harray hwithin), bind_of_ok hconvert]
    exact bind_of_error (arraySet_outside hprevious x)

theorem arrayNewIndex_within (A : ArrayHeap env) (harray : obj.isArray = true)
    (hconvert : JLuaAPI.compareTypes env (componentType obj) 3 w = .ok x w₁)
    (hlegal : isLegalArgument env.host.classes (componentType obj) x = true) {i : Nat}
    (hi : i < (A.elements w₁.rest obj).length) :
    ∃ s', JLuaAPI.arrayNewIndex env obj (i + 1) w = .ok 0 { w₁ with rest := s' } ∧
      A.elements s' obj = (A.elements w₁.rest obj).set i (A.stored (componentType obj) x) ∧
      ∀ other, other ≠ obj → A.elements s' other = A.elements w₁.rest other := by
  obtain ⟨s', hs', hself, hothers⟩ := A.set obj w₁.rest i x harray hi hlegal
  have hlen := A.length_eq obj w₁.rest harray
  have hinside : ¬ ((i : Int) < 0 ∨ env.getLength obj ≤ i) := by omega
  have hset : arraySet env obj (previous (i + 1)) x w₁ = .ok () { w₁ with rest := s' } := by
    rw [previous_within (by omega), Int.add_sub_cancel, arraySet, if_neg hinside, if_pos hlegal,
      Int.toNat_natCast]
    exact library_run hs'
  refine ⟨s', ?_, hself, hothers⟩
  rw [JLuaAPI.arrayNewIndex, bind_of_ok (checkIndex_within harray (by omega)),
    bind_of_ok hconvert, bind_of_ok hset]
  rfl

end Callbacks

/-! ### The C functions -/

section Functions
variable {env : Env σ} {B : Bridge σ} {w : World σ} {a : Nat} {obj : JavaObject} {n : Double}

/-- `a[n]` reaches the callback with the `jint`. -/
theorem arrayIndex_run (hopened : Opened B w.heap)
    (hobj : getObjectFromUserdata w.lua (.userdata a) = some obj) :
    Native.arrayIndex env B (w.setStack [.userdata a, .number n]) =
      handleException env B (JLuaAPI.arrayIndex env obj (jint B n))
        (w.setStack [.userdata a, .number n]) := by
  let w' := w.setStack [.userdata a, .number n]
  have hopened' : Opened B w'.heap := hopened
  obtain ⟨stateIndex, hindex⟩ := hopened'.getLuaStateIndex
  have hnumber : LuaState.isNumber env (-1) w' = .ok true w' := rfl
  have hstring : (LuaState.isString (-1) : Code σ Bool) w' = .ok true w' := rfl
  have hkey : luaTointeger env B (-1) w' = .ok (luaNumber2integer B n) w' := rfl
  rw [Native.arrayIndex, bind_of_ok hnumber, bind_of_ok hstring, if_neg (by decide),
    if_neg (by decide)]
  rw [bind_of_ok hindex, bind_of_ok hkey, bind_of_ok (javaObject_run 1 hobj _),
    bind_of_ok hopened'.getEnvFromStateCheck]
  rfl

theorem arrayNewIndex_run (hopened : Opened B w.heap)
    (hobj : getObjectFromUserdata w.lua (.userdata a) = some obj) (v : Value) :
    Native.arrayNewIndex env B (w.setStack [.userdata a, .number n, v]) =
      handleException env B (JLuaAPI.arrayNewIndex env obj (jint B n))
        (w.setStack [.userdata a, .number n, v]) := by
  let w' := w.setStack [.userdata a, .number n, v]
  have hopened' : Opened B w'.heap := hopened
  obtain ⟨stateIndex, hindex⟩ := hopened'.getLuaStateIndex
  have hnumber : LuaState.isNumber env 2 w' = .ok true w' := rfl
  have hkey : luaTointeger env B 2 w' = .ok (luaNumber2integer B n) w' := rfl
  rw [Native.arrayNewIndex, bind_of_ok hindex, bind_of_ok (javaObject_run 1 hobj _),
    bind_of_ok hnumber]
  rw [if_neg (by decide), bind_of_ok hkey, bind_of_ok hopened'.getEnvFromStateCheck]
  rfl

theorem newArray_run (hopened : Opened B w.heap) (c : List UInt8) :
    Native.newArray env B (w.setStack [.string c, .number n]) =
      handleException env B
        (JLuaAPI.newArray env (env.host.newStringUTF (ModifiedUtf8.cString c)) (jint B n))
        (w.setStack [.string c, .number n]) := by
  let w' := w.setStack [.string c, .number n]
  have hopened' : Opened B w'.heap := hopened
  obtain ⟨stateIndex, hindex⟩ := hopened'.getLuaStateIndex
  have htop : (LuaState.getTop : Code σ Nat) w' = .ok 2 w' := rfl
  have hstring : (LuaState.isString 1 : Code σ Bool) w' = .ok true w' := rfl
  have hname : LuaState.toString env 1 w' =
      .ok (some (env.host.newStringUTF (ModifiedUtf8.cString c))) w' := rfl
  have hnumber : LuaState.isNumber env 2 w' = .ok true w' := rfl
  have hlength : luaTointeger env B 2 w' = .ok (luaNumber2integer B n) w' := rfl
  rw [Native.newArray, bind_of_ok htop, if_neg (by decide), bind_of_ok hindex,
    bind_of_ok hopened'.getEnvFromStateCheck, bind_of_ok hstring]
  rw [if_neg (by decide), bind_of_ok hname, bind_of_ok hnumber, if_neg (by decide),
    bind_of_ok hlength]
  rfl

end Functions

/-! ### When the number is what Java uses -/

section Exact
variable (env : Env σ) (B : Bridge σ) (w : World σ) (a : Nat) (obj : JavaObject) (n : Double)

/-- `n` is an integer in `1..length`. -/
def IsIndex : Prop := ∃ i : Nat, (i : Int) < env.getLength obj ∧ Denotes n (i + 1)

variable {env} in
/-- `a[n]` pushes the element at `n - 1`, or goes to the exception handler with the Java heap as it
was. -/
structure ReadsExactly (A : ArrayHeap env) : Prop where
  element : ∀ (i : Nat) v, Denotes n (i + 1) → (A.elements w.rest obj)[i]? = some v →
    Native.arrayIndex env B (w.setStack [.userdata a, .number n]) =
      handleException env B (pushOne env v) (w.setStack [.userdata a, .number n])
  otherwise : ¬ IsIndex env obj n → ∃ t w',
    Native.arrayIndex env B (w.setStack [.userdata a, .number n]) = raiseException env B t w' ∧
      w'.rest = w.rest

variable {env} in
/-- `a[n] = v` with `v` converted to `x`, which leaves the world `w₁`: it stores `x` at `n - 1` and
changes no other element, or goes to the exception handler before it has stored anything. -/
structure WritesExactly (A : ArrayHeap env) (v : Value) (x : Option JavaObject)
    (w₁ : World σ) : Prop where
  element : ∀ i : Nat, Denotes n (i + 1) → (i : Int) < env.getLength obj → ∃ s',
    Native.arrayNewIndex env B (w.setStack [.userdata a, .number n, v]) =
      .ok 0 { w₁ with rest := s' } ∧
      A.elements s' obj = (A.elements w₁.rest obj).set i (A.stored (componentType obj) x) ∧
      ∀ other, other ≠ obj → A.elements s' other = A.elements w₁.rest other
  otherwise : ¬ IsIndex env obj n → ∃ t w',
    Native.arrayNewIndex env B (w.setStack [.userdata a, .number n, v]) =
      raiseException env B t w' ∧ (w'.rest = w.rest ∨ w'.rest = w₁.rest)

/-- `jlua.newArray(c, n)` pushes an array of length `n`, or goes to the exception handler. -/
structure CreatesExactly (c : List UInt8) : Prop where
  length : ∀ k : Nat, k < 2 ^ 31 → Denotes n k → ∃ arr w₂,
    Native.newArray env B (w.setStack [.string c, .number n]) = .ok 1 w₂ ∧
      getObjectFromUserdata w₂.lua (LuaState.valueAt w₂ (-1)) = some arr ∧ env.getLength arr = k
  otherwise : (¬ ∃ k : Nat, k < 2 ^ 31 ∧ Denotes n k) → ∃ t w₂,
    Native.newArray env B (w.setStack [.string c, .number n]) = raiseException env B t w₂

/-- The name is that of a class, and the JVM has room for an array of the length that is asked of
it. -/
structure Allocates (c : List UInt8) (component : JavaClass) (w₁ : World σ) : Prop where
  found : arrayClass env (env.host.newStringUTF (ModifiedUtf8.cString c))
    (w.setStack [.string c, .number n]) = .ok component w₁
  room : ∀ k : Nat, jint B n = k → ∃ arr s', env.newArray component k w₁.rest = (.ok arr, s') ∧
    env.getLength arr = k

variable {env B w a obj n}

theorem jint_bounds (B : Bridge σ) (n : Double) : -2 ^ 31 ≤ jint B n ∧ jint B n < 2 ^ 31 :=
  ⟨Int32.le_toInt _, Int32.toInt_lt _⟩

theorem readsExactly_of (A : ArrayHeap env) (hopened : Opened B w.heap)
    (hobj : getObjectFromUserdata w.lua (.userdata a) = some obj) (harray : obj.isArray = true)
    (h : IsIndex env obj n ∨ ¬ (1 ≤ jint B n ∧ jint B n ≤ env.getLength obj)) :
    ReadsExactly B w a obj n A where
  element i v hn hv := by
    have hlt := A.length_lt obj
    have hlen := A.length_eq obj w.rest harray
    obtain ⟨hi, _⟩ := List.getElem?_eq_some_iff.mp hv
    have hjint := jint_of_denotes B hn (by omega) (by omega)
    have hwithin := arrayIndex_within (w := w.setStack [.userdata a, .number n]) A harray hv
    rw [arrayIndex_run hopened hobj, hjint]
    simp only [handleException, hwithin]
  otherwise hnot := by
    have houtside := h.resolve_left hnot
    obtain ⟨t, ht⟩ := arrayIndex_outside (w := w.setStack [.userdata a, .number n]) harray
      (A.length_lt obj) (jint_bounds B n).1 houtside
    refine ⟨t, w.setStack [.userdata a, .number n], ?_, rfl⟩
    rw [arrayIndex_run hopened hobj]
    exact handleException_error ht

theorem writesExactly_iff (A : ArrayHeap env) (hopened : Opened B w.heap)
    (hobj : getObjectFromUserdata w.lua (.userdata a) = some obj) (harray : obj.isArray = true)
    {v : Value} {x : Option JavaObject} {w₁ : World σ}
    (hconvert : JLuaAPI.compareTypes env (componentType obj) 3
      (w.setStack [.userdata a, .number n, v]) = .ok x w₁)
    (hlegal : isLegalArgument env.host.classes (componentType obj) x = true) :
    WritesExactly B w a obj n A v x w₁ ↔
      IsIndex env obj n ∨ ¬ (1 ≤ jint B n ∧ jint B n ≤ env.getLength obj) := by
  have hlt := A.length_lt obj
  have hlen := A.length_eq obj w₁.rest harray
  constructor
  · intro h
    by_contra hnot
    obtain ⟨hindex, hinside⟩ := not_or.mp hnot
    obtain ⟨t, w', hrun, _⟩ := h.otherwise hindex
    -- the number has landed on a valid element all the same
    obtain ⟨i, hi⟩ : ∃ i : Nat, jint B n = i + 1 := ⟨(jint B n - 1).toNat, by omega⟩
    obtain ⟨s', hset, _⟩ := arrayNewIndex_within A harray hconvert hlegal (i := i) (by omega)
    rw [arrayNewIndex_run hopened hobj, hi, handleException_ok hset] at hrun
    exact raiseException_ne_ok hrun.symm
  · intro h
    constructor
    · intro i hn hi
      have hjint := jint_of_denotes B hn (by omega) (by omega)
      obtain ⟨s', hset, hself, hothers⟩ :=
        arrayNewIndex_within A harray hconvert hlegal (i := i) (by omega)
      refine ⟨s', ?_, hself, hothers⟩
      rw [arrayNewIndex_run hopened hobj, hjint, handleException_ok hset]
    · intro hnot
      obtain ⟨t, w', ht, hw'⟩ := arrayNewIndex_outside harray hlt hconvert (jint_bounds B n).1
        (h.resolve_left hnot)
      refine ⟨t, w', ?_, ?_⟩
      · rw [arrayNewIndex_run hopened hobj, handleException_error ht]
      · rcases hw' with rfl | rfl
        · exact Or.inl rfl
        · exact Or.inr rfl

theorem isArray_of_getClass {arr : JavaObject} {component : JavaClass}
    (h : arr.getClass = .array component) : arr.isArray = true := by
  cases arr <;> first | rfl | cases h

variable (env) in
/-- An array is pushed whatever the checker says. -/
theorem pushOne_array {arr : JavaObject} (harr : arr.isArray = true) (w : World σ) :
    ∃ w₂, pushOne env (some arr) w = .ok 1 w₂ ∧
      getObjectFromUserdata w₂.lua (LuaState.valueAt w₂ (-1)) = some arr := by
  have hpush : LuaState.pushObjectValue env (some arr) w =
      .ok () { w with lua := w.lua.pushUserdata arr } := by
    cases arr with
    | array | byteArray => rfl
    | _ => cases harr
  exact pushOne_userdata hpush

theorem newArray_negative {className : JString} {component : JavaClass} {w' w₁ : World σ}
    (hfound : arrayClass env className w' = .ok component w₁) {length : Int} (h : length < 0) :
    ∃ t, JLuaAPI.newArray env className length w' = .error (.throws t) w₁ := by
  refine ⟨.runtimeException "java.lang.NegativeArraySizeException"
    (javaString (ToString.toString length)), ?_⟩
  have hallocate : allocateArray env component length w₁ = .error (.throws
      (.runtimeException "java.lang.NegativeArraySizeException"
        (javaString (ToString.toString length)))) w₁ := by
    rw [allocateArray, if_pos h]
    rfl
  rw [JLuaAPI.newArray, bind_of_ok hfound]
  exact bind_of_error hallocate

theorem newArray_natural {className : JString} {component : JavaClass} {w' w₁ : World σ}
    (hfound : arrayClass env className w' = .ok component w₁) {k : Nat} {arr : JavaObject} {s' : σ}
    (hroom : env.newArray component k w₁.rest = (.ok arr, s')) :
    ∃ w₂, JLuaAPI.newArray env className k w' = .ok 1 w₂ ∧
      getObjectFromUserdata w₂.lua (LuaState.valueAt w₂ (-1)) = some arr := by
  have hnot : ¬ (k : Int) < 0 := by omega
  have hallocate : allocateArray env component k w₁ = .ok arr { w₁ with rest := s' } := by
    rw [allocateArray, if_neg hnot, Int.toNat_natCast]
    exact library_run hroom
  obtain ⟨w₂, hpush, htop⟩ := pushOne_array env
    (isArray_of_getClass (env.getClass_newArray _ _ _ _ _ hroom)) { w₁ with rest := s' }
  refine ⟨w₂, ?_, htop⟩
  rw [JLuaAPI.newArray, bind_of_ok hfound, bind_of_ok hallocate, hpush]

theorem createsExactly_iff (hopened : Opened B w.heap) {c : List UInt8} {component : JavaClass}
    {w₁ : World σ} (halloc : Allocates env B w n c component w₁) :
    CreatesExactly env B w n c ↔ (∃ k : Nat, k < 2 ^ 31 ∧ Denotes n k) ∨ jint B n < 0 := by
  constructor
  · intro h
    by_contra hnot
    obtain ⟨hnone, hnonneg⟩ := not_or.mp hnot
    obtain ⟨t, w₂, hrun⟩ := h.otherwise hnone
    -- what is left of the number is a length
    obtain ⟨k, hk⟩ : ∃ k : Nat, jint B n = k := ⟨(jint B n).toNat, by omega⟩
    obtain ⟨arr, s', hroom, _⟩ := halloc.room k hk
    obtain ⟨w₃, hcreate, _⟩ := newArray_natural halloc.found hroom
    rw [newArray_run hopened, hk, handleException_ok hcreate] at hrun
    exact raiseException_ne_ok hrun.symm
  · intro h
    constructor
    · intro k hk hn
      have hjint := jint_of_denotes B hn (by omega) (by omega)
      obtain ⟨arr, s', hroom, hlength⟩ := halloc.room k hjint
      obtain ⟨w₂, hcreate, htop⟩ := newArray_natural halloc.found hroom
      refine ⟨arr, w₂, ?_, htop, hlength⟩
      rw [newArray_run hopened, hjint, handleException_ok hcreate]
    · intro hnone
      obtain ⟨t, ht⟩ := newArray_negative halloc.found (h.resolve_left hnone)
      refine ⟨t, w₁, ?_⟩
      rw [newArray_run hopened, handleException_error ht]

/-- Reading and writing are exact for a number exactly if it is a valid index or its `jint` is not
one either; creating is exact if it is a length or its `jint` is negative. -/
theorem array_access_exact_iff (A : ArrayHeap env) (hopened : Opened B w.heap)
    (hobj : getObjectFromUserdata w.lua (.userdata a) = some obj) (harray : obj.isArray = true)
    {v : Value} {x : Option JavaObject} {w₁ : World σ}
    (hconvert : JLuaAPI.compareTypes env (componentType obj) 3
      (w.setStack [.userdata a, .number n, v]) = .ok x w₁)
    (hlegal : isLegalArgument env.host.classes (componentType obj) x = true)
    {c : List UInt8} {component : JavaClass} {w₂ : World σ}
    (halloc : Allocates env B w n c component w₂) :
    ((ReadsExactly B w a obj n A ∧ WritesExactly B w a obj n A v x w₁) ↔
      IsIndex env obj n ∨ ¬ (1 ≤ jint B n ∧ jint B n ≤ env.getLength obj)) ∧
    (CreatesExactly env B w n c ↔ (∃ k : Nat, k < 2 ^ 31 ∧ Denotes n k) ∨ jint B n < 0) := by
  refine ⟨?_, createsExactly_iff hopened halloc⟩
  rw [writesExactly_iff A hopened hobj harray hconvert hlegal]
  exact ⟨And.right, fun h => ⟨readsExactly_of A hopened hobj harray h, h⟩⟩

end Exact

/-! ### Arrays whose components are all true -/

def trueArrayLength : JavaObject → Nat
  | .array _ ref => ref % 2 ^ 31
  | _ => 0

theorem trueArrayLength_lt (obj : JavaObject) : trueArrayLength obj < 2 ^ 31 := by
  cases obj with
  | array c ref => exact Nat.mod_lt ref (Nat.two_pow_pos 31)
  | _ => exact Nat.two_pow_pos 31

def trueArrays : Env Unit :=
  { Env.plain .plain fun _ => [] with
    getLength := fun obj => trueArrayLength obj
    arrayGet := fun _ _ s => (.ok (some (.boolean true)), s)
    newArray := fun c n s => (.ok (.array c n), s)
    getClass_newArray := by
      rintro c n s obj s' ⟨⟩
      rfl }

def trueArrayHeap : ArrayHeap trueArrays where
  elements _ obj := List.replicate (trueArrayLength obj) (some (.boolean true))
  stored _ _ := some (.boolean true)
  length_eq obj s _ := by simp [trueArrays]
  length_lt obj := by
    have hlt := trueArrayLength_lt obj
    have hlength : trueArrays.getLength obj = trueArrayLength obj := rfl
    omega
  get obj s i v h := by
    obtain ⟨_, hv⟩ := List.getElem?_eq_some_iff.mp h
    rw [List.getElem_replicate] at hv
    subst hv
    rfl
  set obj s i v _ _ _ := ⟨s, rfl, by simp, fun _ _ => rfl⟩

def twoTrue : JavaObject := .array (.primitive .boolean) 2

def arrayWorld : World Unit := ⟨⟨1, [], ⟨fun _ => .nil, 0⟩, [.java twoTrue]⟩, ()⟩

def one : Double := .finite 1 0 (by decide)

def oneAndAHalf : Double := .finite 3 (-1) (by decide)

/-- The name `boolean`. -/
def booleanName : List UInt8 := [98, 111, 111, 108, 101, 97, 110]

theorem allocates_boolean (n : Double) : Allocates trueArrays .plain arrayWorld n booleanName
    (.primitive .boolean) (arrayWorld.setStack [.string booleanName, .number n]) where
  found := by
    have hname : trueArrays.host.newStringUTF (ModifiedUtf8.cString booleanName) =
        javaString "boolean" := by decide +kernel
    have hfind : primitiveNames.find? (javaString ·.1 = javaString "boolean") =
        some ("boolean", .boolean) := by decide +kernel
    rw [hname, arrayClass, hfind]
    rfl
  room k hk := by
    have hlt := (jint_bounds (σ := Unit) .plain n).2
    refine ⟨.array (.primitive .boolean) k, (), rfl, congrArg Nat.cast (Nat.mod_eq_of_lt ?_)⟩
    omega

theorem array_access_exact_iff_one :
    ((ReadsExactly .plain arrayWorld 0 twoTrue one trueArrayHeap ∧
      WritesExactly .plain arrayWorld 0 twoTrue one trueArrayHeap (.boolean true)
        (some (.boolean true))
        (arrayWorld.setStack [.userdata 0, .number one, .boolean true])) ↔
      IsIndex trueArrays twoTrue one ∨
        ¬ (1 ≤ jint (σ := Unit) .plain one ∧
          jint (σ := Unit) .plain one ≤ trueArrays.getLength twoTrue)) ∧
    (CreatesExactly trueArrays .plain arrayWorld one booleanName ↔
      (∃ k : Nat, k < 2 ^ 31 ∧ Denotes one k) ∨ jint (σ := Unit) .plain one < 0) :=
  array_access_exact_iff (w := arrayWorld) (n := one) trueArrayHeap ⟨rfl, rfl⟩ rfl rfl
    (v := .boolean true) rfl rfl (allocates_boolean one)

/-- `a[1.5]` reads the first element. -/
theorem half_index_reads :
    jint (σ := Unit) .plain oneAndAHalf = 1 ∧ ¬ IsIndex trueArrays twoTrue oneAndAHalf ∧
    (∃ w', Native.arrayIndex trueArrays .plain
      (arrayWorld.setStack [.userdata 0, .number oneAndAHalf]) = .ok 1 w' ∧
      LuaState.valueAt w' (-1) = .boolean true) ∧
    ¬ ReadsExactly .plain arrayWorld 0 twoTrue oneAndAHalf trueArrayHeap := by
  have hindex : ¬ IsIndex trueArrays twoTrue oneAndAHalf := by
    rintro ⟨i, _, hn⟩
    have hpart := integralPart_of_denotes hn
    have hi : i = 0 := by
      have hone : integralPart oneAndAHalf = some 1 := by decide
      rw [hone, Option.some.injEq] at hpart
      omega
    subst hi
    have hvalue : (3 : ℚ) * 2 ^ (-1 : ℤ) = 1 := by
      simpa [Denotes, oneAndAHalf, Number.value] using hn
    norm_num at hvalue
  refine ⟨by decide, hindex, ⟨_, rfl, rfl⟩, ?_⟩
  intro h
  obtain ⟨t, w', hrun, _⟩ := h.otherwise hindex
  have hread : ∃ w', Native.arrayIndex trueArrays .plain
      (arrayWorld.setStack [.userdata 0, .number oneAndAHalf]) = .ok 1 w' := ⟨_, rfl⟩
  obtain ⟨w₁, hread⟩ := hread
  exact raiseException_ne_ok (hrun.symm.trans hread)

end JLua.Arrays
