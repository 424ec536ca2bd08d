import JLua.Conversion

/-!
# Round trips between Lua and Java

A value that goes through Java unchanged, and an object that goes through Lua unchanged.
-/

namespace JLua.Conversion

open BinaryFloat ModifiedUtf8
set_option autoImplicit false

variable {host : Host} {L : State}

/-! ### From Lua to Java and back -/

/-- Pushing what `toJavaObject` makes of the value at `idx` pushes that value. -/
def PushesBack (host : Host) (L : State) (idx : Int) (v : Value) : Prop :=
  ∃ L' w, pushObjectValue host (toJavaObject host L idx).2 (toJavaObject host L idx).1 = .ok L' ∧
    L'.stack = L.stack ++ [w] ∧ v.rawEqual w

/-- The values that survive: no coroutine, no NaN, and of the strings the encoded ones. -/
def Transparent : Value → Prop
  | .thread _ => False
  | .number x => x ≠ .nan
  | .string bytes => ∃ s, bytes = encode s
  | _ => True

theorem push_getLuaObject (host : Host) (L : State) {v : Value} (hv : v ≠ .nil) :
    pushObjectValue host (getLuaObject L v).2 (some (getLuaObject L v).1) =
      .ok ((getLuaObject L v).2.push v) := by
  simp [pushObjectValue, getLuaObject, JavaObject.doubleValue, pushLuaObject,
    Registry.rawGetI_luaLRef L.registry hv]

theorem pushesBack_luaObject {idx : Int} {v : Value} (hv : v ≠ .nil)
    (hnumber : v ≠ .number .nan)
    (h : toJavaObject host L idx = (getLuaObject L v).map some id) : PushesBack host L idx v := by
  refine ⟨(getLuaObject L v).2.push v, v, ?_, rfl, (Value.rawEqual_self_iff v).mpr hnumber⟩
  rw [h]
  exact push_getLuaObject host L hv

theorem pushesBack_iff_rawEqual {idx : Int} {v w : Value}
    (hpush : pushObjectValue host (toJavaObject host L idx).2 (toJavaObject host L idx).1 =
      .ok (L.push w)) : PushesBack host L idx v ↔ v.rawEqual w = true := by
  constructor
  · rintro ⟨L', w', hL', hstack, heq⟩
    obtain rfl := Except.ok.inj (hpush.symm.trans hL')
    obtain rfl : w = w' := by simpa [State.push] using hstack
    exact heq
  · intro heq
    exact ⟨L.push w, w, hpush, rfl, heq⟩

/-- The decoder may do anything with bytes that are no encoded string. -/
theorem pushesBack_string (hutf : ∀ s, host.newStringUTF (encode s) = s) {idx : Int}
    {bytes : List UInt8} (hv : index2adr L.stack idx = some (.string bytes)) :
    PushesBack host L idx (.string bytes) ↔ ∃ s, bytes = encode s := by
  have hpush : pushObjectValue host (toJavaObject host L idx).2 (toJavaObject host L idx).1 =
      .ok (L.push (.string (encode (host.newStringUTF (cString bytes))))) := by
    simp [toJavaObject, hv, pushObjectValue, JavaObject.doubleValue, cString_encode]
  rw [pushesBack_iff_rawEqual hpush]
  constructor
  · intro heq
    exact ⟨_, by simpa [Value.rawEqual] using heq⟩
  · rintro ⟨s, rfl⟩
    simp [cString_encode, hutf, Value.rawEqual]

/-- A Lua value that is no Java object goes through Java unchanged exactly if it is no
coroutine, no NaN, and no string that is not modified UTF-8. -/
theorem pushesBack_iff (hutf : ∀ s, host.newStringUTF (encode s) = s) {idx : Int} {v : Value}
    (hv : index2adr L.stack idx = some v) (hjava : isObject L v = false) :
    PushesBack host L idx v ↔ Transparent v := by
  have hnone : getObjectFromUserdata L v = none := by simpa [isObject] using hjava
  cases v with
  | nil =>
    have hpush : pushObjectValue host (toJavaObject host L idx).2 (toJavaObject host L idx).1 =
        .ok (L.push .nil) := by simp [toJavaObject, hv, pushObjectValue]
    rw [pushesBack_iff_rawEqual hpush]
    simp [Transparent, Value.rawEqual]
  | boolean b =>
    have hpush : pushObjectValue host (toJavaObject host L idx).2 (toJavaObject host L idx).1 =
        .ok (L.push (.boolean b)) := by simp [toJavaObject, hv, pushObjectValue]
    rw [pushesBack_iff_rawEqual hpush]
    simp [Transparent, Value.rawEqual]
  | number x =>
    have hpush : pushObjectValue host (toJavaObject host L idx).2 (toJavaObject host L idx).1 =
        .ok (L.push (.number x)) := by
      simp [toJavaObject, hv, pushObjectValue, JavaObject.doubleValue]
    rw [pushesBack_iff_rawEqual hpush, Value.rawEqual_self_iff]
    simp [Transparent]
  | string bytes => exact pushesBack_string hutf hv
  | thread a =>
    have hpush : pushObjectValue host (toJavaObject host L idx).2 (toJavaObject host L idx).1 =
        .ok (L.push .nil) := by simp [toJavaObject, hv, pushObjectValue]
    rw [pushesBack_iff_rawEqual hpush]
    simp [Transparent, Value.rawEqual]
  | table | function | userdata | lightuserdata =>
    simp only [Transparent, iff_true]
    exact pushesBack_luaObject (by simp) (by simp) (by simp [toJavaObject, hv, hnone])

/-- A host without a checker that decodes as `NewStringUTF` does. -/
def demoHost : Host where
  classes := ⟨fun _ => false, fun _ => [.object]⟩
  newStringUTF := decode
  deniedText := fun _ => ""
  createProxy := fun _ _ _ => .classNotFound ""
  objectChecker := none

def stateWith (v : Value) : State := ⟨8, [v], ⟨fun _ => .nil, 0⟩, []⟩

theorem demoHost_newStringUTF (s : List UInt16) : demoHost.newStringUTF (encode s) = s :=
  decode_encode s

theorem pushesBack_iff_table : PushesBack demoHost (stateWith (.table 0)) (-1) (.table 0) :=
  (pushesBack_iff demoHost_newStringUTF (v := .table 0) rfl rfl).mpr trivial

/-- A coroutine comes back as nil, and a string is cut at its first zero byte. -/
theorem coroutine_not_pushed_back :
    ¬ PushesBack demoHost (stateWith (.thread 0)) (-1) (.thread 0) ∧
    ¬ PushesBack demoHost (stateWith (.string [97, 0, 98])) (-1) (.string [97, 0, 98]) := by
  constructor
  · rw [pushesBack_iff_rawEqual (L := stateWith (.thread 0)) (w := .nil) rfl]
    decide
  · rw [pushesBack_iff_rawEqual (L := stateWith (.string [97, 0, 98])) (w := .string [97]) rfl]
    decide

/-! ### From Java to Lua and back -/

def Admits (T : JavaClass) (v : JavaObject) : Prop :=
  T = v.getClass ∨ ∃ p, v.unboxed = some p ∧ T = .primitive p

/-- What pushing an object relies on: the checker lets it pass, a number is exact as a double
and a `LuaObject` belongs to the state. -/
structure Pushable (host : Host) (L : State) (v : JavaObject) : Prop where
  allowed : checkJavaObj host v = .ok ()
  exact : ∀ n, v = .long n → Number.Exact binary64 n.toInt
  own : ∀ peer ref, v = .luaObject peer ref → peer = L.peer

/-- `obj` in `L'` is what `v` was in `L`: for a `LuaObject` one with the same value, else equal. -/
def SameAs (L : State) (v : JavaObject) (L' : State) (obj : JavaObject) : Prop :=
  match v with
  | .luaObject _ ref =>
    ∃ ref', obj = .luaObject L'.peer ref' ∧ L'.registry.rawGetI ref' = L.registry.rawGetI ref
  | _ => obj = v

def RoundTrips (host : Host) (L : State) (v : JavaObject) (T : JavaClass) : Prop :=
  ∃ L₁ obj L₂, pushObjectValue host L (some v) = .ok L₁ ∧
    compareTypes host L₁ T (-1) = .ok (some obj, L₂) ∧ SameAs L v L₂ obj

/-- A box of a number with its own class, and a `Character` with `char`. -/
def Unsettled (v : JavaObject) (T : JavaClass) : Prop :=
  match v with
  | .byte _ | .short _ | .integer _ | .long _ | .float _ | .double _ => T.isPrimitive = false
  | .character _ => T.isPrimitive = true
  | _ => False

/-- Every instance of `Number` becomes a Lua number, so only boxes come back; and of the Lua
values only functions, tables and userdata are given to Java as a `LuaObject`, but a userdata
of a Java object as that object. -/
def Converts (L : State) : JavaObject → Prop
  | .otherNumber _ _ _ => False
  | .luaObject _ ref =>
    match L.registry.rawGetI ref with
    | .function _ | .table _ | .lightuserdata _ => True
    | .userdata a => ∀ obj, getObjectFromUserdata L (.userdata a) = some obj →
      ∃ ref', obj = .luaObject L.peer ref' ∧ L.registry.rawGetI ref' = .userdata a
    | _ => False
  | _ => True

theorem pushJavaObject_allowed {obj : JavaObject} (h : checkJavaObj host obj = .ok ()) :
    pushJavaObject host L obj = .ok (L.pushUserdata obj) := by
  rw [pushJavaObject, h]
  rfl

theorem roundTrips_of_push {v : JavaObject} {T : JavaClass} {L₁ : State}
    (hpush : pushObjectValue host L (some v) = .ok L₁) : RoundTrips host L v T ↔
      ∃ obj L₂, compareTypes host L₁ T (-1) = .ok (some obj, L₂) ∧ SameAs L v L₂ obj := by
  constructor
  · rintro ⟨L₁', obj, L₂, h₁, h₂, hobj⟩
    obtain rfl := Except.ok.inj (hpush.symm.trans h₁)
    exact ⟨obj, L₂, h₂, hobj⟩
  · rintro ⟨obj, L₂, h₂, hobj⟩
    exact ⟨L₁, obj, L₂, hpush, h₂, hobj⟩

theorem roundTrips_userdata {v : JavaObject} {T : JavaClass} (hT : T = v.getClass)
    (hpush : pushObjectValue host L (some v) = .ok (L.pushUserdata v))
    (hsame : SameAs L v (L.pushUserdata v) v) : RoundTrips host L v T := by
  refine ⟨_, v, _, hpush, ?_, hsame⟩
  have htop : index2adr (L.pushUserdata v).stack (-1) = some (.userdata L.userdata.length) :=
    index2adr_top _ _
  have hobject : getObjectFromUserdata (L.pushUserdata v) (.userdata L.userdata.length) =
      some v := by
    simp [getObjectFromUserdata, State.pushUserdata]
  simp [compareTypes, htop, hobject, hT, host.classes.isAssignableFrom_self]

theorem roundTrips_number {v : JavaObject} {T : JavaClass} {x : Double}
    (hpush : pushObjectValue host L (some v) = .ok (L.push (.number x)))
    (hsame : ∀ L' obj, SameAs L v L' obj ↔ obj = v) :
    RoundTrips host L v T ↔ convertLuaNumber host.classes x T = some v := by
  have htop : index2adr (L.push (.number x)).stack (-1) = some (.number x) := index2adr_top _ _
  rw [roundTrips_of_push hpush]
  constructor
  · rintro ⟨obj, L₂, h, hobj⟩
    obtain rfl := (hsame L₂ obj).mp hobj
    cases hc : convertLuaNumber host.classes x T with
    | none => simp [compareTypes, htop, hc] at h
    | some o => simp_all [compareTypes]
  · intro hc
    exact ⟨v, L.push (.number x), by simp [compareTypes, htop, hc], (hsame _ v).mpr rfl⟩

theorem convertLuaNumber_box (C : ClassTable) {v : JavaObject} {p : Primitive} {x : Double}
    (hp : v.unboxed = some p) (hx : v.doubleValue = some x)
    (exact : ∀ n, v = .long n → Number.Exact binary64 n.toInt) :
    convertLuaNumber C x (.primitive p) = some v := by
  cases v <;> simp only [JavaObject.unboxed, JavaObject.doubleValue, Option.some.injEq,
    reduceCtorEq] at hp hx <;> subst hp hx <;>
    simp [convertLuaNumber, JavaClass.isPrimitive, byteValue_ofInt, shortValue_ofInt,
      intValue_ofInt, floatValue_convert]
  exact longValue_ofInt (exact _ rfl)

theorem convertLuaNumber_declared (C : ClassTable) (x : Double) (id : Nat) :
    convertLuaNumber C x (.declared id) = none := by
  simp [convertLuaNumber, JavaClass.isPrimitive, ClassTable.isAssignableFrom, ClassTable.supers]

theorem roundTrips_luaObject (host : Host) (L : State) (ref : Int) :
    RoundTrips host L (.luaObject L.peer ref) .luaObject ↔
      Converts L (.luaObject L.peer ref) := by
  have hpush : pushObjectValue host L (some (.luaObject L.peer ref)) =
      .ok (L.push (L.registry.rawGetI ref)) := by
    simp [pushObjectValue, JavaObject.doubleValue, pushLuaObject]
  have htop : index2adr (L.push (L.registry.rawGetI ref)).stack (-1) =
      some (L.registry.rawGetI ref) := index2adr_top _ _
  have hassign : host.classes.isAssignableFrom .luaObject .luaObject = true :=
    host.classes.isAssignableFrom_self _
  rw [roundTrips_of_push hpush]
  generalize hv : L.registry.rawGetI ref = v at htop
  -- a value that only a `LuaObject` can stand for
  have hkept : v ≠ .nil → compareTypes host (L.push v) .luaObject (-1) =
      .ok ((getLuaObject (L.push v) v).map some id) →
      ∃ obj L₂, compareTypes host (L.push v) .luaObject (-1) = .ok (some obj, L₂) ∧
        SameAs L (.luaObject L.peer ref) L₂ obj := by
    intro hne hcompare
    refine ⟨_, _, hcompare, _, rfl, ?_⟩
    rw [hv]
    exact Registry.rawGetI_luaLRef _ hne
  cases v with
  | nil => simp [Converts, hv, compareTypes, htop]
  | boolean b =>
    simp [Converts, hv, compareTypes, htop, JavaClass.isPrimitive, ClassTable.isAssignableFrom,
      ClassTable.supers]
  | number x =>
    simp [Converts, hv, compareTypes, htop, convertLuaNumber, JavaClass.isPrimitive,
      ClassTable.isAssignableFrom, ClassTable.supers]
  | string bytes =>
    simp [Converts, hv, compareTypes, htop, ClassTable.isAssignableFrom, ClassTable.supers]
  | thread a => simp [Converts, hv, compareTypes, htop]
  | function | table | lightuserdata =>
    simp only [Converts, hv, iff_true]
    apply hkept (by simp)
    simp [compareTypes, htop, compareLuaObject, hassign, ClassTable.isInterface]
  | userdata a =>
    simp only [Converts, hv]
    cases hobject : getObjectFromUserdata L (.userdata a) with
    | none =>
      simp only [reduceCtorEq, false_implies, implies_true, iff_true]
      have hnone : getObjectFromUserdata (L.push (.userdata a)) (.userdata a) = none := hobject
      exact hkept (by simp) (by simp [compareTypes, htop, hnone, compareLuaObject, hassign])
    | some o =>
      have hsome : getObjectFromUserdata (L.push (.userdata a)) (.userdata a) = some o := hobject
      constructor
      · rintro ⟨obj, L₂, h, ref', rfl, hdenotes⟩
        simp only [compareTypes, htop, hsome] at h
        split at h
        · obtain ⟨rfl, rfl⟩ := by simpa using h
          intro obj hobj
          obtain rfl := Option.some.inj hobj
          exact ⟨ref', rfl, hdenotes.trans hv⟩
        · cases h
      · intro h
        obtain ⟨ref', rfl, hdenotes⟩ := h o rfl
        refine ⟨_, L.push (.userdata a), ?_, ref', rfl, hdenotes.trans hv.symm⟩
        simp [compareTypes, htop, hsome, JavaObject.getClass, hassign]
        rfl

/-- An object that the program lets through comes back as itself exactly if `Converts` says so,
boxes of numbers with their own class and `Character` with `char` left aside. -/
theorem roundTrips_iff (hutf : ∀ s, host.newStringUTF (encode s) = s) {v : JavaObject}
    {T : JavaClass} (hv : Pushable host L v) (hT : Admits T v) (hs : ¬ Unsettled v T) :
    RoundTrips host L v T ↔ Converts L v := by
  cases v with
  | boolean b =>
    simp only [Converts, iff_true]
    have hpush : pushObjectValue host L (some (.boolean b)) = .ok (L.push (.boolean b)) := by
      simp [pushObjectValue]
    have htop : index2adr (L.push (.boolean b)).stack (-1) = some (.boolean b) :=
      index2adr_top _ _
    refine ⟨_, .boolean b, L.push (.boolean b), hpush, ?_, rfl⟩
    rcases hT with rfl | ⟨p, hp, rfl⟩
    · simp [compareTypes, htop, JavaObject.getClass, JavaClass.isPrimitive,
        host.classes.isAssignableFrom_self]
    · obtain rfl : .boolean = p := by simpa [JavaObject.unboxed] using hp
      simp [compareTypes, htop, JavaClass.isPrimitive]
  | byte | short | integer | long | float | double =>
    simp only [Converts, iff_true]
    rcases hT with rfl | ⟨p, hp, rfl⟩
    · exact absurd rfl hs
    · refine (roundTrips_number (by simp [pushObjectValue, JavaObject.doubleValue]) ?_).mpr
        (convertLuaNumber_box _ hp rfl hv.exact)
      simp [SameAs]
  | character c =>
    rcases hT with rfl | ⟨p, hp, rfl⟩
    · simp only [Converts, iff_true]
      refine roundTrips_userdata rfl ?_ rfl
      simp [pushObjectValue, JavaObject.doubleValue, JavaObject.isArray, pushJavaObject_allowed,
        hv.allowed]
    · exact absurd rfl hs
  | string s =>
    simp only [Converts, iff_true]
    obtain rfl : T = .string := by
      simpa [Admits, JavaObject.getClass, JavaObject.unboxed] using hT
    have hpush : pushObjectValue host L (some (.string s)) = .ok (L.push (.string (encode s))) := by
      simp [pushObjectValue, JavaObject.doubleValue, cString_encode]
    have htop : index2adr (L.push (.string (encode s))).stack (-1) =
        some (.string (encode s)) := index2adr_top _ _
    refine ⟨_, .string s, L.push (.string (encode s)), hpush, ?_, rfl⟩
    simp [compareTypes, htop, cString_encode, hutf, host.classes.isAssignableFrom_self]
  | otherNumber id ref x =>
    obtain rfl : T = .declared id := by
      simpa [Admits, JavaObject.getClass, JavaObject.unboxed] using hT
    rw [roundTrips_number (x := x) (by simp [pushObjectValue, JavaObject.doubleValue])
      (by simp [SameAs]), convertLuaNumber_declared]
    simp [Converts]
  | luaObject peer ref =>
    obtain rfl := hv.own peer ref rfl
    obtain rfl : T = .luaObject := by
      simpa [Admits, JavaObject.getClass, JavaObject.unboxed] using hT
    exact roundTrips_luaObject host L ref
  | array | byteArray | javaFunction | luaException | javaPackage | object =>
    simp only [Converts, iff_true]
    refine roundTrips_userdata (by simpa [Admits, JavaObject.unboxed] using hT) ?_ rfl
    simp [pushObjectValue, JavaObject.doubleValue, JavaObject.isArray, pushJavaArray,
      pushJavaFunction, pushJavaObject_allowed, hv.allowed]

theorem roundTrips_iff_string :
    RoundTrips demoHost (stateWith .nil) (.string [97, 0]) .string :=
  (roundTrips_iff demoHost_newStringUTF (L := stateWith .nil) ⟨rfl, by simp, by simp⟩
    (Or.inl rfl) (by simp [Unsettled])).mpr trivial

def stateWithTrue : State := ⟨8, [], ⟨fun i => if i = 1 then .boolean true else .nil, 1⟩, []⟩

/-- A `LuaObject` that denotes a boolean is pushed as that boolean, which `compareTypes` refuses
to convert to a `LuaObject`. -/
theorem luaObject_boolean_not_converted :
    Pushable demoHost stateWithTrue (.luaObject 8 1) ∧
    Admits .luaObject (.luaObject 8 1) ∧
    ¬ RoundTrips demoHost stateWithTrue (.luaObject 8 1) .luaObject := by
  refine ⟨⟨rfl, by simp, by simp [stateWithTrue]⟩, Or.inl rfl, ?_⟩
  rintro ⟨L₁, obj, L₂, h₁, h₂, _⟩
  obtain rfl : stateWithTrue.push (.boolean true) = L₁ := Except.ok.inj h₁
  exact absurd h₂ (by simp [compareTypes, stateWithTrue, State.push, index2adr, absIndex,
    JavaClass.isPrimitive, ClassTable.isAssignableFrom, ClassTable.supers])

end JLua.Conversion
