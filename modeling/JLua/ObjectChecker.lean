import Mathlib.Tactic.Tauto

/-!
# SimpleJavaObjectChecker

The checker walks up the superclasses of a class and looks at each of them and at the interfaces
it names itself. What it should decide by is the closure of the class under both edges.
-/

namespace JLua.ObjectChecker

set_option autoImplicit false

def objectName : String := "java.lang.Object"

/-- A type with the types it names as its supertypes. A primitive type is an `interface` without
any. -/
inductive JavaType where
  | object
  | interface (name : String) (proper : name ≠ objectName) (superinterfaces : List JavaType)
  | class (name : String) (proper : name ≠ objectName) (superclass : JavaType)
      (interfaces : List JavaType)

namespace JavaType

def getName : JavaType → String
  | object => objectName
  | interface name _ _ => name
  | .class name _ _ _ => name

def getSuperclass : JavaType → Option JavaType
  | .class _ _ superclass _ => some superclass
  | _ => none

def getInterfaces : JavaType → List JavaType
  | object => []
  | interface _ _ superinterfaces => superinterfaces
  | .class _ _ _ interfaces => interfaces

theorem getName_eq_objectName {c : JavaType} : c.getName = objectName ↔ c = object := by
  cases c with
  | object => simp [getName]
  | interface name proper => simp [getName, proper]
  | «class» name proper => simp [getName, proper]

end JavaType

def startsWith (s start : String) : Bool := start.toList.isPrefixOf s.toList

def isItemClass (className item : String) : Bool :=
  className = item || startsWith className (item ++ ".") || startsWith className (item ++ "$")

/-- The body of the loop, for one class of the chain. -/
def isInArray (array : List String) (clazz : JavaType) : Bool :=
  array.any fun item =>
    isItemClass clazz.getName item ||
      clazz.getInterfaces.any fun inter => isItemClass inter.getName item

def isClassInArray (array : List String) : JavaType → Bool
  | .object => false
  | .interface name proper superinterfaces =>
    isInArray array (.interface name proper superinterfaces)
  | .class name proper superclass interfaces =>
    isInArray array (.class name proper superclass interfaces) || isClassInArray array superclass

structure SimpleJavaObjectChecker where
  allowedClasses : List String
  disallowedClasses : List String

/-- An object is an instance of its class, or stands for a class itself. -/
inductive Object where
  | instance (clazz : JavaType)
  | class (clazz : JavaType)

def Object.clazz : Object → JavaType
  | .instance clazz => clazz
  | .class clazz => clazz

def checkJavaObject (checker : SimpleJavaObjectChecker) (obj : Object) : Bool :=
  if obj.clazz.getName = objectName then true
  else isClassInArray checker.allowedClasses obj.clazz &&
    !isClassInArray checker.disallowedClasses obj.clazz

/-! ### What it is to decide -/

/-- The type itself, its superclasses other than `Object`, and all the interfaces above them. -/
inductive Closure (c : JavaType) : JavaType → Prop where
  | self (proper : c ≠ .object) : Closure c c
  | superclass {d e : JavaType} (hd : Closure c d) (he : d.getSuperclass = some e)
      (proper : e ≠ .object) : Closure c e
  | interface {d e : JavaType} (hd : Closure c d) (he : e ∈ d.getInterfaces) : Closure c e

def MatchesItem (name item : String) : Prop :=
  name = item ∨ ∃ rest, name = item ++ "." ++ rest ∨ name = item ++ "$" ++ rest

def Matches (items : List String) (t : JavaType) : Prop :=
  ∃ item ∈ items, MatchesItem t.getName item

def Covers (items : List String) (c : JavaType) : Prop := ∃ t, Closure c t ∧ Matches items t

def Permitted (checker : SimpleJavaObjectChecker) (c : JavaType) : Prop :=
  Covers checker.allowedClasses c ∧ ¬ Covers checker.disallowedClasses c

/-! ### What the walk sees -/

inductive Chain (c : JavaType) : JavaType → Prop where
  | self (proper : c ≠ .object) : Chain c c
  | superclass {d e : JavaType} (hd : Chain c d) (he : d.getSuperclass = some e)
      (proper : e ≠ .object) : Chain c e

/-- A class of the chain, or an interface that one of them names. -/
def Visited (c t : JavaType) : Prop := Chain c t ∨ ∃ d, Chain c d ∧ t ∈ d.getInterfaces

def Finds (items : List String) (c : JavaType) : Prop := ∃ t, Visited c t ∧ Matches items t

theorem startsWith_iff {s start : String} :
    startsWith s start = true ↔ ∃ rest, s = start ++ rest := by
  rw [startsWith, List.isPrefixOf_iff_prefix]
  constructor
  · rintro ⟨rest, h⟩
    refine ⟨String.ofList rest, ?_⟩
    rw [← String.toList_inj, String.toList_append, String.toList_ofList, h]
  · rintro ⟨rest, rfl⟩
    exact ⟨rest.toList, (String.toList_append).symm⟩

theorem isItemClass_iff {name item : String} :
    isItemClass name item = true ↔ MatchesItem name item := by
  simp only [isItemClass, Bool.or_eq_true, decide_eq_true_eq, startsWith_iff, MatchesItem, or_assoc,
    exists_or]

theorem isInArray_iff {array : List String} {c : JavaType} :
    isInArray array c = true ↔ Matches array c ∨ ∃ t ∈ c.getInterfaces, Matches array t := by
  simp only [isInArray, List.any_eq_true, Bool.or_eq_true, isItemClass_iff, Matches]
  constructor
  · rintro ⟨item, hitem, hc | ⟨t, ht, hm⟩⟩
    · exact Or.inl ⟨item, hitem, hc⟩
    · exact Or.inr ⟨t, ht, item, hitem, hm⟩
  · rintro (⟨item, hitem, hc⟩ | ⟨t, ht, item, hitem, hm⟩)
    · exact ⟨item, hitem, Or.inl hc⟩
    · exact ⟨item, hitem, Or.inr ⟨t, ht, hm⟩⟩

theorem Chain.of_superclass {c d e : JavaType} (hc : c ≠ .object) (hd : c.getSuperclass = some d)
    (he : Chain d e) : Chain c e := by
  induction he with
  | self proper => exact .superclass (.self hc) hd proper
  | superclass _ h proper ih => exact .superclass ih h proper

theorem not_chain_object (t : JavaType) : ¬ Chain .object t := by
  intro h
  induction h with
  | self proper => exact proper rfl
  | superclass _ _ _ ih => exact ih

theorem chain_iff {c t : JavaType} (hc : c ≠ .object) :
    Chain c t ↔ t = c ∨ ∃ d, c.getSuperclass = some d ∧ Chain d t := by
  constructor
  · intro h
    induction h with
    | self => exact Or.inl rfl
    | @superclass d e _ he proper ih =>
      rcases ih with rfl | ⟨s, hs, hchain⟩
      · exact Or.inr ⟨e, he, .self proper⟩
      · exact Or.inr ⟨s, hs, .superclass hchain he proper⟩
  · rintro (rfl | ⟨d, hd, ht⟩)
    · exact .self hc
    · exact ht.of_superclass hc hd

theorem finds_iff {items : List String} {c : JavaType} (hc : c ≠ .object) :
    Finds items c ↔ isInArray items c = true ∨ ∃ d, c.getSuperclass = some d ∧ Finds items d := by
  rw [isInArray_iff]
  constructor
  · rintro ⟨t, ht | ⟨d, hd, ht⟩, hm⟩
    · rcases (chain_iff hc).mp ht with rfl | ⟨s, hs, hchain⟩
      · exact Or.inl (Or.inl hm)
      · exact Or.inr ⟨s, hs, t, Or.inl hchain, hm⟩
    · rcases (chain_iff hc).mp hd with rfl | ⟨s, hs, hchain⟩
      · exact Or.inl (Or.inr ⟨t, ht, hm⟩)
      · exact Or.inr ⟨s, hs, t, Or.inr ⟨d, hchain, ht⟩, hm⟩
  · rintro ((hm | ⟨t, ht, hm⟩) | ⟨s, hs, t, ht | ⟨d, hd, ht⟩, hm⟩)
    · exact ⟨c, Or.inl (.self hc), hm⟩
    · exact ⟨t, Or.inr ⟨c, .self hc, ht⟩, hm⟩
    · exact ⟨t, Or.inl (ht.of_superclass hc hs), hm⟩
    · exact ⟨t, Or.inr ⟨d, hd.of_superclass hc hs, ht⟩, hm⟩

theorem isClassInArray_iff (array : List String) :
    (c : JavaType) → (isClassInArray array c = true ↔ Finds array c)
  | .object => by
    simp only [isClassInArray, Bool.false_eq_true, false_iff]
    rintro ⟨t, ht | ⟨d, hd, _⟩, _⟩
    · exact not_chain_object t ht
    · exact not_chain_object d hd
  | .interface name proper superinterfaces => by
    rw [finds_iff (by simp)]
    simp [isClassInArray, JavaType.getSuperclass]
  | .class name proper superclass interfaces => by
    rw [finds_iff (by simp)]
    simp [isClassInArray, JavaType.getSuperclass, isClassInArray_iff array superclass]

theorem Chain.closure {c t : JavaType} (h : Chain c t) : Closure c t := by
  induction h with
  | self proper => exact .self proper
  | superclass _ he proper ih => exact .superclass ih he proper

theorem Finds.covers {items : List String} {c : JavaType} (h : Finds items c) :
    Covers items c := by
  obtain ⟨t, ht | ⟨d, hd, ht⟩, hm⟩ := h
  · exact ⟨t, ht.closure, hm⟩
  · exact ⟨t, .interface hd.closure ht, hm⟩

/-- The interfaces that the walk does not reach do not matter: where one of them is all that
matches a disallowed item, nothing visited is allowed anyway; and where nothing is disallowed, a
visited type matches an allowed item if any type of the closure does. -/
def Decisive (checker : SimpleJavaObjectChecker) (c : JavaType) : Prop :=
  (Covers checker.disallowedClasses c → ¬ Finds checker.disallowedClasses c →
    ¬ Finds checker.allowedClasses c) ∧
  (¬ Covers checker.disallowedClasses c → Covers checker.allowedClasses c →
    Finds checker.allowedClasses c)

theorem checkJavaObject_iff_finds (checker : SimpleJavaObjectChecker) {obj : Object}
    (h : obj.clazz ≠ .object) : checkJavaObject checker obj = true ↔
      Finds checker.allowedClasses obj.clazz ∧ ¬ Finds checker.disallowedClasses obj.clazz := by
  have hname : obj.clazz.getName ≠ objectName := fun hn => h (JavaType.getName_eq_objectName.mp hn)
  rw [← isClassInArray_iff, ← isClassInArray_iff]
  simp [checkJavaObject, hname]

/-- The checker decides by the closure exactly if the interfaces it does not visit are not
decisive. -/
theorem checkJavaObject_iff_permitted (checker : SimpleJavaObjectChecker) {obj : Object}
    (h : obj.clazz ≠ .object) :
    (checkJavaObject checker obj = true ↔ Permitted checker obj.clazz) ↔
      Decisive checker obj.clazz := by
  rw [checkJavaObject_iff_finds checker h]
  have hallowed : Finds checker.allowedClasses obj.clazz →
      Covers checker.allowedClasses obj.clazz := Finds.covers
  have hdisallowed : Finds checker.disallowedClasses obj.clazz →
    Covers checker.disallowedClasses obj.clazz := Finds.covers
  unfold Permitted Decisive
  by_cases hd : Covers checker.disallowedClasses obj.clazz
  · simp only [hd, not_true_eq_false, and_false, iff_false, not_and, not_not, false_implies,
      and_true, true_implies]
    tauto
  · have hd' : ¬ Finds checker.disallowedClasses obj.clazz := fun hf => hd (hdisallowed hf)
    simp only [hd, hd', not_false_eq_true, and_true, false_implies, true_implies, true_and]
    tauto

def secret : JavaType := .interface "app.Secret" (by decide) []

def plugin : JavaType := .interface "app.Plugin" (by decide) [secret]

def demoChecker : SimpleJavaObjectChecker := ⟨["app"], ["app.Secret"]⟩

/-- A class that names the disallowed interface itself. -/
theorem checkJavaObject_iff_permitted_direct :
    checkJavaObject demoChecker (.instance (.class "app.Vault" (by decide) .object [secret])) =
        true ↔
      Permitted demoChecker (.class "app.Vault" (by decide) .object [secret]) := by
  have hfinds : Finds demoChecker.disallowedClasses
      (.class "app.Vault" (by decide) .object [secret]) :=
    ⟨secret, Or.inr ⟨_, .self (by simp), List.mem_singleton_self _⟩, "app.Secret",
      List.mem_singleton_self _, Or.inl rfl⟩
  refine (checkJavaObject_iff_permitted demoChecker ?_).mpr
    ⟨fun _ hnot => absurd hfinds hnot, fun hnot => absurd hfinds.covers hnot⟩
  simp [Object.clazz]

/-- The disallowed interface is a superinterface of one that the class names. -/
theorem superinterface_not_denied :
    checkJavaObject demoChecker (.instance (.class "app.Impl" (by decide) .object [plugin])) =
        true ∧
      ¬ Permitted demoChecker (.class "app.Impl" (by decide) .object [plugin]) := by
  constructor
  · decide +kernel
  · intro h
    refine h.2 ⟨secret, .interface (d := plugin) (.interface (.self (by simp)) ?_) ?_, "app.Secret",
      List.mem_singleton_self _, Or.inl rfl⟩
    · exact List.mem_singleton_self _
    · exact List.mem_singleton_self _

/-! ### More items and subclasses -/

/-- Reached from `c` by extending one class after another; interfaces are not inherited from. -/
inductive Subclass (c : JavaType) : JavaType → Prop where
  | refl : Subclass c c
  | derived {d e : JavaType} (he : d.getSuperclass = some e) (h : Subclass c e) : Subclass c d

theorem Finds.mono {items more : List String} {c : JavaType} (h : Finds items c)
    (hsub : items ⊆ more) : Finds more c := by
  obtain ⟨t, ht, item, hitem, hm⟩ := h
  exact ⟨t, ht, item, hsub hitem, hm⟩

theorem Finds.of_subclass {items : List String} {c d : JavaType} (h : Finds items c)
    (hd : Subclass c d) : Finds items d := by
  induction hd with
  | refl => exact h
  | @derived d e he _ ih =>
    have hd : d ≠ .object := by
      rintro rfl
      cases he
    exact (finds_iff hd).mpr (Or.inr ⟨e, he, ih⟩)

theorem isClassInArray_mono {array more : List String} (hsub : array ⊆ more) {c : JavaType}
    (h : isClassInArray array c = true) : isClassInArray more c = true :=
  (isClassInArray_iff more c).mpr (((isClassInArray_iff array c).mp h).mono hsub)

theorem isClassInArray_of_subclass {array : List String} {c d : JavaType} (hd : Subclass c d)
    (h : isClassInArray array c = true) : isClassInArray array d = true :=
  (isClassInArray_iff array d).mpr (((isClassInArray_iff array c).mp h).of_subclass hd)

theorem isClassInArray_congr {array array' : List String}
    (h : ∀ item, item ∈ array ↔ item ∈ array') (c : JavaType) :
    isClassInArray array c = isClassInArray array' c :=
  Bool.eq_iff_iff.mpr ⟨isClassInArray_mono fun item => (h item).mp,
    isClassInArray_mono fun item => (h item).mpr⟩

theorem checkJavaObject_iff (checker : SimpleJavaObjectChecker) (obj : Object) :
    checkJavaObject checker obj = true ↔ obj.clazz = .object ∨
      isClassInArray checker.allowedClasses obj.clazz = true ∧
        isClassInArray checker.disallowedClasses obj.clazz = false := by
  by_cases h : obj.clazz = .object
  · simp [checkJavaObject, h, JavaType.getName]
  · have hname : obj.clazz.getName ≠ objectName := fun hn =>
      h (JavaType.getName_eq_objectName.mp hn)
    simp [checkJavaObject, hname, h]

theorem isClassInArray_nil (c : JavaType) : isClassInArray [] c = false := by
  rw [Bool.eq_false_iff]
  intro h
  obtain ⟨_, _, _, hitem, _⟩ := (isClassInArray_iff [] c).mp h
  cases hitem

theorem denied_of_disallowed {checker : SimpleJavaObjectChecker} {obj : Object}
    (h : isClassInArray checker.disallowedClasses obj.clazz = true) :
    checkJavaObject checker obj = false := by
  rw [Bool.eq_false_iff, Ne, checkJavaObject_iff]
  rintro (hobject | ⟨_, hnot⟩)
  · rw [hobject] at h
    cases h
  · rw [h] at hnot
    cases hnot

theorem denied_of_more_disallowed {allowed disallowed more : List String} {obj : Object}
    (hsub : disallowed ⊆ more) (h : checkJavaObject ⟨allowed, disallowed⟩ obj = false) :
    checkJavaObject ⟨allowed, more⟩ obj = false := by
  rw [Bool.eq_false_iff, Ne, checkJavaObject_iff] at h ⊢
  rintro (hobject | ⟨ha, hd⟩)
  · exact h (Or.inl hobject)
  · refine h (Or.inr ⟨ha, Bool.eq_false_iff.mpr fun hmatch => ?_⟩)
    rw [isClassInArray_mono hsub hmatch] at hd
    cases hd

theorem approved_of_more_allowed {allowed more disallowed : List String} {obj : Object}
    (hsub : allowed ⊆ more) (h : checkJavaObject ⟨allowed, disallowed⟩ obj = true) :
    checkJavaObject ⟨more, disallowed⟩ obj = true := by
  rw [checkJavaObject_iff] at h ⊢
  rcases h with hobject | ⟨ha, hd⟩
  · exact Or.inl hobject
  · exact Or.inr ⟨isClassInArray_mono hsub ha, hd⟩

theorem approved_of_subclass {allowed : List String} {obj obj' : Object}
    (hobject : obj.clazz ≠ .object) (hsub : Subclass obj.clazz obj'.clazz)
    (h : checkJavaObject ⟨allowed, []⟩ obj = true) : checkJavaObject ⟨allowed, []⟩ obj' = true := by
  rw [checkJavaObject_iff] at h ⊢
  rcases h with hobject' | ⟨ha, _⟩
  · exact absurd hobject' hobject
  · exact Or.inr ⟨isClassInArray_of_subclass hsub ha, isClassInArray_nil _⟩

theorem checkJavaObject_congr {checker checker' : SimpleJavaObjectChecker}
    (ha : ∀ item, item ∈ checker.allowedClasses ↔ item ∈ checker'.allowedClasses)
    (hd : ∀ item, item ∈ checker.disallowedClasses ↔ item ∈ checker'.disallowedClasses)
    (obj : Object) : checkJavaObject checker obj = checkJavaObject checker' obj := by
  rw [Bool.eq_iff_iff, checkJavaObject_iff, checkJavaObject_iff, isClassInArray_congr ha,
    isClassInArray_congr hd]

/-- The decision is antitone in the disallowed items and monotone in the allowed ones, what an item
matches in a class it matches in all the subclasses, and only the sets of items count. -/
theorem checkJavaObject_laws :
    (∀ allowed disallowed more : List String, ∀ obj, disallowed ⊆ more →
      checkJavaObject ⟨allowed, disallowed⟩ obj = false →
        checkJavaObject ⟨allowed, more⟩ obj = false) ∧
    (∀ allowed disallowed more : List String, ∀ obj, allowed ⊆ more →
      checkJavaObject ⟨allowed, disallowed⟩ obj = true →
        checkJavaObject ⟨more, disallowed⟩ obj = true) ∧
    (∀ array c d, Subclass c d → isClassInArray array c = true → isClassInArray array d = true) ∧
    (∀ allowed, ∀ obj obj' : Object, obj.clazz ≠ .object → Subclass obj.clazz obj'.clazz →
      checkJavaObject ⟨allowed, []⟩ obj = true → checkJavaObject ⟨allowed, []⟩ obj' = true) ∧
    (∀ checker : SimpleJavaObjectChecker, ∀ obj obj' : Object, Subclass obj.clazz obj'.clazz →
      isClassInArray checker.disallowedClasses obj.clazz = true →
        checkJavaObject checker obj = false ∧ checkJavaObject checker obj' = false) ∧
    ∀ checker checker' : SimpleJavaObjectChecker,
      (∀ item, item ∈ checker.allowedClasses ↔ item ∈ checker'.allowedClasses) →
      (∀ item, item ∈ checker.disallowedClasses ↔ item ∈ checker'.disallowedClasses) →
        ∀ obj, checkJavaObject checker obj = checkJavaObject checker' obj := by
  refine ⟨?_, ?_, ?_, ?_, ?_, ?_⟩
  · exact fun _ _ _ _ => denied_of_more_disallowed
  · exact fun _ _ _ _ => approved_of_more_allowed
  · exact fun _ _ _ => isClassInArray_of_subclass
  · exact fun _ _ _ => approved_of_subclass
  · exact fun checker obj obj' hsub h =>
      ⟨denied_of_disallowed h, denied_of_disallowed (isClassInArray_of_subclass hsub h)⟩
  · exact fun _ _ => checkJavaObject_congr

/-- A subclass of `app.Vault`, with its superclass's item given twice and another one added. -/
theorem checkJavaObject_laws_vault :
    checkJavaObject ⟨["app.Vault"], []⟩ (.instance (.class "lib.Safe" (by decide)
        (.class "app.Vault" (by decide) .object []) [])) = true ∧
      checkJavaObject ⟨["app.Vault", "lib", "app.Vault"], []⟩ (.instance (.class "lib.Safe"
        (by decide) (.class "app.Vault" (by decide) .object []) [])) = true := by
  obtain ⟨_, hallowed, _, hsubclass, _, _⟩ := checkJavaObject_laws
  have hsafe := hsubclass ["app.Vault"] (.instance (.class "app.Vault" (by decide) .object []))
    (.instance (.class "lib.Safe" (by decide) (.class "app.Vault" (by decide) .object []) []))
    (by simp [Object.clazz]) (.derived rfl .refl) (by decide +kernel)
  exact ⟨hsafe, hallowed _ _ _ _ (by decide) hsafe⟩

end JLua.ObjectChecker
