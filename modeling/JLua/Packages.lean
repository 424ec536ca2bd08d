import JLua.Calls
import Mathlib.Logic.Equiv.List

/-!
# Packages and classes by their names

A script reaches a class from a package, one name after the other. While the object is a package,
the name is joined to its own and looked up with `Class.forName`; from the first class on, the name
is looked for among the declared classes.
-/

namespace JLua.Packages

open Calls Conversion JLuaAPI OutcomeRules Pushing
set_option autoImplicit false

variable {σ : Type}

/-! ### Names -/

/-- The name and the names after it, with dots between them. -/
def qualified (name : JString) (names : List JString) : JString :=
  names.foldl (fun name fieldName => name ++ javaString "." ++ fieldName) name

theorem qualified_append (name : JString) (names names' : List JString) :
    qualified name (names ++ names') = qualified (qualified name names) names' :=
  List.foldl_append

theorem qualified_eq_append (name : JString) {names : List JString} (h : names ≠ []) :
    ∃ rest, qualified name names = name ++ javaString "." ++ rest := by
  induction names generalizing name with
  | nil => exact absurd rfl h
  | cons fieldName names ih =>
    by_cases hnames : names = []
    · subst hnames
      exact ⟨fieldName, rfl⟩
    · obtain ⟨rest, hrest⟩ := ih (name ++ javaString "." ++ fieldName) hnames
      refine ⟨fieldName ++ javaString "." ++ rest, ?_⟩
      have hnext : qualified name (fieldName :: names) =
          qualified (name ++ javaString "." ++ fieldName) names := rfl
      rw [hnext, hrest]
      simp only [List.append_assoc]

/-! ### What a class loader holds -/

/-- The classes by their binary names, and which of them are neither members of another class nor
local ones. -/
structure ClassLoader where
  find : JString → Option JavaClass
  isTopLevel : JavaClass → Prop

namespace ClassLoader

def Holds (loader : ClassLoader) (c : JavaClass) : Prop := ∃ name, loader.find name = some c

/-- There is a class in the package, or in one below it. -/
def IsPackage (loader : ClassLoader) (name : JString) : Prop :=
  ∃ rest c, loader.find (name ++ javaString "." ++ rest) = some c

/-- No class shares its name with a package. -/
def Separate (loader : ClassLoader) : Prop :=
  ∀ name, loader.IsPackage name → loader.find name = none

end ClassLoader

/-- The canonical name of a class: the name of a class at the top level, and for a member of a class
the canonical name of that class and the simple name. -/
inductive Canonical (env : Env σ) (loader : ClassLoader) (name : JString) :
    List JString → JavaClass → Prop
  | topLevel {names : List JString} {c : JavaClass} :
    loader.find (qualified name names) = some c → loader.isTopLevel c →
      Canonical env loader name names c
  | member {names : List JString} {c c' : JavaClass} {simpleName : JString} :
    Canonical env loader name names c → (simpleName, c') ∈ env.getDeclaredClasses c →
      Canonical env loader name (names ++ [simpleName]) c'

/-- The constructor of `JavaPackage`, and the name that it keeps. -/
def javaPackage : Option JString → Except Thrown JString
  | none | some [] => .error (.luaException (some "Iligal java package name"))
  | some name => .ok name

theorem javaPackage_of_ne {name : JString} (h : name ≠ []) :
    javaPackage (some name) = .ok name := by
  cases name with
  | nil => exact absurd rfl h
  | cons => rfl

/-- `Class.forName` finds the classes of the loader, and reflection knows them. -/
structure Loads (env : Env σ) (loader : ClassLoader) : Prop where
  forName_of_some : ∀ name c w, loader.find name = some c → ∃ w', env.forName name w = .ok c w'
  forName_of_none : ∀ name w, loader.find name = none →
    ∃ message w', env.forName name w = .error (.throws (.classNotFoundException message)) w'
  holds_declared : ∀ c simpleName c', loader.Holds c →
    (simpleName, c') ∈ env.getDeclaredClasses c → loader.Holds c'
  declared_unique : ∀ c simpleName c₁ c₂, (simpleName, c₁) ∈ env.getDeclaredClasses c →
    (simpleName, c₂) ∈ env.getDeclaredClasses c → c₁ = c₂
  classObject : ∀ c, loader.Holds c → ∃ ref, env.classObject c = .object env.classId ref
  asClass : ∀ c, loader.Holds c → env.asClass (env.classObject c) = some c
  newJavaPackage : ∀ name s, match javaPackage (some name) with
    | .ok name' => ∃ ref s', env.newJavaPackage name s = (.ok (.javaPackage ref), s') ∧
      env.packageName (.javaPackage ref) = name'
    | .error e => ∃ s', env.newJavaPackage name s = (.error e, s')

/-! ### One step -/

section Steps
variable (env : Env σ)

/-- The object that `checkField` leaves on top, if it leaves one. -/
def field (obj : JavaObject) (fieldName : JString) : Code σ (Option JavaObject) := do
  if (← checkField env obj fieldName) = 0 then return none
  else
    let w ← get
    return getObjectFromUserdata w.lua (LuaState.valueAt w (-1))

/-- One name after the other. -/
def fields (obj : JavaObject) : List JString → Code σ (Option JavaObject)
  | [] => return some obj
  | fieldName :: names => do
    match ← field env obj fieldName with
    | some obj' => fields obj' names
    | none => return none

variable {env} {loader : ClassLoader} {w : World σ}

theorem field_of_checkField {obj obj' : JavaObject} {fieldName : JString} {w' : World σ}
    (hrun : checkField env obj fieldName w = .ok 1 w')
    (htop : getObjectFromUserdata w'.lua (LuaState.valueAt w' (-1)) = some obj') :
    field env obj fieldName w = .ok (some obj') w' := by
  unfold field
  apply (bind_of_ok hrun).trans
  rw [if_neg (by decide), get_bind, htop]
  rfl

theorem fields_append {obj obj' : JavaObject} {names names' : List JString} {w' : World σ}
    (h : fields env obj names w = .ok (some obj') w') :
    fields env obj (names ++ names') w = fields env obj' names' w' := by
  induction names generalizing obj w with
  | nil =>
    cases h
    rfl
  | cons fieldName names ih =>
    unfold fields at h
    obtain ⟨first, w₁, hfirst, hrest⟩ := bind_eq_ok_iff.mp h
    rw [List.cons_append, fields, bind_of_ok hfirst]
    cases first with
    | none => cases hrest
    | some obj₁ => exact ih hrest

theorem fields_snoc {obj obj₁ obj₂ : JavaObject} {names : List JString} {fieldName : JString}
    {w₁ w₂ : World σ} (h : fields env obj names w = .ok (some obj₁) w₁)
    (hlast : field env obj₁ fieldName w₁ = .ok (some obj₂) w₂) :
    fields env obj (names ++ [fieldName]) w = .ok (some obj₂) w₂ := by
  rw [fields_append h, fields, bind_of_ok hlast]
  rfl

/-- The checker lets the classes of the loader through. -/
def Allowed (env : Env σ) (loader : ClassLoader) : Prop :=
  ∀ c, loader.Holds c → checkJavaObj env.host (env.classObject c) = .ok ()

theorem pushOne_class (laws : Loads env loader) (hallowed : Allowed env loader) {c : JavaClass}
    (hc : loader.Holds c) (w : World σ) :
    ∃ w', pushOne env (some (env.classObject c)) w = .ok 1 w' ∧
      getObjectFromUserdata w'.lua (LuaState.valueAt w' (-1)) = some (env.classObject c) := by
  obtain ⟨ref, href⟩ := laws.classObject c hc
  have hcheck := hallowed c hc
  rw [href] at hcheck ⊢
  have hdenial : denial env.host (some (.object env.classId ref)) = none := by
    rw [denial, hcheck]
    rfl
  have hpush := pushObjectValue_run env (some (.object env.classId ref)) w
  rw [hdenial] at hpush
  exact pushOne_userdata hpush

/-- A package and a name that make the name of a class. -/
theorem field_class (laws : Loads env loader) (hallowed : Allowed env loader) {ref : Nat}
    {fieldName : JString} {c : JavaClass} (hfind : loader.find
      (env.packageName (.javaPackage ref) ++ javaString "." ++ fieldName) = some c) (w : World σ) :
    ∃ w', field env (.javaPackage ref) fieldName w = .ok (some (env.classObject c)) w' := by
  obtain ⟨w₁, hforName⟩ := laws.forName_of_some _ c w hfind
  obtain ⟨w₂, hpush, htop⟩ := pushOne_class laws hallowed ⟨_, hfind⟩ w₁
  exact ⟨w₂, field_of_checkField ((bind_of_ok (catching_of_ok (map_eq_ok hforName))).trans hpush)
    htop⟩

/-- A package and a name that do not make the name of a class. -/
theorem field_package (laws : Loads env loader) {ref : Nat} {fieldName : JString}
    (hfind : loader.find (env.packageName (.javaPackage ref) ++ javaString "." ++ fieldName) = none)
    (w : World σ) :
    ∃ ref' w', field env (.javaPackage ref) fieldName w = .ok (some (.javaPackage ref')) w' ∧
      env.packageName (.javaPackage ref') =
        env.packageName (.javaPackage ref) ++ javaString "." ++ fieldName := by
  obtain ⟨message, w₁, hforName⟩ := laws.forName_of_none _ w hfind
  let packName := env.packageName (.javaPackage ref) ++ javaString "." ++ fieldName
  have hdot : javaString "." ≠ [] := by decide
  have hproper : javaPackage (some packName) = .ok packName :=
    javaPackage_of_ne (by simp [packName, hdot])
  have hnew := laws.newJavaPackage packName w₁.rest
  rw [hproper] at hnew
  obtain ⟨ref', s', hnew, hname⟩ := hnew
  have hcreate : library (env.newJavaPackage packName) w₁ =
      .ok (.javaPackage ref') { w₁ with rest := s' } := library_run hnew
  have hnone : catching (some <$> env.forName packName) Stop.isClassNotFound
      (fun _ => return none) w = .ok none w₁ := catching_of_error (map_eq_error hforName)
  have hpushed : LuaState.pushObjectValue env (some (.javaPackage ref')) { w₁ with rest := s' } =
      .ok () { w₁ with rest := s', lua := w₁.lua.pushUserdata (.javaPackage ref') } := rfl
  obtain ⟨w₂, hpush, htop⟩ := pushOne_userdata hpushed
  refine ⟨ref', w₂, field_of_checkField ?_ htop, hname⟩
  exact (bind_of_ok hnone).trans ((bind_of_ok hcreate).trans hpush)

/-- A class and the simple name of a class that it declares. -/
theorem field_member (laws : Loads env loader) (hallowed : Allowed env loader) {c c' : JavaClass}
    (hc : loader.Holds c) {simpleName : JString}
    (hmember : (simpleName, c') ∈ env.getDeclaredClasses c) (hnew : simpleName ≠ "new")
    (w : World σ) :
    ∃ w', field env (env.classObject c) simpleName w = .ok (some (env.classObject c')) w' := by
  obtain ⟨ref, href⟩ := laws.classObject c hc
  obtain ⟨w', hpush, htop⟩ := pushOne_class laws hallowed (laws.holds_declared c _ c' hc hmember) w
  have hmember' : checkMember env c (env.classObject c) simpleName =
      pushOne env (some (env.classObject c')) := by
    have hfound : ∃ found, (env.getDeclaredClasses c).find? (·.1 = simpleName) = some found := by
      apply Option.isSome_iff_exists.mp
      rw [List.find?_isSome]
      exact ⟨_, hmember, by simp⟩
    obtain ⟨⟨simpleName', c₁⟩, hfound⟩ := hfound
    obtain rfl : simpleName' = simpleName := by simpa using List.find?_some hfound
    obtain rfl : c₁ = c' :=
      laws.declared_unique c _ c₁ c' (List.mem_of_find?_eq_some hfound) hmember
    rw [checkMember, hfound]
  have hrun : checkField env (env.classObject c) simpleName w = .ok 1 w' := by
    unfold checkField
    rw [laws.asClass c hc]
    rw [href] at hmember' ⊢
    dsimp only
    rw [if_neg hnew, hmember', hpush]
  exact ⟨w', field_of_checkField hrun htop⟩

/-! ### A run through the names -/

/-- While no class has the name of the package, there are packages only. -/
theorem fields_packages (laws : Loads env loader) {names : List JString} {ref : Nat}
    (hnone : ∀ front, front <+: names → front ≠ [] →
      loader.find (qualified (env.packageName (.javaPackage ref)) front) = none) (w : World σ) :
    ∃ ref' w', fields env (.javaPackage ref) names w = .ok (some (.javaPackage ref')) w' ∧
      env.packageName (.javaPackage ref') =
        qualified (env.packageName (.javaPackage ref)) names := by
  induction names generalizing ref w with
  | nil => exact ⟨ref, w, rfl, rfl⟩
  | cons fieldName names ih =>
    have hfirst := hnone [fieldName] (by simp) (by simp)
    obtain ⟨ref₁, w₁, hrun, hname⟩ := field_package laws hfirst w
    have hrest : ∀ front, front <+: names → front ≠ [] →
        loader.find (qualified (env.packageName (.javaPackage ref₁)) front) = none := by
      intro front hfront _
      rw [hname]
      exact hnone (fieldName :: front) (List.cons_prefix_cons.mpr ⟨rfl, hfront⟩) (by simp)
    obtain ⟨ref₂, w₂, hruns, hnames⟩ := ih hrest w₁
    refine ⟨ref₂, w₂, (bind_of_ok hrun).trans hruns, ?_⟩
    rw [hnames, hname]
    rfl

theorem Canonical.holds (laws : Loads env loader) {name : JString} {names : List JString}
    {c : JavaClass} (h : Canonical env loader name names c) : loader.Holds c := by
  induction h with
  | topLevel hfind _ => exact ⟨_, hfind⟩
  | member _ hmember ih => exact laws.holds_declared _ _ _ ih hmember

/-- The packages on the way to a class are no classes. -/
theorem find_front (hseparate : loader.Separate) {name : JString} {front back : List JString}
    {c : JavaClass} (hfind : loader.find (qualified name (front ++ back)) = some c)
    (hback : back ≠ []) : loader.find (qualified name front) = none := by
  apply hseparate
  obtain ⟨rest, hrest⟩ := qualified_eq_append (qualified name front) hback
  rw [qualified_append, hrest] at hfind
  exact ⟨rest, c, hfind⟩

/-- The object turns from a package into a class at the class on the top level, and goes on from
there to the declared classes. -/
theorem fields_canonical (laws : Loads env loader) (hallowed : Allowed env loader)
    (hseparate : loader.Separate) {ref : Nat} {names : List JString} {c : JavaClass}
    (h : Canonical env loader (env.packageName (.javaPackage ref)) names c)
    (hunnamed : loader.find (env.packageName (.javaPackage ref)) = none)
    (hnew : ∀ fieldName ∈ names, fieldName ≠ "new") (w : World σ) :
    ∃ w', fields env (.javaPackage ref) names w = .ok (some (env.classObject c)) w' := by
  induction h with
  | @topLevel names c hfind _ =>
    rcases List.eq_nil_or_concat names with rfl | ⟨front, last, rfl⟩
    · cases hunnamed.symm.trans hfind
    · rw [List.concat_eq_append] at hfind ⊢
      have hnone : ∀ front', front' <+: front → front' ≠ [] →
          loader.find (qualified (env.packageName (.javaPackage ref)) front') = none := by
        rintro front' ⟨back, rfl⟩ _
        rw [List.append_assoc] at hfind
        exact find_front hseparate hfind (by simp)
      obtain ⟨ref', w₁, hruns, hname⟩ := fields_packages laws hnone w
      rw [qualified_append, ← hname] at hfind
      obtain ⟨w₂, hlast⟩ := field_class laws hallowed hfind w₁
      exact ⟨w₂, fields_snoc hruns hlast⟩
  | @member names c c' simpleName hc hmember ih =>
    obtain ⟨w₁, hruns⟩ := ih fun fieldName hname => hnew fieldName (List.mem_append_left _ hname)
    obtain ⟨w₂, hlast⟩ := field_member laws hallowed (hc.holds laws) hmember
      (hnew simpleName (by simp)) w₁
    exact ⟨w₂, fields_snoc hruns hlast⟩

/-- The names lead to the class with that canonical name, or to the package of that name if there
is no class on the way. -/
theorem fields_resolve (laws : Loads env loader) (hallowed : Allowed env loader)
    (hseparate : loader.Separate) (ref : Nat) (names : List JString) (w : World σ) :
    (∀ c, loader.find (env.packageName (.javaPackage ref)) = none →
      (∀ fieldName ∈ names, fieldName ≠ "new") →
      Canonical env loader (env.packageName (.javaPackage ref)) names c →
      ∃ w', fields env (.javaPackage ref) names w = .ok (some (env.classObject c)) w') ∧
    ((∀ front, front <+: names → front ≠ [] →
        loader.find (qualified (env.packageName (.javaPackage ref)) front) = none) →
      ∃ ref' w', fields env (.javaPackage ref) names w = .ok (some (.javaPackage ref')) w' ∧
        env.packageName (.javaPackage ref') =
          qualified (env.packageName (.javaPackage ref)) names) := by
  constructor
  · intro c hunnamed hnew hc
    exact fields_canonical laws hallowed hseparate hc hunnamed hnew w
  · intro hnone
    exact fields_packages laws hnone w

end Steps

/-! ### A small class loader -/

def mapName : JString := "java.util.Map"

def entryName : JString := "java.util.Map$Entry"

/-- `java.util.Map` is `.declared 1` and `java.util.Map.Entry` is `.declared 2`. -/
def mapLoader : ClassLoader where
  find name := if name = mapName then some (.declared 1)
    else if name = entryName then some (.declared 2) else none
  isTopLevel c := c = .declared 1

theorem name_of_find {name : JString} {c : JavaClass} (h : mapLoader.find name = some c) :
    name ∈ [mapName, entryName] ∧ c ∈ [.declared 1, .declared 2] := by
  simp only [mapLoader] at h
  split at h
  · next hname =>
    cases h
    simp [hname]
  · split at h
    · next hname =>
      cases h
      simp [hname]
    · cases h

theorem class_of_holds {c : JavaClass} (h : mapLoader.Holds c) :
    c = .declared 1 ∨ c = .declared 2 := by
  obtain ⟨name, hfind⟩ := h
  simpa using (name_of_find hfind).2

theorem separate_mapLoader : mapLoader.Separate := by
  rintro name ⟨rest, c, hclass⟩
  have hdot : ∀ a ∈ [mapName, entryName], ∀ b ∈ [mapName, entryName],
      ¬ (a ++ javaString ".") <+: b := by decide +kernel
  cases hname : mapLoader.find name with
  | none => rfl
  | some c' =>
    have hprefix : (name ++ javaString ".") <+: name ++ javaString "." ++ rest :=
      List.prefix_append _ _
    exact absurd hprefix (hdot _ (name_of_find hname).1 _ (name_of_find hclass).1)

/-- A package is known by the number that stands for its name. -/
def packageRef (name : JString) : Nat := Encodable.encode (name.map UInt16.toNat)

def refName (ref : Nat) : JString :=
  ((Encodable.decode (α := List Nat) ref).getD []).map UInt16.ofNat

theorem refName_packageRef (name : JString) : refName (packageRef name) = name := by
  simp [refName, packageRef, Function.comp_def]

def nameOf : JavaObject → JString
  | .javaPackage ref => refName ref
  | _ => []

def mapEnv : Env Unit :=
  { Env.plain Metatables.Vm.plain fun _ => [] with
    forName := fun name =>
      (mapLoader.find name).elim (throwJava (.classNotFoundException name)) pure
    getDeclaredClasses := fun c => if c = .declared 1 then [("Entry", .declared 2)] else []
    newJavaPackage := fun name s =>
      ((.javaPackage ∘ packageRef) <$> javaPackage (some name), s)
    packageName := nameOf
    getClass_newJavaPackage := by
      intro name s obj s' h
      cases hname : javaPackage (some name) with
      | ok name' =>
        rw [hname] at h
        cases h
        rfl
      | error e =>
        rw [hname] at h
        cases h
    forName_getName := by
      intro c w h
      have hnone : mapLoader.find (interfaceName c) = none := by
        cases c with
        | serializable | comparable | charSequence | cloneable => decide +kernel
        | _ => cases h
      have hforName : mapLoader.find ((Env.plain Metatables.Vm.plain fun _ => []).getName c) =
        none := hnone
      rw [hforName]
      trivial
    forName_stack := by
      intro name w
      cases mapLoader.find name with
      | some c => exact ⟨rfl, rfl⟩
      | none => exact fun _ => ⟨rfl, rfl⟩
    forName_raises := by
      intro name v w w' h
      cases hfind : mapLoader.find name with
      | some c | none =>
        rw [hfind] at h
        cases h }

theorem loads_mapEnv : Loads mapEnv mapLoader where
  forName_of_some name c w h := by
    have hrun : mapEnv.forName name w = .ok c w := by
      simp only [mapEnv, h]
      rfl
    exact ⟨w, hrun⟩
  forName_of_none name w h := by
    have hrun : mapEnv.forName name w = .error (.throws (.classNotFoundException name)) w := by
      simp only [mapEnv, h]
      rfl
    exact ⟨name, w, hrun⟩
  holds_declared := by
    intro c simpleName c' _ hmember
    simp only [mapEnv] at hmember
    split at hmember
    · obtain ⟨rfl, rfl⟩ : simpleName = "Entry" ∧ c' = .declared 2 := by simpa using hmember
      exact ⟨entryName, by decide +kernel⟩
    · cases hmember
  declared_unique := by
    intro c simpleName c₁ c₂ h₁ h₂
    simp only [mapEnv] at h₁ h₂
    split at h₁
    · obtain ⟨_, rfl⟩ : simpleName = "Entry" ∧ c₁ = .declared 2 := by simpa using h₁
      obtain ⟨_, rfl⟩ : simpleName = "Entry" ∧ c₂ = .declared 2 := by simp_all
      rfl
    · cases h₁
  classObject c h := by
    rcases class_of_holds h with rfl | rfl
    · exact ⟨1, rfl⟩
    · exact ⟨2, rfl⟩
  asClass c h := by
    rcases class_of_holds h with rfl | rfl
    · rfl
    · rfl
  newJavaPackage name s := by
    cases hname : javaPackage (some name) with
    | error e =>
      have hnew : mapEnv.newJavaPackage name s = (.error e, s) := by
        simp only [mapEnv, hname]
        rfl
      exact ⟨s, hnew⟩
    | ok name' =>
      have hnew : mapEnv.newJavaPackage name s = (.ok (.javaPackage (packageRef name')), s) := by
        simp only [mapEnv, hname]
        rfl
      exact ⟨packageRef name', s, hnew, refName_packageRef name'⟩

theorem canonical_entry : Canonical mapEnv mapLoader "java" ["util", "Map", "Entry"]
    (.declared 2) := by
  have hmap : Canonical mapEnv mapLoader "java" ["util", "Map"] (.declared 1) :=
    .topLevel (by decide +kernel) rfl
  have hentry : (("Entry" : JString), JavaClass.declared 2) ∈
      mapEnv.getDeclaredClasses (.declared 1) := by simp [mapEnv]
  exact hmap.member hentry

theorem allowed_mapEnv : Allowed mapEnv mapLoader := by
  intro c hc
  rcases class_of_holds hc with rfl | rfl <;> rfl

/-- `java.util.Map.Entry` is a class, and `java.util.concurrent` is a package. -/
theorem fields_resolve_entry :
    (∃ w', fields mapEnv (.javaPackage (packageRef "java")) ["util", "Map", "Entry"] World.plain =
      .ok (some (.object 0 2)) w') ∧
    ∃ ref w', fields mapEnv (.javaPackage (packageRef "java")) ["util", "concurrent"] World.plain =
      .ok (some (.javaPackage ref)) w' := by
  have hname : mapEnv.packageName (.javaPackage (packageRef "java")) = "java" :=
    refName_packageRef "java"
  have hresolve := fields_resolve loads_mapEnv allowed_mapEnv separate_mapLoader
    (packageRef "java")
  constructor
  · apply (hresolve ["util", "Map", "Entry"] World.plain).1 (.declared 2)
    · rw [hname]
      decide +kernel
    · decide
    · rw [hname]
      exact canonical_entry
  · have hnone : ∀ front, front <+: [javaString "util", "concurrent"] → front ≠ [] →
        mapLoader.find (qualified "java" front) = none := by
      intro front hfront hne
      have hcases : front = [] ∨ ∃ back, front = javaString "util" :: back ∧
          (back = [] ∨ back = [javaString "concurrent"]) := by
        simpa [List.prefix_cons_iff] using hfront
      rcases hcases with rfl | ⟨_, rfl, rfl | rfl⟩
      · exact absurd rfl hne
      · decide +kernel
      · decide +kernel
    rw [← hname] at hnone
    obtain ⟨ref, w', hrun, _⟩ := (hresolve ["util", "concurrent"] World.plain).2 hnone
    exact ⟨ref, w', hrun⟩

end JLua.Packages
