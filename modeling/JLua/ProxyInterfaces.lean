import JLua.InvocationHandler

/-!
# The methods that a proxy needs

`createProxy` asks the table for the methods that the listed interfaces declare themselves. What
can be called through an interface is another list: methods come from its superinterfaces, and
default and static methods have bodies.
-/

namespace JLua.ProxyInterfaces

open Accessors Delivery LuaInvocationHandler Metatables OutcomeRules
set_option autoImplicit false

variable {σ α : Type}

/-! ### Interfaces -/

/-- What the modifiers of a method of an interface come to; `hidden` are the private ones. -/
inductive Modifier where
  | abstract
  | default
  | static
  | hidden
  deriving DecidableEq

structure InterfaceMethod where
  name : JString
  parameterTypes : List JavaClass
  modifier : Modifier
  deriving DecidableEq

/-- A method of an instance with the same signature. -/
def InterfaceMethod.overrides (m' m : InterfaceMethod) : Bool :=
  (m'.modifier = .abstract || m'.modifier = .default) && m'.name = m.name &&
    m'.parameterTypes = m.parameterTypes

/-- An interface itself and those that it extends. -/
def superinterface (C : ClassTable) (c d : JavaClass) : Bool :=
  C.isInterface d && C.isAssignableFrom d c

/-- An abstract method of the interface or of one that it extends, which no interface between them
overrides. -/
def CallableAbstract (C : ClassTable) (declared : JavaClass → List InterfaceMethod) (c : JavaClass)
    (m : InterfaceMethod) : Prop :=
  m.modifier = .abstract ∧ ∃ d, superinterface C c d ∧ m ∈ declared d ∧
    ∀ e, superinterface C c e → superinterface C e d → e ≠ d →
      ∀ m' ∈ declared e, ¬ m'.overrides m

/-! ### What createProxy should do -/

section Proxy
variable (env : Env σ) (o : LuaObject) (declared : JavaClass → List InterfaceMethod)

def HasFunction (name : JString) (w : World σ) : Prop :=
  ∃ a h, Looks env o name w (.function a) h

/-- The table has every abstract method that can be called through the interfaces. -/
def Complete (interfaces : List JavaClass) (w : World σ) : Prop :=
  ∀ c ∈ interfaces, ∀ m, CallableAbstract env.host.classes declared c m →
    HasFunction env o m.name w

/-- What is thrown when a method is missing. -/
def missing (clazz : JavaClass) (method : JString) : Thrown :=
  .luaException (some ("Cannot implement interface '" ++ env.getName clazz ++
    javaString "' since method '" ++ method ++ javaString "' is missing."))

/-- Only a complete table gets a proxy, and only an incomplete one is refused for a method. -/
structure ChecksMethods (implem : JString) (interfaces : List JavaClass) (w : World σ) :
    Prop where
  proxy : ∀ obj w', o.createProxy env implem w = .ok obj w' → Complete env o declared interfaces w'
  refused : ∀ c name w', o.createProxy env implem w = .error (.throws (missing env c name)) w' →
    ¬ Complete env o declared interfaces w'

end Proxy

/-! ### Tables that have the same functions -/

/-- The stop is no complaint about a method. -/
def Unrelated (env : Env σ) (stop : Stop) : Prop := ∀ c name, stop ≠ .throws (missing env c name)

/-- In the states `I` that `createProxy` goes through, a field of the table is always a function,
or always another value, or its access fails each time; a class is always found or never; and so is
the class of the proxy. -/
structure Steady (env : Env σ) (o : LuaObject) (interfaces : List JavaClass)
    (table : JString → Option Bool) (loads : JavaClass → Bool) (defines : Prop)
    (I : World σ → Prop) : Prop where
  isTable : ∀ w, I w → (denoted o w).type = .table
  lookup : ∀ name w, I w →
    match luaVGettable env.vm (denoted o w) (LuaState.luaString name) w.heap with
    | some (.ok v, h) => table name = some (decide (v.type = .function)) ∧ Ordered h ∧
      I (registered v (w.setHeap h))
    | _ => table name = none
  load : ∀ c ∈ interfaces, ∀ w, I w →
    match env.forName (env.getName c) w with
    | .ok c' w' => c' = c ∧ loads c = true ∧ I w'
    | .error stop _ => loads c = false ∧ Unrelated env stop
  define : ∀ w, I w →
    match env.newProxyInstance interfaces o.ref w.rest with
    | (.ok _, s) => defines ∧ I { w with rest := s }
    | (.error t, _) => ¬ defines ∧ Unrelated env (.throws t)

def hasFunction (table : JString → Option Bool) (name : JString) : Bool :=
  (table name).getD false

def lacks (table : JString → Option Bool) (name : JString) : Bool := !hasFunction table name

/-- The names that are asked for, up to a class that is not found. -/
def asked (declared : JavaClass → List InterfaceMethod) (loads : JavaClass → Bool)
    (interfaces : List JavaClass) : List JString :=
  (interfaces.takeWhile loads).flatMap fun c => (declared c).map InterfaceMethod.name

/-- Nothing abstract is missing from the table. -/
def IsComplete (C : ClassTable) (declared : JavaClass → List InterfaceMethod)
    (table : JString → Option Bool) (interfaces : List JavaClass) : Prop :=
  ∀ c ∈ interfaces, ∀ m, CallableAbstract C declared c m → hasFunction table m.name

/-- If all that are declared are there, then all that are inherited are, unless no proxy is made
anyway. If one that is declared is missing, then an abstract one is, unless the access fails. -/
def DeclaredDecides (C : ClassTable) (declared : JavaClass → List InterfaceMethod)
    (table : JString → Option Bool) (loads : JavaClass → Bool) (defines : Prop)
    (interfaces : List JavaClass) : Prop :=
  match (asked declared loads interfaces).find? (lacks table) with
  | none => (∀ c ∈ interfaces, loads c) → defines → IsComplete C declared table interfaces
  | some name => (table name).isSome → ¬ IsComplete C declared table interfaces

/-! ### How the checks end -/

section Checks
variable {env : Env σ} {o : LuaObject} {declared : JavaClass → List InterfaceMethod}
  {interfaces : List JavaClass} {table : JString → Option Bool} {loads : JavaClass → Bool}
  {defines : Prop} {I : World σ → Prop}

variable (env table I) in
/-- The checks end with `a` when no name is missing and `all` classes are found, or with a complaint
about the first name that is missing, or with something else in their way. -/
inductive Ending (a : α) (all : Prop) :
    Option JString → EStateM.Result Stop (World σ) α → Prop
  | fine {w : World σ} (hall : all) (hw : I w) : Ending a all none (.ok a w)
  | missing {c : JavaClass} {name : JString} {w : World σ} (hvalue : (table name).isSome)
      (hw : I w) : Ending a all (some name) (.error (.throws (missing env c name)) w)
  | other {found : Option JString} {stop : Stop} {w : World σ} (hstop : Unrelated env stop)
      (hnone : found = none → ¬ all) (hsome : ∀ name, found = some name → table name = none) :
      Ending a all found (.error stop w)

theorem unrelated_hangs (env : Env σ) : Unrelated env .hangs := by
  intro c name h
  cases h

theorem unrelated_raises (env : Env σ) (e : Value) : Unrelated env (.raises e) := by
  intro c name h
  cases h

theorem find?_lacks_of_none {name : JString} (h : table name = none) (names : List JString) :
    (name :: names).find? (lacks table) = some name := by
  rw [List.find?_cons, lacks, hasFunction, h]
  rfl

theorem Ending.failed {a : α} {all : Prop} {name : JString} (h : table name = none)
    {stop : Stop} (hstop : Unrelated env stop) (names : List JString) (w : World σ) :
    Ending env table I a all ((name :: names).find? (lacks table)) (.error stop w) := by
  rw [find?_lacks_of_none h]
  refine .other hstop nofun ?_
  rintro _ ⟨⟩
  exact h

theorem isFunction_run (o : LuaObject) (w : World σ) : (o.isFunction : Code σ Bool) w =
    .ok (decide ((denoted o w).type = .function)) w := withPushed_type _ o w

theorem checkMethods_ending (h : Steady env o interfaces table loads defines I)
    (clazz : JavaClass) (methods : List JString) {w : World σ} (hw : I w) :
    Ending env table I () True (methods.find? (lacks table))
      (LuaObject.checkMethods env o clazz methods w) := by
  induction methods generalizing w with
  | nil => exact .fine trivial hw
  | cons method methods ih =>
    have hindexable : indexable (denoted o w) = true := by simp [indexable, h.isTable w hw]
    have hrun : o.getField env (some method) w = _ := getField_run env hindexable
    have hlookup := h.lookup method w hw
    unfold LuaObject.checkMethods
    cases hlooked : luaVGettable env.vm (denoted o w) (LuaState.luaString method) w.heap with
    | none =>
      rw [hlooked] at hrun hlookup
      rw [bind_of_error hrun]
      exact .failed hlookup (unrelated_hangs env) methods _
    | some result =>
      obtain ⟨r, heap⟩ := result
      rw [hlooked] at hrun hlookup
      cases r with
      | error e =>
        rw [bind_of_error hrun]
        exact .failed hlookup (unrelated_raises env e) methods _
      | ok v =>
        obtain ⟨hvalue, hordered, hw₁⟩ := hlookup
        have hfield := isFunction_run ⟨w.peer, (heap.registry.luaLRef v).1⟩
          (registered v (w.setHeap heap))
        have hdenoted : denoted ⟨w.peer, (heap.registry.luaLRef v).1⟩
            (registered v (w.setHeap heap)) = v :=
          denoted_registered (w := w.setHeap heap) hordered w.peer
        rw [hdenoted] at hfield
        rw [bind_of_ok hrun, bind_of_ok hfield, List.find?_cons, lacks, hasFunction, hvalue,
          Option.getD_some]
        cases hv : decide (v.type = .function) with
        | true => exact ih hw₁
        | false =>
          refine .missing ?_ hw₁
          rw [hvalue]
          rfl

theorem asked_cons (c : JavaClass) (cs : List JavaClass) : asked declared loads (c :: cs) =
    if loads c then (declared c).map InterfaceMethod.name ++ asked declared loads cs else [] := by
  unfold asked
  rw [List.takeWhile_cons]
  split
  · exact List.flatMap_cons
  · rfl

theorem findInterfaces_ending (h : Steady env o interfaces table loads defines I)
    (hdeclared : ∀ c ∈ interfaces,
      env.getDeclaredMethods c = (declared c).map InterfaceMethod.name)
    {cs : List JavaClass} (hcs : cs ⊆ interfaces) {w : World σ} (hw : I w) :
    Ending env table I cs (∀ c ∈ cs, loads c) ((asked declared loads cs).find? (lacks table))
      (LuaObject.findInterfaces env o (cs.map env.getName) w) := by
  induction cs generalizing w with
  | nil => exact .fine (by simp) hw
  | cons c cs ih =>
    obtain ⟨hc, hrest⟩ := List.cons_subset.mp hcs
    have hload := h.load c hc w hw
    rw [List.map_cons, LuaObject.findInterfaces, asked_cons]
    cases hname : env.forName (env.getName c) w with
    | error stop w₁ =>
      rw [hname] at hload
      obtain ⟨hnot, hstop⟩ := hload
      rw [bind_of_error hname, if_neg (by simp [hnot])]
      refine .other hstop (fun _ hall => ?_) nofun
      have hloads := hall c List.mem_cons_self
      rw [hnot] at hloads
      cases hloads
    | ok c' w₁ =>
      rw [hname] at hload
      obtain ⟨rfl, hloads, hw₁⟩ := hload
      rw [bind_of_ok hname, if_pos hloads, hdeclared c' hc, List.find?_append]
      have hchecks := checkMethods_ending h c' ((declared c').map InterfaceMethod.name) hw₁
      generalize List.find? (lacks table) _ = found at hchecks ⊢
      generalize hrun : LuaObject.checkMethods env o c' _ w₁ = result at hchecks
      cases hchecks with
      | missing hvalue hw₂ =>
        rw [bind_of_error hrun]
        exact .missing hvalue hw₂
      | other hstop hnone hsome =>
        rw [bind_of_error hrun]
        cases found with
        | none => exact absurd trivial (hnone rfl)
        | some name => exact .other hstop nofun hsome
      | fine _ hw₂ =>
        have hothers := ih hrest hw₂
        rw [bind_of_ok hrun, Option.none_or]
        generalize List.find? (lacks table) _ = found at hothers ⊢
        generalize hrun₂ : LuaObject.findInterfaces env o (cs.map env.getName) _ = result at hothers
        cases hothers with
        | fine hall hw₃ =>
          rw [bind_of_ok hrun₂]
          exact .fine (List.forall_mem_cons.mpr ⟨hloads, hall⟩) hw₃
        | missing hvalue hw₃ =>
          rw [bind_of_error hrun₂]
          exact .missing hvalue hw₃
        | other hstop hnone hsome =>
          rw [bind_of_error hrun₂]
          exact .other hstop (fun hfound hall => hnone hfound fun d hd =>
            hall d (List.mem_cons_of_mem _ hd)) hsome

theorem hasFunction_iff (h : Steady env o interfaces table loads defines I) {w : World σ}
    (hw : I w) (name : JString) : HasFunction env o name w ↔ hasFunction table name := by
  have hlookup := h.lookup name w hw
  unfold HasFunction Looks hasFunction
  cases hlooked : luaVGettable env.vm (denoted o w) (LuaState.luaString name) w.heap with
  | none =>
    rw [hlooked] at hlookup
    rw [hlookup]
    exact iff_of_false (by rintro ⟨a, heap, ⟨⟩⟩) (by simp)
  | some result =>
    obtain ⟨r, heap⟩ := result
    rw [hlooked] at hlookup
    cases r with
    | error e =>
      rw [hlookup]
      exact iff_of_false (by rintro ⟨a, heap, ⟨⟩⟩) (by simp)
    | ok v =>
      rw [hlookup.1, Option.getD_some, decide_eq_true_iff]
      constructor
      · rintro ⟨a, heap, ⟨⟩⟩
        rfl
      · intro hv
        cases v with
        | function a => exact ⟨a, heap, rfl⟩
        | _ => cases hv

theorem complete_iff (h : Steady env o interfaces table loads defines I) {w : World σ}
    (hw : I w) : Complete env o declared interfaces w ↔
      IsComplete env.host.classes declared table interfaces := by
  unfold Complete IsComplete
  simp only [hasFunction_iff h hw]

theorem createProxy_eq {implem : JString} {w : World σ} (ht : (denoted o w).type = .table) :
    o.createProxy env implem w = (do
      let interfaces ← LuaObject.findInterfaces env o (LuaObject.tokens implem)
      library (env.newProxyInstance interfaces o.ref) : Code σ JavaObject) w := by
  have htable : (o.isTable : Code σ Bool) w = .ok true w := by
    have hrun := withPushed_type (fun t : LuaType => decide (t = .table)) o w
    rw [ht] at hrun
    exact hrun
  unfold LuaObject.createProxy
  rw [bind_of_ok htable]
  rfl

theorem checksMethods_of_proxy {implem : JString} {w w' : World σ} {obj : JavaObject}
    (hcreate : o.createProxy env implem w = .ok obj w') :
    ChecksMethods env o declared implem interfaces w ↔
      Complete env o declared interfaces w' := by
  constructor
  · exact fun hchecks => hchecks.proxy obj w' hcreate
  · intro hcomplete
    refine ⟨fun obj' w₁ hok => ?_, fun c name w₁ herror => ?_⟩
    · obtain ⟨_, rfl⟩ := EStateM.Result.ok.inj (hcreate.symm.trans hok)
      exact hcomplete
    · cases hcreate.symm.trans herror

theorem checksMethods_of_missing {implem : JString} {w w' : World σ} {c : JavaClass}
    {name : JString}
    (hcreate : o.createProxy env implem w = .error (.throws (missing env c name)) w') :
    ChecksMethods env o declared implem interfaces w ↔
      ¬ Complete env o declared interfaces w' := by
  constructor
  · exact fun hchecks => hchecks.refused c name w' hcreate
  · intro hincomplete
    refine ⟨fun obj w₁ hok => ?_, fun c' name' w₁ herror => ?_⟩
    · cases hcreate.symm.trans hok
    · obtain ⟨_, rfl⟩ := EStateM.Result.error.inj (hcreate.symm.trans herror)
      exact hincomplete

theorem checksMethods_of_unrelated {implem : JString} {w w' : World σ} {stop : Stop}
    (hcreate : o.createProxy env implem w = .error stop w') (hstop : Unrelated env stop) :
    ChecksMethods env o declared implem interfaces w := by
  refine ⟨fun obj w₁ hok => ?_, fun c name w₁ herror => ?_⟩
  · cases hcreate.symm.trans hok
  · obtain ⟨hthrown, _⟩ := EStateM.Result.error.inj (hcreate.symm.trans herror)
    exact absurd hthrown (hstop c name)

/-- `createProxy` does what it should exactly if the declared methods decide. -/
theorem checksMethods_iff (h : Steady env o interfaces table loads defines I)
    (hdeclared : ∀ c ∈ interfaces,
      env.getDeclaredMethods c = (declared c).map InterfaceMethod.name)
    {implem : JString} (hnames : LuaObject.tokens implem = interfaces.map env.getName)
    {w : World σ} (hw : I w) :
    ChecksMethods env o declared implem interfaces w ↔
      DeclaredDecides env.host.classes declared table loads defines interfaces := by
  have hends := findInterfaces_ending h hdeclared (List.Subset.refl interfaces) hw
  have hcreate : o.createProxy env implem w = _ := createProxy_eq (h.isTable w hw)
  rw [hnames] at hcreate
  unfold DeclaredDecides
  generalize List.find? (lacks table) _ = found at hends ⊢
  generalize hrun : LuaObject.findInterfaces env o (interfaces.map env.getName) w = result at hends
  cases hends with
  | missing hvalue hw₁ =>
    rw [bind_of_error hrun] at hcreate
    rw [checksMethods_of_missing hcreate, complete_iff h hw₁]
    exact ⟨fun hincomplete _ => hincomplete, fun hincomplete => hincomplete hvalue⟩
  | other hstop hnone hsome =>
    rw [bind_of_error hrun] at hcreate
    apply iff_of_true (checksMethods_of_unrelated hcreate hstop)
    cases found with
    | none => exact fun hall => absurd hall (hnone rfl)
    | some name =>
      intro hvalue
      rw [hsome name rfl] at hvalue
      cases hvalue
  | @fine w₁ hall hw₁ =>
    rw [bind_of_ok hrun] at hcreate
    have hdefine := h.define w₁ hw₁
    unfold library at hcreate
    cases hlibrary : env.newProxyInstance interfaces o.ref w₁.rest with
    | mk r s =>
      rw [hlibrary] at hdefine hcreate
      cases r with
      | error t =>
        obtain ⟨hnot, hstop⟩ := hdefine
        apply iff_of_true (checksMethods_of_unrelated hcreate hstop)
        exact fun _ hdefines => absurd hdefines hnot
      | ok obj =>
        obtain ⟨hdefines, hw₂⟩ := hdefine
        rw [checksMethods_of_proxy hcreate, complete_iff h hw₂]
        exact ⟨fun hcomplete _ _ => hcomplete, fun hcomplete => hcomplete hall hdefines⟩

end Checks

/-! ### A small hierarchy -/

/-- The interface `B` extends `A`, and a class implements both. -/
def hierarchy : ClassTable where
  interfaces id := id = 1 || id = 2
  supertypes
    | 2 => [.declared 1, .object]
    | 3 => [.declared 2, .declared 1, .object]
    | _ => [.object]

/-- The one method of `A`; `B` has none of its own. -/
def inheritedMethod : InterfaceMethod := ⟨"f", [], .abstract⟩

def hierarchyMethods : JavaClass → List InterfaceMethod
  | .declared 1 => [inheritedMethod]
  | _ => []

def hierarchyName : JavaClass → JString
  | .declared 1 => "A"
  | .declared 2 => "B"
  | c => interfaceName c

def hierarchyInterfaces : List JavaClass :=
  [.declared 1, .declared 2, .serializable, .comparable, .charSequence, .cloneable]

def hierarchyNamed (name : JString) : Option JavaClass :=
  hierarchyInterfaces.find? (hierarchyName · = name)

theorem mem_hierarchyInterfaces {c : JavaClass} (h : hierarchy.isInterface c) :
    c ∈ hierarchyInterfaces := by
  cases c with
  | declared id =>
    have hid : id = 1 ∨ id = 2 := by simpa [ClassTable.isInterface, hierarchy] using h
    rcases hid with rfl | rfl <;> simp [hierarchyInterfaces]
  | serializable | comparable | charSequence | cloneable => simp [hierarchyInterfaces]
  | _ => cases h

theorem hierarchyName_proper : ∀ c ∈ hierarchyInterfaces,
    hierarchyName c ≠ [] ∧ 0x2C ∉ hierarchyName c := by decide +kernel

theorem hierarchyNamed_name : ∀ c ∈ hierarchyInterfaces,
    hierarchyNamed (hierarchyName c) = some c := by decide +kernel

/-- All keys of all tables hold one value, which may be another one each time that it is read. -/
def hierarchyEnv (read : Heap Unit → Value) : Env Unit :=
  { Env.plain { Metatables.Vm.plain with rawget := fun h _ _ => read h } fun _ => [] with
    host := ⟨hierarchy, ModifiedUtf8.decode, fun _ => "", fun _ _ _ => .classNotFound "", none⟩
    getName := hierarchyName
    forName := fun name =>
      match hierarchyNamed name with
      | some c => return c
      | none => throwJava (.classNotFoundException name)
    getDeclaredMethods := fun c => (hierarchyMethods c).map InterfaceMethod.name
    newProxyInstance := fun interfaces _ s =>
      if interfaces.all fun c => hierarchy.isAssignableFrom c (.declared 3) then
        (.ok (.object 3 0), s)
      else (.error (.runtimeException "java.lang.IllegalArgumentException" ""), s)
    getMethods := fun _ => []
    supertypes_reference := by
      intro id p
      simp only [hierarchy]
      split <;> simp
    getName_proper := by
      intro c h
      exact hierarchyName_proper c (mem_hierarchyInterfaces h)
    forName_getName := by
      intro c w h
      rw [hierarchyNamed_name c (mem_hierarchyInterfaces h)]
      rfl
    forName_stack := by
      intro name w
      split
      · exact ⟨rfl, rfl⟩
      · exact fun _ => ⟨rfl, rfl⟩
    forName_raises := by
      intro name v w w'
      cases hierarchyNamed name <;> nofun
    proxy_implements := by
      intro interfaces ref s obj s' h c hc
      split at h
      · next hall =>
        cases h
        exact List.all_eq_true.mp hall c hc
      · cases h
    getMethods_nodup := fun _ => List.nodup_nil
    declaringClass_of_mem := by
      intro c m h
      cases h }

/-- A closure that has not been there before, as an `__index` may return it. -/
def freshFunction (h : Heap Unit) : Value := .function h.registry.objlen

theorem steady_hierarchyEnv : Steady (hierarchyEnv freshFunction) ⟨1, 1⟩ [.declared 1, .declared 2]
    (fun _ => some true) (fun _ => true) True fun w => ∃ free,
      w.lua.registry.Sound free ∧ Registry.Held w.lua.registry free 1 ∧
        w.lua.registry.rawGetI 1 = .table 0 where
  isTable := by
    rintro w ⟨free, _, _, htable⟩
    exact congrArg Value.type htable
  lookup := by
    rintro name w ⟨free, hsound, hheld, htable⟩
    have hdenoted : denoted ⟨1, 1⟩ w = .table 0 := htable
    have hlooked : luaVGettable (hierarchyEnv freshFunction).vm (.table 0)
      (LuaState.luaString name) w.heap = some (.ok (freshFunction w.heap), w.heap) := rfl
    rw [hdenoted, hlooked]
    obtain ⟨free', hsound', _, _, hkeep⟩ := hsound.luaLRef (freshFunction w.heap)
    obtain ⟨hheld', hsame⟩ := hkeep 1 hheld
    exact ⟨rfl, ⟨free, hsound⟩, free', hsound', hheld', hsame.trans htable⟩
  load := by
    intro c hc w hw
    have hcase : c = .declared 1 ∨ c = .declared 2 := by simpa using hc
    rcases hcase with rfl | rfl <;> exact ⟨rfl, rfl, hw⟩
  define := by
    rintro w hw
    exact ⟨trivial, hw⟩

theorem tokens_hierarchy : LuaObject.tokens "A,B" =
    [JavaClass.declared 1, .declared 2].map (hierarchyEnv freshFunction).getName := by
  decide +kernel

theorem checksMethods_iff_inherited :
    ChecksMethods (hierarchyEnv freshFunction) ⟨1, 1⟩ hierarchyMethods "A,B"
      [.declared 1, .declared 2] tableWorld := by
  have hsound : tableWorld.lua.registry.Sound [] := ⟨rfl, List.nodup_nil, by simp, rfl⟩
  have hheld : Registry.Held tableWorld.lua.registry [] 1 :=
    Or.inr (by simp [Registry.Used, tableWorld])
  apply (checksMethods_iff steady_hierarchyEnv (fun _ _ => rfl) tokens_hierarchy
    ⟨[], hsound, hheld, rfl⟩).mpr
  intro _ _ c _ m _
  rfl

/-- The table has no `f`, and `B` gets a proxy. -/
theorem inherited_method_unchecked :
    ¬ ChecksMethods (hierarchyEnv fun _ => .nil) ⟨1, 1⟩ hierarchyMethods "B" [.declared 2]
      tableWorld := by
  have hcreate : (⟨1, 1⟩ : LuaObject).createProxy (hierarchyEnv fun _ => .nil) "B" tableWorld =
      .ok (.object 3 0) tableWorld := by
    rfl
  rw [checksMethods_of_proxy hcreate]
  intro hcomplete
  have hcallable : CallableAbstract hierarchy hierarchyMethods (.declared 2) inheritedMethod := by
    refine ⟨rfl, .declared 1, by decide, List.mem_singleton_self _, ?_⟩
    intro e _ _ hne m' hm'
    simp [hierarchyMethods] at hm'
  obtain ⟨a, h, hlooks⟩ := hcomplete _ (List.mem_singleton_self _) _ hcallable
  cases hlooks

end JLua.ProxyInterfaces
