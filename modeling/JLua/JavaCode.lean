import JLua.Conversion
import JLua.Lib.Outcomes
import JLua.Metatables
import Mathlib.Data.List.Dedup

/-!
# Java code that works on a LuaState

Java code changes a Lua state and what else there is of the world. It returns, throws, or is left
by a Lua error that no protected call has caught. The virtual machine, reflection and whatever
the reflected members do are parameters.
-/

namespace JLua

open BinaryFloat Conversion Metatables OutcomeRules
set_option autoImplicit false

abbrev JString := List UInt16

def utf16Units (c : Char) : List UInt16 :=
  let n := c.toNat
  if n < 0x10000 then [UInt16.ofNat n]
  else [UInt16.ofNat (0xD800 + (n - 0x10000) / 0x400), UInt16.ofNat (0xDC00 + n % 0x400)]

def javaString (s : String) : JString := s.toList.flatMap utf16Units

instance : Coe String JString := ⟨javaString⟩

/-- What a call of a Lua function can change: everything but the stack of its caller. -/
structure Heap (σ : Type) where
  registry : Registry
  userdata : List Userdata
  rest : σ

/-- The `lua_State` at work, and the rest of the Lua and the Java heap. -/
structure World (σ : Type) where
  lua : State
  rest : σ

namespace World
variable {σ : Type}

def stack (w : World σ) : Stack := w.lua.stack

def peer (w : World σ) : Nat := w.lua.peer

def heap (w : World σ) : Heap σ := ⟨w.lua.registry, w.lua.userdata, w.rest⟩

def setStack (w : World σ) (L : Stack) : World σ := { w with lua := { w.lua with stack := L } }

def setHeap (w : World σ) (h : Heap σ) : World σ :=
  ⟨{ w.lua with registry := h.registry, userdata := h.userdata }, h.rest⟩

@[simp] theorem stack_setStack (w : World σ) (L : Stack) : (w.setStack L).stack = L := rfl

@[simp] theorem setStack_setStack (w : World σ) (L L' : Stack) :
    (w.setStack L).setStack L' = w.setStack L' := rfl

@[simp] theorem stack_setHeap (w : World σ) (h : Heap σ) : (w.setHeap h).stack = w.stack := rfl

end World

/-- The exceptions that the code throws itself, and any other object that is thrown. -/
inductive Thrown where
  | luaException (message : Option JString)
  | luaExceptionOf (message : Option JString) (cause : Thrown)
  | classNotFoundException (name : JString)
  | invocationTargetException (cause : Thrown)
  | runtimeException (name : String) (message : JString)
  | throwable (obj : JavaObject)

inductive Stop where
  | throws (t : Thrown)
  | raises (v : Value)
  | hangs

abbrev Code (σ α : Type) := EStateM Stop (World σ) α

def throwJava {σ α : Type} (t : Thrown) : Code σ α := throw (.throws t)

def throwLuaException {σ α : Type} (message : JString) : Code σ α :=
  throwJava (.luaException (some message))

/-- What the Java library does to the Java heap. -/
abbrev Library (σ α : Type) := σ → Except Thrown α × σ

def library {σ α : Type} (f : Library σ α) : Code σ α := fun w =>
  match f w.rest with
  | (.ok a, s) => .ok a { w with rest := s }
  | (.error t, s) => .error (.throws t) { w with rest := s }

theorem library_run {σ α : Type} {f : Library σ α} {w : World σ} {a : α} {s : σ}
    (h : f w.rest = (.ok a, s)) : library f w = .ok a { w with rest := s } := by
  rw [library, h]

theorem library_throws {σ α : Type} {f : Library σ α} {w : World σ} {t : Thrown} {s : σ}
    (h : f w.rest = (.error t, s)) : library f w = .error (.throws t) { w with rest := s } := by
  rw [library, h]

theorem ends_library {σ α : Type} {f : Library σ α} {w : World σ} {Q : α → World σ → Prop}
    {E : Stop → World σ → Prop} : Ends (library f) w Q E ↔
      (∀ a s, f w.rest = (.ok a, s) → Q a { w with rest := s }) ∧
      ∀ t s, f w.rest = (.error t, s) → E (.throws t) { w with rest := s } := by
  unfold Ends library
  obtain ⟨result, s⟩ := f w.rest
  cases result <;> simp

theorem stack_library {σ α : Type} {f : Library σ α} {w : World σ} :
    Ends (library f) w (fun _ w' => w'.stack = w.stack) fun _ w' => w'.stack = w.stack :=
  ends_library.mpr ⟨fun _ _ _ => rfl, fun _ _ _ => rfl⟩

/-- `Method.getParameterTypes` and what else the callbacks ask a method for. -/
structure Method where
  name : JString
  parameterTypes : List JavaClass
  returnType : JavaClass
  declaringClass : JavaClass
  isStatic : Bool
  deriving DecidableEq

structure Constructor where
  declaringClass : JavaClass
  parameterTypes : List JavaClass
  deriving DecidableEq

structure Field where
  name : JString
  type : JavaClass
  declaringClass : JavaClass
  deriving DecidableEq

/-! ### What reflection accepts -/

def Primitive.widensTo (p q : Primitive) : Bool :=
  p = q || match p with
    | .byte => q ∈ [.short, .int, .long, .float, .double]
    | .short | .char => q ∈ [.int, .long, .float, .double]
    | .int => q ∈ [.long, .float, .double]
    | .long => q ∈ [.float, .double]
    | .float => q = .double
    | _ => false

/-- Whether reflection takes the object for a parameter, a field or a component of a type. -/
def isLegalArgument (C : ClassTable) : JavaClass → Option JavaObject → Bool
  | .primitive p, some obj => obj.unboxed.any (·.widensTo p)
  | .primitive _, none => false
  | _, none => true
  | parameter, some obj => C.isAssignableFrom parameter obj.getClass

def areLegalArguments (C : ClassTable) (parameters : List JavaClass)
    (args : List (Option JavaObject)) : Bool :=
  parameters.length = args.length && (parameters.zip args).all fun x => isLegalArgument C x.1 x.2

/-- Lua and Java as the code finds them. No primitive type is a supertype, the class loader of the
program is the only one, interfaces have names of the language: not empty and without a comma,
reflection lists no member twice, and the initializers that run when a class is looked up leave
the stack alone and let no Lua error out. A `toString` leaves the Lua states alone; it may throw,
and it may answer `null`. -/
structure Env (σ : Type) where
  vm : Vm (Heap σ)
  loadstring : List UInt8 → Heap σ → Except Value Value × Heap σ
  /-- `lua_tostring` of a number, `lua_tonumber` of a string, and Java's text of a double. -/
  numberToString : Double → List UInt8
  stringToNumber : List UInt8 → Option Double
  doubleToString : Double → JString
  host : Host
  /-- `java.lang.Class` is the declared class with this number. -/
  classId : Nat
  /-- The class that a `Class` object stands for. -/
  asClass : JavaObject → Option JavaClass
  classObject : JavaClass → JavaObject
  getName : JavaClass → JString
  forName : JString → Code σ JavaClass
  getDeclaredMethods : JavaClass → List JString
  newProxyInstance : List JavaClass → Int → Library σ JavaObject
  getMethods : JavaClass → List Method
  getConstructors : JavaClass → List Constructor
  getField : JavaClass → JString → Option Field
  getDeclaredClasses : JavaClass → List (JString × JavaClass)
  /-- A method, a constructor or an access with arguments that reflection accepts. -/
  invoke : Method → Option JavaObject → List (Option JavaObject) → Code σ (Option JavaObject)
  newInstance : Constructor → List (Option JavaObject) → Code σ JavaObject
  fieldGet : Field → JavaObject → Code σ (Option JavaObject)
  fieldSet : Field → JavaObject → Option JavaObject → Code σ Unit
  getLength : JavaObject → Int
  arrayGet : JavaObject → Nat → Library σ (Option JavaObject)
  arraySet : JavaObject → Nat → Option JavaObject → Library σ Unit
  newArray : JavaClass → Nat → Library σ JavaObject
  newJavaPackage : JString → Library σ JavaObject
  packageName : JavaObject → JString
  toString : JavaObject → Library σ (Option JString)
  getCause : JavaObject → Option JavaObject
  supertypes_reference : ∀ id p, .primitive p ∉ host.classes.supertypes id
  getClass_of_asClass : ∀ obj c, asClass obj = some c → obj.getClass = .declared classId
  getClass_classObject : ∀ c, (classObject c).getClass = .declared classId
  getClass_newArray : ∀ c n s obj s', newArray c n s = (.ok obj, s') → obj.getClass = .array c
  getClass_newJavaPackage : ∀ name s obj s', newJavaPackage name s = (.ok obj, s') →
    obj.getClass = .javaPackage
  getName_proper : ∀ c, host.classes.isInterface c → getName c ≠ [] ∧ 0x2C ∉ getName c
  forName_getName : ∀ c w, host.classes.isInterface c →
    Ends (forName (getName c)) w (fun c' _ => c' = c) (fun _ _ => True)
  forName_stack : ∀ name w, Ends (forName name) w
    (fun _ w' => w'.stack = w.stack ∧ w'.peer = w.peer)
    (fun stop w' => (∃ t, stop = .throws t) → w'.stack = w.stack ∧ w'.peer = w.peer)
  forName_raises : ∀ name v w w', forName name w ≠ .error (.raises v) w'
  proxy_implements : ∀ interfaces ref s obj s', newProxyInstance interfaces ref s = (.ok obj, s') →
    ∀ c ∈ interfaces, host.classes.isAssignableFrom c obj.getClass
  getMethods_nodup : ∀ c, (getMethods c).Nodup
  getConstructors_nodup : ∀ c, (getConstructors c).Nodup
  declaringClass_of_mem : ∀ c, ∀ m ∈ getMethods c, host.classes.isAssignableFrom m.declaringClass c

namespace Env
variable {σ : Type} (env : Env σ)

def javaLangClass : JavaClass := .declared env.classId

def isThrowable (obj : JavaObject) : Bool :=
  env.host.classes.isAssignableFrom .throwable obj.getClass

def isException : Stop → Bool
  | .throws (.throwable obj) => env.host.classes.isAssignableFrom .exception obj.getClass
  | .throws _ => true
  | _ => false

def isLuaException : Stop → Bool
  | .throws (.luaException _) | .throws (.luaExceptionOf _ _) => true
  | .throws (.throwable obj) => env.host.classes.isAssignableFrom .luaException obj.getClass
  | _ => false

/-- The constructor `LuaException(Exception)`, which takes over the cause if there is one. -/
def wrap : Thrown → Thrown
  | .luaExceptionOf _ cause => .luaExceptionOf none cause
  | .invocationTargetException cause => .luaExceptionOf none cause
  | .throwable obj => .luaExceptionOf none (.throwable ((env.getCause obj).getD obj))
  | e => .luaExceptionOf none e

end Env

def Stop.isClassNotFound : Stop → Bool
  | .throws (.classNotFoundException _) => true
  | _ => false

/-! ### A small world for examples -/

/-- Tables without entries and handlers, and functions that return nothing. -/
def Metatables.Vm.plain : Vm (Heap Unit) where
  globals _ := .table 0
  rawget _ _ _ := .nil
  rawset s _ _ _ := s
  gettmbyobj _ _ _ := .nil
  newtable s := (1, s)
  call _ _ s := some (.ok [], s)

/-- Nothing is on the stack, and nothing in the registry. -/
def World.plain : World Unit := ⟨⟨1, [], ⟨fun _ => .nil, 0⟩, []⟩, ()⟩

def ClassTable.plain : ClassTable := ⟨fun _ => false, fun _ => [.object]⟩

def interfaceName : JavaClass → JString
  | .serializable => "java.io.Serializable"
  | .comparable => "java.lang.Comparable"
  | .charSequence => "java.lang.CharSequence"
  | .cloneable => "java.lang.Cloneable"
  | _ => "C"

def interfaceNamed (name : JString) : Option JavaClass :=
  [.serializable, .comparable, .charSequence, .cloneable].find? (interfaceName · = name)

/-- Classes `.declared id` with the given methods. The object `.object 0 id` stands for such a
class, and `.declared 0` is `java.lang.Class`. -/
def Env.plain {σ : Type} (vm : Vm (Heap σ)) (methods : JavaClass → List Method) : Env σ where
  vm := vm
  loadstring _ h := (.ok (.function 0), h)
  numberToString _ := []
  stringToNumber _ := none
  doubleToString _ := []
  host := ⟨.plain, ModifiedUtf8.decode, fun _ => "",
    fun _ _ _ => .classNotFound "", none⟩
  classId := 0
  asClass
    | .object 0 id => some (.declared id)
    | _ => none
  classObject
    | .declared id => .object 0 id
    | _ => .object 0 0
  getName := interfaceName
  forName name :=
    match interfaceNamed name with
    | some c => return c
    | none => throwJava (.classNotFoundException name)
  getDeclaredMethods _ := []
  newProxyInstance _ _ s := (.error (.runtimeException "java.lang.IllegalArgumentException" ""), s)
  getMethods c :=
    ((methods c).filter fun m => ClassTable.plain.isAssignableFrom m.declaringClass c).dedup
  getConstructors _ := []
  getField _ _ := none
  getDeclaredClasses _ := []
  invoke _ _ _ := return none
  newInstance c _ := return .object 1 0
  fieldGet _ _ := return none
  fieldSet _ _ _ := return ()
  getLength _ := 0
  arrayGet _ _ s := (.ok none, s)
  arraySet _ _ _ s := (.ok (), s)
  newArray c _ s := (.ok (.array c 0), s)
  newJavaPackage _ s := (.ok (.javaPackage 0), s)
  packageName _ := []
  toString _ s := (.ok (some []), s)
  getCause _ := none
  supertypes_reference := by simp [ClassTable.plain]
  getClass_of_asClass obj c h := by
    split at h
    · rfl
    · cases h
  getClass_classObject c := by
    split <;> rfl
  getClass_newArray := by
    rintro c n s obj s' ⟨⟩
    rfl
  getClass_newJavaPackage := by
    rintro name s obj s' ⟨⟩
    rfl
  getName_proper c h := by
    cases c with
    | serializable | comparable | charSequence | cloneable => decide +kernel
    | _ => cases h
  forName_getName c w h := by
    have hname : interfaceNamed (interfaceName c) = some c := by
      cases c with
      | serializable | comparable | charSequence | cloneable => decide +kernel
      | _ => cases h
    simp [hname]
  forName_stack name w := by
    split
    · exact ⟨rfl, rfl⟩
    · exact fun _ => ⟨rfl, rfl⟩
  forName_raises name v w w' := by
    cases interfaceNamed name <;> nofun
  proxy_implements := by
    rintro interfaces ref s obj s' ⟨⟩
  getMethods_nodup _ := List.nodup_dedup _
  getConstructors_nodup _ := List.nodup_nil
  declaringClass_of_mem c m h := (List.mem_filter.mp (List.mem_dedup.mp h)).2

end JLua
