import JLua.Value

/-!
# Java classes and objects

Objects are told apart as far as the conversions tell them apart. Boxes and strings are known
by their contents, since Java compares them with `equals`; every other object is known by its
reference.
-/

namespace JLua

open BinaryFloat
set_option autoImplicit false

inductive Primitive where
  | boolean
  | byte
  | short
  | char
  | int
  | long
  | float
  | double
  | void
  deriving DecidableEq, Repr

inductive JavaClass where
  | primitive (p : Primitive)
  | boxed (p : Primitive)
  | object
  | number
  | string
  | luaObject
  | throwable
  | exception
  | luaException
  | javaPackage
  | serializable
  | comparable
  | charSequence
  | cloneable
  | array (component : JavaClass)
  | declared (id : Nat)
  deriving DecidableEq, Repr

/-- The classes that a program declares, with all their supertypes. -/
structure ClassTable where
  interfaces : Nat → Bool
  supertypes : Nat → List JavaClass

namespace ClassTable

def supers (C : ClassTable) : JavaClass → List JavaClass
  | .primitive _ => []
  | .boxed .boolean => [.object, .serializable, .comparable]
  | .boxed .char => [.object, .serializable, .comparable]
  | .boxed _ => [.number, .object, .serializable, .comparable]
  | .object => []
  | .number => [.object, .serializable]
  | .string => [.object, .serializable, .comparable, .charSequence]
  | .throwable => [.object, .serializable]
  | .exception => [.throwable, .object, .serializable]
  | .luaException => [.exception, .throwable, .object, .serializable]
  | .luaObject | .javaPackage | .serializable | .comparable | .charSequence | .cloneable =>
    [.object]
  | .array component => [.object, .serializable, .cloneable] ++ (C.supers component).map .array
  | .declared id => C.supertypes id

def isAssignableFrom (C : ClassTable) (parameter c : JavaClass) : Bool :=
  parameter = c || (C.supers c).contains parameter

def isInterface (C : ClassTable) : JavaClass → Bool
  | .serializable | .comparable | .charSequence | .cloneable => true
  | .declared id => C.interfaces id
  | _ => false

theorem isAssignableFrom_self (C : ClassTable) (c : JavaClass) : C.isAssignableFrom c c := by
  simp [isAssignableFrom]

end ClassTable

def JavaClass.isPrimitive : JavaClass → Bool
  | primitive _ => true
  | _ => false

/-- A Java object other than `null`. `otherNumber` is an instance of `Number` that is no box,
`object` one of a class that the conversions do not know. -/
inductive JavaObject where
  | boolean (b : Bool)
  | byte (n : Int8)
  | short (n : Int16)
  | integer (n : Int32)
  | long (n : Int64)
  | float (x : Single)
  | double (x : Double)
  | character (c : UInt16)
  | string (s : List UInt16)
  | otherNumber (id ref : Nat) (doubleValue : Double)
  | array (component : JavaClass) (ref : Nat)
  | byteArray (bytes : List UInt8)
  | javaFunction (id ref : Nat)
  | luaObject (L : Nat) (ref : Int)
  | luaException (ref : Nat)
  | javaPackage (ref : Nat)
  | object (id ref : Nat)
  deriving DecidableEq

namespace JavaObject

def getClass : JavaObject → JavaClass
  | boolean _ => .boxed .boolean
  | byte _ => .boxed .byte
  | short _ => .boxed .short
  | integer _ => .boxed .int
  | long _ => .boxed .long
  | float _ => .boxed .float
  | double _ => .boxed .double
  | character _ => .boxed .char
  | string _ => .string
  | otherNumber id _ _ => .declared id
  | array component _ => .array component
  | byteArray _ => .array (.primitive .byte)
  | javaFunction id _ => .declared id
  | luaObject _ _ => .luaObject
  | luaException _ => .luaException
  | javaPackage _ => .javaPackage
  | object id _ => .declared id

def doubleValue : JavaObject → Option Double
  | byte n => some (.ofInt binary64 n.toInt)
  | short n => some (.ofInt binary64 n.toInt)
  | integer n => some (.ofInt binary64 n.toInt)
  | long n => some (.ofInt binary64 n.toInt)
  | float x => some (x.convert binary64)
  | double x => some x
  | otherNumber _ _ x => some x
  | _ => none

def isArray : JavaObject → Bool
  | array _ _ => true
  | byteArray _ => true
  | _ => false

def unboxed : JavaObject → Option Primitive
  | boolean _ => some .boolean
  | byte _ => some .byte
  | short _ => some .short
  | integer _ => some .int
  | long _ => some .long
  | float _ => some .float
  | double _ => some .double
  | character _ => some .char
  | _ => none

end JavaObject

/-! ### The narrowing conversions of `Double` -/

def intValue (x : Double) : Int32 := Int32.ofInt (x.toInt (-2 ^ 31) (2 ^ 31 - 1))

def longValue (x : Double) : Int64 := Int64.ofInt (x.toInt (-2 ^ 63) (2 ^ 63 - 1))

def shortValue (x : Double) : Int16 := (intValue x).toInt16

def byteValue (x : Double) : Int8 := (intValue x).toInt8

def floatValue (x : Double) : Single := x.convert binary32

theorem exact_of_bounds {i : Int} (hlo : -2 ^ 31 ≤ i) (hhi : i < 2 ^ 31) :
    Number.Exact binary64 i :=
  Number.exact_of_natAbs_lt (by simp only [binary64]; omega) (by decide) (by decide)

theorem intValue_ofInt (n : Int32) : intValue (.ofInt binary64 n.toInt) = n := by
  have hlo := n.le_toInt
  have hhi := n.toInt_lt
  rw [intValue, Number.toInt_ofInt (exact_of_bounds hlo hhi) hlo (by omega), Int32.ofInt_toInt]

theorem longValue_ofInt {n : Int64} (h : Number.Exact binary64 n.toInt) :
    longValue (.ofInt binary64 n.toInt) = n := by
  have hlo := n.le_toInt
  have hhi := n.toInt_lt
  rw [longValue, Number.toInt_ofInt h hlo (by omega), Int64.ofInt_toInt]

theorem shortValue_ofInt (n : Int16) : shortValue (.ofInt binary64 n.toInt) = n := by
  have h := intValue_ofInt n.toInt32
  rw [Int16.toInt_toInt32] at h
  rw [shortValue, h, Int16.toInt16_toInt32]

theorem byteValue_ofInt (n : Int8) : byteValue (.ofInt binary64 n.toInt) = n := by
  have h := intValue_ofInt n.toInt32
  rw [Int8.toInt_toInt32] at h
  rw [byteValue, h, Int8.toInt8_toInt32]

theorem floatValue_convert (x : Single) : floatValue (x.convert binary64) = x :=
  Number.convert_convert binary32_within_binary64 x

end JLua
