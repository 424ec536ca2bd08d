import JLua.Lib.BinaryFloat

/-!
# Lua values

Tables, functions, full userdata and coroutines are known by their address; what they contain
belongs to the heap of whoever looks inside.
-/

namespace JLua

open BinaryFloat
set_option autoImplicit false

abbrev Double := Number binary64

abbrev Single := Number binary32

/-- The type tags `LUA_TNONE` to `LUA_TTHREAD`. -/
inductive LuaType where
  | none
  | nil
  | boolean
  | lightuserdata
  | number
  | string
  | table
  | function
  | userdata
  | thread
  deriving DecidableEq, Repr

inductive Value where
  | nil
  | boolean (b : Bool)
  | lightuserdata (p : Nat)
  | number (n : Double)
  | string (bytes : List UInt8)
  | table (address : Nat)
  | function (address : Nat)
  | userdata (address : Nat)
  | thread (address : Nat)
  deriving DecidableEq

namespace Value

def type : Value → LuaType
  | nil => .nil
  | boolean _ => .boolean
  | lightuserdata _ => .lightuserdata
  | number _ => .number
  | string _ => .string
  | table _ => .table
  | function _ => .function
  | userdata _ => .userdata
  | thread _ => .thread

@[simp] theorem type_nil : type nil = .nil := rfl

@[simp] theorem type_function (a : Nat) : type (function a) = .function := rfl

def ofString (s : String) : Value := .string s.toUTF8.toList

/-- `luaO_rawequalObj`. -/
def rawEqual : Value → Value → Bool
  | number x, number y => x.ieeeEq y
  | v, w => v = w

theorem rawEqual_self_iff (v : Value) : v.rawEqual v = true ↔ v ≠ number .nan := by
  cases v <;> simp [rawEqual, Number.ieeeEq_self_iff]

end Value
end JLua
