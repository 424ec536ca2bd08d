import JLua.Value
import Mathlib.Logic.Function.Basic

/-!
# References in the registry

The registry keeps the values that Java holds, under positive integers. Key 0 heads the list of
the keys that are free again, each of which holds the next one.
-/

namespace JLua

set_option autoImplicit false

/-- The integer keys of the registry, and the border that `lua_objlen` finds. -/
structure Registry where
  slot : Int → Value
  objlen : Nat

namespace Registry

def LUA_REFNIL : Int := -1

def FREELIST_REF : Int := 0

def rawGetI (R : Registry) (i : Int) : Value := R.slot i

def rawSetI (R : Registry) (i : Int) (v : Value) : Registry where
  slot := Function.update R.slot i v
  objlen := if i = R.objlen + 1 ∧ v ≠ .nil then R.objlen + 1 else R.objlen

/-- `lua_tointeger`, for the numbers that the free list is made of. -/
def toInteger : Value → Int
  | .number x => x.toInt (-2 ^ 31) (2 ^ 31 - 1)
  | _ => 0

def luaLRef (R : Registry) (v : Value) : Int × Registry :=
  if v = .nil then (LUA_REFNIL, R)
  else
    let ref := toInteger (R.rawGetI FREELIST_REF)
    if ref ≠ 0 then (ref, (R.rawSetI FREELIST_REF (R.rawGetI ref)).rawSetI ref v)
    else (R.objlen + 1, R.rawSetI (R.objlen + 1) v)

def luaLUnref (R : Registry) (ref : Int) : Registry :=
  if 0 ≤ ref then
    (R.rawSetI ref (R.rawGetI FREELIST_REF)).rawSetI FREELIST_REF (.number (.ofInt _ ref))
  else R

/-- With an empty list of free references, the next one is past the others. -/
theorem luaLRef_of_empty {R : Registry} {v : Value} (hv : v ≠ .nil)
    (hhead : toInteger (R.rawGetI FREELIST_REF) = 0) :
    R.luaLRef v = ((R.objlen : Int) + 1, R.rawSetI (R.objlen + 1) v) := by
  simp [luaLRef, hv, hhead]

theorem luaLRef_of_head {R : Registry} {v : Value} {r : Int} (hv : v ≠ .nil)
    (hhead : toInteger (R.rawGetI FREELIST_REF) = r) (hr : r ≠ 0) :
    R.luaLRef v = (r, (R.rawSetI FREELIST_REF (R.rawGetI r)).rawSetI r v) := by
  simp [luaLRef, hv, hhead, hr]

theorem rawGetI_rawSetI_self (R : Registry) (i : Int) (v : Value) :
    (R.rawSetI i v).rawGetI i = v := by
  simp [rawGetI, rawSetI]

theorem rawGetI_luaLRef (R : Registry) {v : Value} (hv : v ≠ .nil) :
    (R.luaLRef v).2.rawGetI (R.luaLRef v).1 = v := by
  unfold luaLRef
  rw [if_neg hv]
  dsimp only
  split <;> exact rawGetI_rawSetI_self _ _ _

end Registry
end JLua
