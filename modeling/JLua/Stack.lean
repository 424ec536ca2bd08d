import JLua.Value

/-!
# The Lua stack of a C function

A C function sees the slots from its first argument to the top, counted from 1 upwards or from
the top downwards. Calling a Lua value is a parameter: a state transformer that returns values,
raises one, or does not come back.
-/

namespace JLua

set_option autoImplicit false

universe u
variable {σ : Type u}

/-- Slot 1 comes first, the top is the last one. -/
abbrev Stack := List Value

abbrev Result := Except Value (List Value)

/-- Calls a value with arguments; `none` is a call that does not come back. -/
abbrev Call (σ : Type u) := Value → List Value → σ → Option (Result × σ)

def LUA_MULTRET : Int := -1

def LUA_ERRRUN : Int := 2

def LUA_ERRMEM : Int := 4

def LUA_ERRERR : Int := 5

def luaGettop (L : Stack) : Nat := L.length

/-- The slot that an index names, counted from 0. -/
def absIndex (L : Stack) (idx : Int) : Nat :=
  if 0 < idx then idx.toNat - 1 else L.length - idx.natAbs

def index2adr (L : Stack) (idx : Int) : Option Value := L[absIndex L idx]?

def luaType (L : Stack) (idx : Int) : LuaType := (index2adr L idx).elim .none Value.type

def luaIsfunction (L : Stack) (idx : Int) : Bool := luaType L idx = .function

def luaIsnil (L : Stack) (idx : Int) : Bool := luaType L idx = .nil

def luaPushvalue (L : Stack) (idx : Int) : Stack := L ++ [(index2adr L idx).getD .nil]

def luaPushstring (L : Stack) (s : String) : Stack := L ++ [.ofString s]

/-- Moves the top into the slot `idx`, shifting up what stands there. -/
def luaInsert (L : Stack) (idx : Int) : Stack :=
  L.dropLast.insertIdx (absIndex L idx) (L.getLast?.getD .nil)

def luaPop (L : Stack) (n : Nat) : Stack := L.take (L.length - n)

def luaRemove (L : Stack) (idx : Int) : Stack := L.eraseIdx (absIndex L idx)

def luaError (L : Stack) : Result := .error (L.getLast?.getD .nil)

def luaLError (L : Stack) (message : String) : Result := luaError (luaPushstring L message)

/-- What `luaD_poscall` moves down for a caller that wants so many results: any negative number of
them is all. -/
def adjust (nresults : Int) (vs : List Value) : List Value :=
  if nresults < 0 then vs
  else vs.take nresults.toNat ++ List.replicate (nresults.toNat - vs.length) .nil

def raised : Result → Option Value
  | .ok _ => none
  | .error e => some e

def status : Result → Int
  | .ok _ => 0
  | .error _ => LUA_ERRRUN

/-- What a protected call leaves on the stack: the results or the error. -/
def returned (nresults : Int) : Result → List Value
  | .ok vs => adjust nresults vs
  | .error e => [e]

/-- Calls the value below the `nargs` values on top, without a message handler. -/
def luaPcall (call : Call σ) (L : Stack) (nargs : Nat) (nresults : Int) (s : σ) :
    Option (Int × Stack × σ) :=
  let base := L.length - nargs - 1
  (call (L[base]?.getD .nil) (L.drop (base + 1)) s).map fun r =>
    (status r.1, L.take base ++ returned nresults r.1, r.2)

/-- The call, keeping a log of its invocations. -/
def logged (call : Call σ) : Call (List (Value × List Value) × σ) := fun f args s =>
  (call f args s.2).map fun r => (r.1, (s.1 ++ [(f, args)], r.2))

theorem index2adr_top (L : Stack) (v : Value) : index2adr (L ++ [v]) (-1) = some v := by
  simp [index2adr, absIndex]

theorem absIndex_negative (L : Stack) (n : Nat) : absIndex L (-(n + 1)) = L.length - (n + 1) := by
  rw [absIndex, if_neg (by omega)]
  omega

theorem index2adr_above (K : Stack) (v : Value) (vs : List Value) :
    index2adr (K ++ v :: vs) (-(vs.length + 1)) = some v := by
  have habs : absIndex (K ++ v :: vs) (-(vs.length + 1)) = K.length := by
    rw [absIndex_negative, List.length_append, List.length_cons]
    omega
  rw [index2adr, habs, List.getElem?_append_right (Nat.le_refl _), Nat.sub_self]
  rfl

theorem luaRemove_second (L : Stack) (v w : Value) : luaRemove (L ++ [v, w]) (-2) = L ++ [w] := by
  have habs : absIndex (L ++ [v, w]) (-2) = L.length := by simp [absIndex]
  rw [luaRemove, habs, List.eraseIdx_append_of_length_le (Nat.le_refl _), Nat.sub_self]
  rfl

theorem insertIdx_length_append (A L : Stack) (v : Value) :
    (A ++ L).insertIdx A.length v = A ++ v :: L := by
  induction A with
  | nil => rfl
  | cons w A ih => simp [ih]

theorem luaInsert_second (L : Stack) (v w : Value) :
    luaInsert (L ++ [v, w]) (-2) = L ++ [w, v] := by
  have habs : absIndex (L ++ [v, w]) (-2) = L.length := by simp [absIndex]
  have hsplit : L ++ [v, w] = (L ++ [v]) ++ [w] := by simp
  rw [luaInsert, habs, hsplit, List.dropLast_concat, List.getLast?_concat, Option.getD_some,
    insertIdx_length_append]

theorem luaPop_append_length (L vs : Stack) : luaPop (L ++ vs) vs.length = L := by
  simp [luaPop]

@[simp] theorem luaPop_top (L : Stack) (v : Value) : luaPop (L ++ [v]) 1 = L := by
  simp [luaPop]

@[simp] theorem adjust_zero (vs : List Value) : adjust 0 vs = [] := by
  simp [adjust]

theorem adjust_multret (vs : List Value) : adjust LUA_MULTRET vs = vs := rfl

theorem length_adjust {nresults : Int} (h : 0 ≤ nresults) (vs : List Value) :
    (adjust nresults vs).length = nresults.toNat := by
  rw [adjust, if_neg (by omega), List.length_append, List.length_take, List.length_replicate]
  omega

theorem adjust_one (vs : List Value) : adjust 1 vs = [vs.headD .nil] := by
  cases vs <;> simp [adjust]

theorem luaPcall_append (call : Call σ) (L : Stack) (f : Value) (args : List Value)
    (nresults : Int) (s : σ) :
    luaPcall call (L ++ f :: args) args.length nresults s =
      (call f args s).map fun r => (status r.1, L ++ returned nresults r.1, r.2) := by
  have hbase : (L ++ f :: args).length - args.length - 1 = L.length := by simp; omega
  simp only [luaPcall, hbase]
  simp

end JLua
