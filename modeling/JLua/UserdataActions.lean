import JLua.Lib.Runs
import JLua.UserdataHeap

/-!
# What a script and the collector do

The collector marks what the roots refer to, queues the unmarked userdata that have a finalizer,
clears the weak tables, and later runs the queued finalizers one by one. Marking is incremental
and may keep garbage; an action of the collector names the objects that ended up marked.
-/

namespace JLua.UserdataHeap

open ModifiedUtf8 TransitionRuns
set_option autoImplicit false

def Table.refs (t : Table) : List Value :=
  t.metatable.toList.map .table ++ t.entries.flatMap fun e => [e.1, e.2]

theorem Table.mem_refs_set {t : Table} {k v w : Value} (h : w ∈ (t.set k v).refs) :
    w ∈ t.refs ∨ w = k ∨ w = v := by
  unfold Table.refs Table.set at h
  rcases List.mem_append.mp h with hm | he
  · exact .inl (List.mem_append_left _ hm)
  · obtain ⟨e, he, hw⟩ := List.mem_flatMap.mp he
    dsimp only at he
    have hold : e ∈ t.entries → w ∈ t.refs := fun ht =>
      List.mem_append_right _ (List.mem_flatMap.mpr ⟨e, ht, hw⟩)
    split at he
    · exact .inl (hold (List.mem_filter.mp he).1)
    · rcases List.mem_append.mp he with he | he
      · exact .inl (hold (List.mem_filter.mp he).1)
      · obtain rfl := List.mem_singleton.mp he
        simp only [List.mem_cons, List.not_mem_nil, or_false] at hw
        exact .inr hw

namespace State

def refs (s : State) : Value → List Value
  | .table a => (s.tableAt a).refs
  | .userdata a => (s.getMetatable (.userdata a)).toList.map .table
  | .function a => (s.closures[a]?).elim [] Closure.upvalues
  | _ => []

def roots (s : State) : List Value := s.globals :: s.registry ++ s.stack

theorem mem_refs_newTable {s : State} {t : Table} {v w : Value}
    (h : w ∈ (s.newTable t).refs v) : w ∈ s.refs v ∨ w ∈ t.refs := by
  cases v with
  | table a =>
    rw [refs, tableAt_newTable] at h
    split at h
    · exact .inr h
    · exact .inl h
  | _ => exact .inl h

theorem mem_refs_newClosures {s : State} {cs : List Closure} {v w : Value}
    (h : w ∈ (s.newClosures cs).refs v) : w ∈ s.refs v ∨ ∃ c ∈ cs, w ∈ c.upvalues := by
  cases v with
  | function a =>
    rcases Nat.lt_or_ge a s.closures.length with hlt | hge
    · rw [refs, newClosures, List.getElem?_append_left hlt] at h
      exact .inl h
    · rw [refs, newClosures, List.getElem?_append_right hge] at h
      cases hc : cs[a - s.closures.length]? with
      | none =>
        rw [hc] at h
        cases h
      | some c =>
        rw [hc] at h
        exact .inr ⟨c, List.mem_of_getElem? hc, h⟩
  | _ => exact .inl h

theorem mem_refs_newUdata {s : State} {u : Udata} {v w : Value}
    (h : w ∈ (s.newUdata u).refs v) : w ∈ s.refs v ∨ ∃ m, u.metatable = some m ∧ w = .table m := by
  cases v with
  | userdata a =>
    rw [refs, getMetatable_newUdata] at h
    split at h
    · refine .inr ?_
      simpa [eq_comm] using h
    · exact .inl h
  | _ => exact .inl h

theorem mem_refs_setTable {s : State} {a : Nat} {t : Table} {v w : Value}
    (h : w ∈ (s.setTable a t).refs v) : w ∈ s.refs v ∨ (v = .table a ∧ w ∈ t.refs) := by
  cases v with
  | table b =>
    rw [refs] at h
    rcases tableAt_setTable_cases s a t b with hb | ⟨rfl, hb⟩
    · rw [hb] at h
      exact .inl h
    · rw [hb] at h
      exact .inr ⟨rfl, h⟩
  | _ => exact .inl h

theorem mem_refs_rawset {s : State} {a : Nat} {k v w x : Value}
    (h : w ∈ (s.rawset a k v).refs x) : w ∈ s.refs x ∨ w = k ∨ w = v := by
  rcases mem_refs_setTable h with hold | ⟨rfl, hnew⟩
  · exact .inl hold
  · exact Table.mem_refs_set hnew

theorem mem_refs_setMetatable {s : State} {a : Nat} {m : Option Nat} {w x : Value}
    (h : w ∈ (s.setMetatable a m).refs x) : w ∈ s.refs x ∨ ∃ n, m = some n ∧ w = .table n := by
  rcases mem_refs_setTable h with hold | ⟨rfl, hnew⟩
  · exact .inl hold
  · rcases List.mem_append.mp hnew with hm | he
    · refine .inr ?_
      simpa [eq_comm] using hm
    · exact .inl (List.mem_append_right _ he)

/-! ### The collector -/

/-- The letters of `__mode`: weak keys, weak values. -/
def mode (s : State) (a : Nat) : Bool × Bool :=
  match s.getMetafield (.table a) "__mode" with
  | .string bytes => ((cString bytes).contains 107, (cString bytes).contains 118)
  | _ => (false, false)

def isWeak (s : State) : Value → Bool
  | .table a => (s.mode a).1 || (s.mode a).2
  | _ => false

/-- `traversetable` passes over the weak halves of the entries. -/
def strongRefs (s : State) : Value → List Value
  | .table a =>
    let t := s.tableAt a
    t.metatable.toList.map .table ++ t.entries.flatMap fun e =>
      (if (s.mode a).1 then [] else [e.1]) ++ (if (s.mode a).2 then [] else [e.2])
  | v => s.refs v

/-- All the given objects are marked, and marked objects refer to marked objects. -/
def Marks (s : State) (black from_ : List Value) : Prop :=
  (∀ v ∈ from_, v ∈ black) ∧ ∀ v ∈ black, ∀ w ∈ s.strongRefs v, w ∈ black

instance (s : State) (black from_ : List Value) : Decidable (s.Marks black from_) :=
  inferInstanceAs (Decidable (_ ∧ _))

/-- The unmarked userdata that are not finalized yet, the newest first. -/
def dead (s : State) (black : List Value) : List Nat :=
  (List.range s.udata.length).reverse.filter fun a =>
    (s.udata[a]?).any (fun u => !u.finalized) && .userdata a ∉ black

def due (s : State) (black : List Value) : List Nat :=
  (s.dead black).filter fun a => s.getMetafield (.userdata a) "__gc" ≠ .nil

def separateudata (s : State) (black : List Value) : State :=
  { s with
    udata := s.udata.mapIdx fun a u =>
      { u with finalized := u.finalized || decide (a ∈ s.dead black) }
    tmudata := s.tmudata ++ s.due black }

def isCleared (s : State) (black : List Value) (iskey : Bool) : Value → Bool
  | .userdata a =>
    .userdata a ∉ black || (!iskey && (s.udata[a]?).any (·.finalized))
  | .table a => .table a ∉ black
  | .function a => .function a ∉ black
  | .thread a => .thread a ∉ black
  | _ => false

/-- `cleartable`; the entries of the array part are cleared only if the values are weak. -/
def cleartable (s : State) (black : List Value) (inArray : Nat → Value → Bool) : State :=
  { s with
    tables := s.tables.mapIdx fun a t =>
      if s.isWeak (.table a) then
        { t with entries := t.entries.filter fun e =>
            if inArray a e.1 then !((s.mode a).2 && s.isCleared black false e.2)
            else !(s.isCleared black true e.1 || s.isCleared black false e.2) }
      else t }

def collected (s : State) (black preserved : List Value) (inArray : Nat → Value → Bool) : State :=
  (s.separateudata black).cleartable preserved inArray

/-- `atomic`: `black` is marked from the roots, `preserved` also from the queued userdata. -/
def atomic (s : State) (black preserved : List Value) (inArray : Nat → Value → Bool) :
    Option State :=
  let s' := s.separateudata black
  if s.Marks black s.roots ∧ s'.Marks preserved (black ++ s'.tmudata.map .userdata) then
    some (s.collected black preserved inArray)
  else none

def native (s : State) : Value → Option CFunction
  | .function a =>
    match s.closures[a]? with
    | some (.c f _) => some f
    | _ => none
  | _ => none

/-- `GCTM`. The frame of a finalizer holds the userdata. -/
def gctm (isNumeral : List UInt8 → Bool) (s : State) (java : List Reply) : Option State :=
  match s.tmudata with
  | [] => none
  | a :: rest =>
    let s' := { s with tmudata := rest }
    let tm := s.getMetafield (.userdata a) "__gc"
    if tm = .nil then some s'
    else if s.native tm = some .gc then s'.gc [.userdata a]
    else (s'.push (.userdata a)).call isNumeral tm [.userdata a] java

end State

/-! ### Actions -/

/-- Operands are slots of the stack. `call` and `metacall` also say what Java does meanwhile;
`metacall` is the call of a metamethod by Lua itself. -/
inductive Action where
  | constant (c : Constant)
  | pushvalue (i : Nat)
  | pushglobals
  | replace (i : Nat)
  | settop (n : Nat)
  | newtable
  | closure (captured : List Nat)
  | gettable (t k : Nat)
  | settable (t k v : Nat)
  | call (f : Nat) (args : List Nat) (java : List Reply)
  | metacall (v : Nat) (event : String) (args : List Nat) (java : List Reply)
  | java (r : Reply)
  | ref (i : Nat)
  | unref (ref : Nat)
  | atomic (black preserved : List Value) (inArray : Nat → Value → Bool)
  | gctm (java : List Reply)

namespace State

def slot (s : State) (i : Nat) : Value := s.stack[i]?.getD .nil

/-- The part of a table access that no metamethod takes over. -/
def gettable (s : State) (t k : Value) : State :=
  match t with
  | .table a => s.push (s.rawget a k)
  | v => s.raise ("attempt to index a " ++ typename (some v) ++ " value")

def settable (s : State) (t k v : Value) : State :=
  match t with
  | .table a =>
    match s.luaHSet a k v with
    | .ok s' => s'
    | .error message => s.raise message
  | v => s.raise ("attempt to index a " ++ typename (some v) ++ " value")

/-- An action that the state does not allow, or whose effect the JVM does not define, has no
next state. -/
def step (isNumeral : List UInt8 → Bool) (s : State) : Action → Option State
  | .constant c => some (s.push c.value)
  | .pushvalue i => some (s.push (s.slot i))
  | .pushglobals => some (s.push s.globals)
  | .replace i => some { s with stack := (s.stack.set i (s.stack.getLastD .nil)).dropLast }
  | .settop n => some { s with stack := s.stack.take n }
  | .newtable => some ((s.newTable ⟨[], none⟩).push (.table s.tables.length))
  | .closure captured =>
    some ((s.newClosures [.lua (captured.map s.slot)]).push (.function s.closures.length))
  | .gettable t k => some (s.gettable (s.slot t) (s.slot k))
  | .settable t k v => some (s.settable (s.slot t) (s.slot k) (s.slot v))
  | .call f args java => s.call isNumeral (s.slot f) (args.map s.slot) java
  | .metacall v event args java =>
    s.call isNumeral (s.getMetafield (s.slot v) event) (args.map s.slot) java
  | .java r => some (s.reply r)
  | .ref i => some { s with registry := s.registry ++ [s.slot i] }
  | .unref ref => some { s with registry := s.registry.set ref .nil }
  | .atomic black preserved inArray => s.atomic black preserved inArray
  | .gctm java => s.gctm isNumeral java

end State

abbrev Step (isNumeral : List UInt8 → Bool) : State → Action → State → Prop :=
  Run.Computes (State.step isNumeral)

/-! ### The state that a script starts in -/

def baseFuncs : List (String × CFunction) :=
  [("getmetatable", .getmetatable), ("newproxy", .newproxy), ("next", .next),
    ("rawget", .rawget), ("rawset", .rawset), ("setmetatable", .setmetatable)]

-- `jlua.try` is left out: it calls its arguments, and each of those calls is an action
def jluaFuncs : List (String × CFunction) :=
  [("getClass", .javaGetClass), ("createProxy", .createProxy), ("newArray", .newArray),
    ("throw", .throwObj)]

/-- Functions under their names, stored from the given address on. -/
def fields (funcs : List (String × CFunction)) (base : Nat) : List (Value × Value) :=
  funcs.mapIdx fun i f => (Value.ofString f.1, Value.function (base + i))

/-- The libraries are open: table 0 holds the globals, table 1 is `jlua`. -/
def initial : State where
  tables :=
    [⟨fields baseFuncs 0 ++ [(Value.ofString "jlua", .table 1)], none⟩,
      ⟨fields jluaFuncs baseFuncs.length, none⟩]
  udata := []
  closures := (baseFuncs ++ jluaFuncs).map fun f => .c f.2 []
  globalRefs := []
  validMetatables := []
  globals := .table 0
  registry := []
  stack := []
  tmudata := []

end JLua.UserdataHeap
