import JLua.Lib.Programs
import JLua.Lib.Runs
import JLua.Lua

/-!
# Helpers of several threads on one state

Every call of the state is one atomic step, and a helper makes several of them. What it has pushed
stays on the stack in between, where the steps of other threads find it. Objects are the values
that they denote.
-/

namespace JLua.Atomicity

open AtomicPrograms Metatables TransitionRuns
set_option autoImplicit false

/-! ### The calls of the state -/

/-- What `pushObjectValue` does with a Java object: it pushes a value, it pushes nothing on this
stack for a `LuaObject` of another state, or it throws. -/
inductive Argument where
  | value (v : Value)
  | foreign
  | denied (e : Thrown)

inductive Instr where
  | getGlobal (name : JString)
  | setGlobal (name : JString)
  | newTable
  | getTable (idx : Int)
  | setTable (idx : Int)
  | pcall (nArgs : Nat) (nResults : Int)
  | isTable (idx : Int)
  | pop (n : Nat)
  | pushObjectValue (obj : Argument)
  | getLuaObject (idx : Int)
  | objectIsTable (o : Value)
  | objectIsJavaObject (o : Value)
  | objectGetObject (o : Value)
  | objectToString (o : Value)

abbrev Answer : Instr → Type
  | .isTable _ | .objectIsTable _ | .objectIsJavaObject _ => Bool
  | .pcall _ _ => Int
  | .getLuaObject _ => Value
  | .objectGetObject _ => JavaObject
  | .objectToString _ => Option JString
  | _ => Unit

abbrev Prog (α : Type) := Program Instr Answer Thrown α

def perform (i : Instr) : Prog (Answer i) := Program.perform i

/-- The Lua universe of the threads, and what a value tells about itself. Its text is what
`toString` of an object for it returns or, from a `toString` of user code, throws, and is the same
whenever it is asked for. -/
structure Shared (τ : Type) where
  vm : Vm τ
  javaObject : Value → Option JavaObject
  text : Value → Except Thrown (Option JString)
  isThrowable : JavaObject → Bool

/-- An exception can be made of the error: it is a `Throwable`, or it gives a text. -/
def Shared.Reports {τ : Type} (S : Shared τ) (e : Value) : Prop :=
  (∃ obj, S.javaObject e = some obj ∧ S.isThrowable obj) ∨ ∃ message, S.text e = .ok message

section Execution
variable {τ : Type} (S : Shared τ)

def slot (L : Stack) (idx : Int) : Value := (index2adr L idx).getD .nil

def succeeded : Access τ → Option (Value × τ)
  | some (.ok v, s) => some (v, s)
  | _ => none

/-- `lua_gettable`, unless it fails. -/
@[irreducible] def readTable (t key : Value) (s : τ) : Option (Value × τ) :=
  succeeded (luaVGettable S.vm t key s)

@[irreducible] def writeTable (t key val : Value) (s : τ) : Option (Value × τ) :=
  succeeded (luaVSettable S.vm t key val s)

def lookup (name : JString) (s : τ) : Option (Value × τ) :=
  readTable S (S.vm.globals s) (LuaState.luaString name) s

/-- The calls that leave the heap alone. -/
def execLocal (L : Stack) : (i : Instr) → Option (Except Thrown (Answer i) × Stack)
  | .isTable idx => some (.ok (decide (luaType L idx = .table)), L)
  | .pop n => some (.ok (), luaPop L n)
  | .pushObjectValue (.value v) => some (.ok (), L ++ [v])
  | .pushObjectValue .foreign => some (.ok (), L)
  | .pushObjectValue (.denied e) => some (.error e, L)
  | .getLuaObject idx => some (.ok (slot L idx), L)
  | .objectIsTable o => some (.ok (decide (o.type = .table)), L)
  | .objectIsJavaObject o => some (.ok (S.javaObject o).isSome, L)
  | .objectGetObject o =>
    match S.javaObject o with
    | some obj => some (.ok obj, L)
    -- never reached: the helpers ask `isJavaObject` first
    | none =>
      some (.error (.runtimeException "java.lang.Exception" "Index is not a java object"), L)
  | .objectToString o => some (S.text o, L)
  | _ => none

/-- The calls that read or write the heap. One that ends in an error does not return. -/
def execAccess (L : Stack) (s : τ) : (i : Instr) → Option (Answer i × Stack × τ)
  | .getGlobal name => (lookup S name s).map fun r => ((), L ++ [r.1], r.2)
  | .setGlobal name =>
    (writeTable S (S.vm.globals s) (LuaState.luaString name) (slot L (-1)) s).map fun r =>
      ((), luaPop L 1, r.2)
  | .newTable => some ((), L ++ [.table (S.vm.newtable s).1], (S.vm.newtable s).2)
  | .getTable idx =>
    (readTable S (slot L idx) (slot L (-1)) s).map fun r => ((), luaPop L 1 ++ [r.1], r.2)
  | .setTable idx =>
    (writeTable S (slot L idx) (slot L (-2)) (slot L (-1)) s).map fun r => ((), luaPop L 2, r.2)
  | .pcall nArgs nResults => luaPcall S.vm.call L nArgs nResults s
  | _ => none

def exec (i : Instr) (w : Stack × τ) : Option (Except Thrown (Answer i) × Stack × τ) :=
  match execLocal S w.1 i with
  | some (r, L) => some (r, L, w.2)
  | none => (execAccess S w.1 w.2 i).map fun r => (.ok r.1, r.2)

end Execution

/-! ### The helpers -/

def api (isThrowable : JavaObject → Bool) : Interface Prog Value Argument where
  getGlobal name := perform (.getGlobal name)
  setGlobal name := perform (.setGlobal name)
  newTable := perform .newTable
  getTable idx := perform (.getTable idx)
  setTable idx := perform (.setTable idx)
  isTable idx := perform (.isTable idx)
  pop n := perform (.pop n)
  pcall nArgs nResults := perform (.pcall nArgs nResults)
  pushObjectValue obj := perform (.pushObjectValue obj)
  getLuaObject idx := perform (.getLuaObject idx)
  object := .value
  objectIsTable o := perform (.objectIsTable o)
  objectIsJavaObject o := perform (.objectIsJavaObject o)
  objectGetObject o := perform (.objectGetObject o)
  objectToString o := perform (.objectToString o)
  isThrowable := isThrowable
  throwJava := Program.throws

inductive Call where
  | getGlobal (name : JString)
  | createTable
  | setTableField (table : Value) (key value : Argument)
  | getGlobalTableField (tableName : JString) (key : Argument)
  | registerGlobal (name : JString) (obj : Argument)
  | callFunctionEx (name : JString) (numOfResults : Int) (args : List Argument)

/-- The objects that the call returns, or what it throws. -/
abbrev Outcome := Except Thrown (List Value)

def Call.program (isThrowable : JavaObject → Bool) : Call → Prog (List Value)
  | getGlobal name => (fun o => [o]) <$> Lua.getGlobal (api isThrowable) name
  | createTable => (fun o => [o]) <$> Lua.createTable (api isThrowable)
  | setTableField table key value =>
    (fun _ => []) <$> Lua.setTableField (api isThrowable) table key value
  | getGlobalTableField tableName key =>
    (fun o => [o]) <$> Lua.getGlobalTableField (api isThrowable) tableName key
  | registerGlobal name obj => (fun _ => []) <$> Lua.registerGlobal (api isThrowable) name obj
  | callFunctionEx name numOfResults args =>
    Lua.callFunctionEx (api isThrowable) name numOfResults args

/-! ### The threads -/

variable {T τ : Type}

/-- A call at work: what remains of it, how many values it has on the stack, and the globals that
it has read. -/
structure Activity (T : Type) where
  thread : T
  call : Call
  rest : Prog (List Value)
  pushed : Nat
  lookups : List (JString × Value)

/-- The calls at work stand in the order in which they last used the stack, the last one first. -/
structure Config (T τ : Type) where
  stack : Stack
  heap : τ
  active : List (Activity T)

inductive Action (T : Type) where
  | begin (t : T) (call : Call)
  | run (t : T)
  | finish (t : T) (o : Outcome)

/-- Calls of objects leave the stack as it is. -/
def Instr.usesStack : Instr → Bool
  | .objectIsTable _ | .objectIsJavaObject _ | .objectGetObject _ | .objectToString _ => false
  | _ => true

def Instr.reads : Instr → Stack → List (JString × Value)
  | .getGlobal name, L => [(name, slot L (-1))]
  | _, _ => []

def Activity.resume (a : Activity T) (rest : Prog (List Value)) (i : Instr) (L L' : Stack) :
    Activity T :=
  { a with rest, pushed := a.pushed + L'.length - L.length, lookups := a.lookups ++ i.reads L' }

def place (i : Instr) (l₁ : List (Activity T)) (a : Activity T) (l₂ : List (Activity T)) :
    List (Activity T) :=
  if i.usesStack then a :: (l₁ ++ l₂) else l₁ ++ a :: l₂

inductive Step (S : Shared τ) : Config T τ → Action T → Config T τ → Prop where
  | begin {c : Config T τ} {t : T} {call : Call} (idle : ∀ a ∈ c.active, a.thread ≠ t) :
      Step S c (.begin t call)
        { c with active := ⟨t, call, call.program S.isThrowable, 0, []⟩ :: c.active }
  | run {c : Config T τ} {l₁ l₂ : List (Activity T)} {a : Activity T} {i : Instr}
      {next : Answer i → Prog (List Value)} {r : Except Thrown (Answer i)} {L : Stack} {s : τ}
      (hactive : c.active = l₁ ++ a :: l₂) (hrest : a.rest = .step i next)
      (hexec : exec S i (c.stack, c.heap) = some (r, L, s)) :
      Step S c (.run a.thread)
        ⟨L, s, place i l₁ (a.resume (Program.after next r) i c.stack L) l₂⟩
  | finish {c : Config T τ} {l₁ l₂ : List (Activity T)} {a : Activity T} {o : Outcome}
      (hactive : c.active = l₁ ++ a :: l₂) (hrest : a.rest.outcome = some o) :
      Step S c (.finish a.thread o) { c with active := l₁ ++ l₂ }

/-! ### Calls that are atomic -/

inductive Status where
  | pending (call : Call)
  | effected (o : Outcome)

structure Serial (T τ : Type) where
  stack : Stack
  heap : τ
  status : T → Option Status

inductive SerialAction (T : Type) where
  | begin (t : T) (call : Call)
  | effect (t : T)
  | finish (t : T) (o : Outcome)

/-- A call takes effect as a whole, at some point between its beginning and its end. -/
inductive SerialStep [DecidableEq T] (S : Shared τ) :
    Serial T τ → SerialAction T → Serial T τ → Prop where
  | begin {A : Serial T τ} {t : T} {call : Call} (h : A.status t = none) :
      SerialStep S A (.begin t call)
        { A with status := Function.update A.status t (some (.pending call)) }
  | effect {A : Serial T τ} {t : T} {call : Call} {o : Outcome} {L : Stack} {s : τ}
      (h : A.status t = some (.pending call))
      (halone : (call.program S.isThrowable).alone (exec S) (A.stack, A.heap) = some (o, L, s)) :
      SerialStep S A (.effect t) ⟨L, s, Function.update A.status t (some (.effected o))⟩
  | finish {A : Serial T τ} {t : T} {o : Outcome} (h : A.status t = some (.effected o)) :
      SerialStep S A (.finish t o) { A with status := Function.update A.status t none }

/-- What the threads see of a run: the calls they make and how these end. -/
inductive Event (T : Type) where
  | begin (t : T) (call : Call)
  | finish (t : T) (o : Outcome)

def Action.event : Action T → Option (Event T)
  | .begin t call => some (.begin t call)
  | .run _ => none
  | .finish t o => some (.finish t o)

def SerialAction.event : SerialAction T → Option (Event T)
  | .begin t call => some (.begin t call)
  | .effect _ => none
  | .finish t o => some (.finish t o)

def events (log : List (Config T τ × Action T)) : List (Event T) :=
  log.filterMap fun x => x.2.event

def serialEvents (log : List (Serial T τ × SerialAction T)) : List (Event T) :=
  log.filterMap fun x => x.2.event

/-! ### Calls that keep out of each other's way -/

def Instr.isAccess : Instr → Bool
  | .getGlobal _ | .setGlobal _ | .newTable | .getTable _ | .setTable _ | .pcall _ _ => true
  | _ => false

/-- Whether the call makes another access after it has read the global. -/
def Call.goesOn : Call → Value → Bool
  | .getGlobalTableField _ _, v => v.type = .table
  | .callFunctionEx _ _ _, _ => true
  | _, _ => false

/-- A push that throws leaves behind what was pushed before, and one of a `LuaObject` of another
state pushes nothing. -/
def Instr.Acceptable : Instr → Nat → Prop
  | .pushObjectValue .foreign, _ => False
  | .pushObjectValue (.denied _), pushed => pushed = 0
  | _, _ => True

/-- The call finds its values on top of the stack and the globals as it has read them. -/
structure Undisturbed (S : Shared τ) (c : Config T τ) (above : List (Activity T))
    (a : Activity T) (i : Instr) : Prop where
  onTop : i.usesStack → a.pushed = 0 ∨ ∀ b ∈ above, b.pushed = 0
  argument : i.Acceptable a.pushed
  globals : i.isAccess → ∀ x ∈ a.lookups, lookup S x.1 c.heap = some (x.2, c.heap)
  unchanged : ∀ name v s, i = .getGlobal name → lookup S name c.heap = some (v, s) →
    a.call.goesOn v → s = c.heap
  results : ∀ nArgs nResults L s, i = .pcall nArgs nResults →
    luaPcall S.vm.call c.stack nArgs nResults c.heap = some (0, L, s) → 0 ≤ nResults
  error : ∀ nArgs nResults err L s, i = .pcall nArgs nResults →
    luaPcall S.vm.call c.stack nArgs nResults c.heap = some (err, L, s) → err ≠ 0 →
      S.Reports (slot L (-1))

def Orderly (S : Shared τ) (c : Config T τ) : Action T → Prop
  | .run t => ∀ l₁ a l₂ i next, c.active = l₁ ++ a :: l₂ → a.thread = t → a.rest = .step i next →
    Undisturbed S c l₁ a i
  | _ => True

/-! ### The values of one call -/

/-- The call works on the values of this part of the stack only. -/
def Instr.Within : Instr → Stack → Prop
  | .setGlobal _, L => 1 ≤ L.length
  | .getTable idx, L | .isTable idx, L | .getLuaObject idx, L => idx < 0 ∧ idx.natAbs ≤ L.length
  | .setTable idx, L => idx < 0 ∧ idx.natAbs ≤ L.length ∧ 2 ≤ L.length
  | .pop n, L => n ≤ L.length
  | .pcall nArgs _, L => nArgs + 1 ≤ L.length
  | _, _ => True

section Frame
variable {S : Shared τ} {B own own' : Stack} {i : Instr}

theorem index2adr_append {idx : Int} (hneg : idx < 0) (h : idx.natAbs ≤ own.length) :
    index2adr (B ++ own) idx = index2adr own idx := by
  have habs : absIndex (B ++ own) idx = B.length + absIndex own idx := by
    simp only [absIndex, if_neg (not_lt_of_gt hneg), List.length_append]
    omega
  rw [index2adr, habs, List.getElem?_append_right (Nat.le_add_right _ _), Nat.add_sub_cancel_left]
  rfl

theorem slot_append {idx : Int} (hneg : idx < 0) (h : idx.natAbs ≤ own.length) :
    slot (B ++ own) idx = slot own idx := by
  rw [slot, index2adr_append hneg h, slot]

theorem luaPop_append {n : Nat} (h : n ≤ own.length) :
    luaPop (B ++ own) n = B ++ luaPop own n := by
  have hlength : (B ++ own).length - n = B.length + (own.length - n) := by
    rw [List.length_append]
    omega
  rw [luaPop, hlength, List.take_length_add_append, luaPop]

theorem exists_call_of_length {nArgs : Nat} (h : nArgs + 1 ≤ own.length) :
    ∃ below f args, own = below ++ f :: args ∧ args.length = nArgs := by
  have hk : own.length - nArgs - 1 < own.length := by omega
  refine ⟨own.take (own.length - nArgs - 1), own[own.length - nArgs - 1],
    own.drop (own.length - nArgs - 1 + 1), ?_, ?_⟩
  · rw [← List.drop_eq_getElem_cons hk, List.take_append_drop]
  · rw [List.length_drop]
    omega

theorem luaPcall_frame {call : JLua.Call τ} {nArgs : Nat} {nResults : Int} {s : τ}
    (h : nArgs + 1 ≤ own.length) : luaPcall call (B ++ own) nArgs nResults s =
      (luaPcall call own nArgs nResults s).map fun r => (r.1, B ++ r.2.1, r.2.2) := by
  obtain ⟨below, f, args, rfl, rfl⟩ := exists_call_of_length h
  rw [← List.append_assoc, luaPcall_append, luaPcall_append, Option.map_map]
  simp [Function.comp_def]

theorem execLocal_append {r : Except Thrown (Answer i)} (hwithin : i.Within own)
    (h : execLocal S own i = some (r, own')) : execLocal S (B ++ own) i = some (r, B ++ own') := by
  cases i with
  | isTable idx =>
    cases h
    rw [execLocal, luaType, index2adr_append hwithin.1 hwithin.2, luaType]
  | getLuaObject idx =>
    cases h
    rw [execLocal, slot_append hwithin.1 hwithin.2]
  | pop n =>
    cases h
    rw [execLocal, luaPop_append hwithin]
  | pushObjectValue obj =>
    cases obj with
    | value v =>
      cases h
      rw [execLocal, List.append_assoc]
    | foreign | denied e => cases h; rfl
  | objectGetObject o =>
    cases hobj : S.javaObject o with
    | none | some obj =>
      rw [execLocal, hobj] at h ⊢
      cases h
      rfl
  | objectIsTable o | objectIsJavaObject o | objectToString o => cases h; rfl
  | _ => cases h

theorem map_append {x : Option (Value × τ)} {f g : Value → Stack} (h : ∀ v, f v = B ++ g v) :
    (x.map fun r => ((), f r.1, r.2)) =
      (x.map fun r => ((), g r.1, r.2)).map fun r => (r.1, B ++ r.2.1, r.2.2) := by
  cases x with
  | none => rfl
  | some r => exact congrArg (fun L => some ((), L, r.2)) (h r.1)

theorem execAccess_append {s : τ} (hwithin : i.Within own) : execAccess S (B ++ own) s i =
    (execAccess S own s i).map fun r => (r.1, B ++ r.2.1, r.2.2) := by
  cases i with
  | getGlobal name =>
    exact map_append (f := fun v => B ++ own ++ [v]) (g := fun v => own ++ [v]) fun v =>
      List.append_assoc _ _ _
  | setGlobal name =>
    have hval : slot (B ++ own) (-1) = slot own (-1) := slot_append (by decide) hwithin
    rw [execAccess, execAccess, hval]
    exact map_append fun _ => luaPop_append hwithin
  | newTable =>
    rw [execAccess, execAccess, List.append_assoc]
    rfl
  | getTable idx =>
    have h1 : 1 ≤ own.length := by
      have := hwithin.1
      have := hwithin.2
      omega
    have hkey : slot (B ++ own) (-1) = slot own (-1) := slot_append (by decide) h1
    rw [execAccess, execAccess, slot_append hwithin.1 hwithin.2, hkey]
    exact map_append (f := fun v => luaPop (B ++ own) 1 ++ [v])
      (g := fun v => luaPop own 1 ++ [v]) fun v => by rw [luaPop_append h1, List.append_assoc]
  | setTable idx =>
    obtain ⟨hneg, hidx, h2⟩ := hwithin
    have hkey : slot (B ++ own) (-2) = slot own (-2) := slot_append (by decide) h2
    have hval : slot (B ++ own) (-1) = slot own (-1) :=
      slot_append (by decide) (Nat.le_trans (by decide) h2)
    rw [execAccess, execAccess, slot_append hneg hidx, hkey, hval]
    exact map_append fun _ => luaPop_append h2
  | pcall nArgs nResults => exact luaPcall_frame hwithin
  | _ => rfl

theorem exec_of_execLocal {r : Except Thrown (Answer i)} {L L' : Stack} {s : τ}
    (h : execLocal S L i = some (r, L')) : exec S i (L, s) = some (r, L', s) := by
  simp only [exec, h]

theorem execLocal_of_isAccess {L : Stack} (h : i.isAccess) : execLocal S L i = none := by
  cases i with
  | getGlobal | setGlobal | newTable | getTable | setTable | pcall => rfl
  | _ => cases h

theorem exec_of_isAccess {L : Stack} {s : τ} (h : i.isAccess) :
    exec S i (L, s) = (execAccess S L s i).map fun r => (.ok r.1, r.2) := by
  simp only [exec, execLocal_of_isAccess h]

theorem execLocal_of_object {r : Except Thrown (Answer i)} (hi : i.usesStack = false)
    (h : execLocal S own i = some (r, own')) :
    own' = own ∧ ∀ L, execLocal S L i = some (r, L) := by
  cases i with
  | objectGetObject o =>
    cases hobj : S.javaObject o with
    | none | some obj =>
      simp only [execLocal, hobj] at h ⊢
      cases h
      exact ⟨rfl, fun _ => rfl⟩
  | objectIsTable o | objectIsJavaObject o | objectToString o =>
    cases h
    exact ⟨rfl, fun _ => rfl⟩
  | _ => cases hi

/-- What a step does to the stack: it changes the values of the call on top of the others, or
nothing at all. -/
def Moved (i : Instr) (B own own' L L' : Stack) : Prop :=
  if i.usesStack then L = B ++ own ∧ L' = B ++ own' else L' = L ∧ own' = own

variable {L L' : Stack} {s s' : τ} {r r' : Except Thrown (Answer i)}

theorem moved_of_execLocal (hexec : exec S i (L, s) = some (r', L', s')) (hwithin : i.Within own)
    (hlocal : execLocal S own i = some (r, own')) (htop : i.usesStack → L = B ++ own) :
    r' = r ∧ s' = s ∧ Moved i B own own' L L' := by
  unfold Moved
  cases hi : i.usesStack with
  | true =>
    obtain rfl := htop hi
    rw [exec_of_execLocal (execLocal_append hwithin hlocal)] at hexec
    cases hexec
    exact ⟨rfl, rfl, rfl, rfl⟩
  | false =>
    obtain ⟨rfl, hany⟩ := execLocal_of_object hi hlocal
    rw [exec_of_execLocal (hany L)] at hexec
    cases hexec
    exact ⟨rfl, rfl, rfl, rfl⟩

theorem moved_of_execAccess (hexec : exec S i (L, s) = some (r', L', s')) (haccess : i.isAccess)
    (hwithin : i.Within own) (htop : i.usesStack → L = B ++ own) :
    ∃ answer own', execAccess S own s i = some (answer, own', s') ∧ r' = .ok answer ∧
      Moved i B own own' L L' := by
  have hi : i.usesStack = true := by
    cases i with
    | objectIsTable | objectIsJavaObject | objectGetObject | objectToString => cases haccess
    | _ => rfl
  obtain rfl := htop hi
  rw [exec_of_isAccess haccess, execAccess_append hwithin, Option.map_map] at hexec
  obtain ⟨⟨answer, own', s₁⟩, hown, heq⟩ := Option.map_eq_some_iff.mp hexec
  cases heq
  exact ⟨answer, own', hown, rfl, by rw [Moved, if_pos hi]; exact ⟨rfl, rfl⟩⟩

end Frame

/-! ### What a call still has to do -/

/-- The rest of the call looks at its own values only and leaves none of them. -/
inductive Settles (S : Shared τ) (o : Outcome) : Prog (List Value) → Stack → Prop where
  | outcome {p : Prog (List Value)} (h : p.outcome = some o) : Settles S o p []
  | step {i : Instr} {next : Answer i → Prog (List Value)} {r : Except Thrown (Answer i)}
      {own own' : Stack} (hwithin : i.Within own) (hexec : execLocal S own i = some (r, own'))
      (h : Settles S o (Program.after next r) own') : Settles S o (.step i next) own

/-- A protected call that succeeds leaves a known number of results, and one that fails an error
of which an exception can be made. -/
def Instr.Fits (S : Shared τ) : (i : Instr) → Answer i → Stack → Prop
  | .pcall _ nResults, err, L =>
    (err = 0 → 0 ≤ nResults) ∧ (err ≠ 0 → S.Reports (slot L (-1)))
  | _, _, _ => True

/-- The call comes to its last access, if it makes no push that it must not make. -/
inductive Ready (S : Shared τ) (call : Call) : Prog (List Value) → Stack → Prop where
  | excluded {i : Instr} {next : Answer i → Prog (List Value)} {own : Stack}
      (h : ¬ i.Acceptable own.length) : Ready S call (.step i next) own
  | step {i : Instr} {next : Answer i → Prog (List Value)} {answer : Answer i} {own own' : Stack}
      (hwithin : i.Within own) (hexec : execLocal S own i = some (.ok answer, own'))
      (h : Ready S call (next answer) own') : Ready S call (.step i next) own
  | look {name : JString} {next : Unit → Prog (List Value)} {own : Stack}
      (hnext : ∀ v, call.goesOn v → Ready S call (next ()) (own ++ [v]))
      (hlast : ∀ v, ¬ call.goesOn v → ∃ o, Settles S o (next ()) (own ++ [v])) :
      Ready S call (.step (.getGlobal name) next) own
  | last {i : Instr} {next : Answer i → Prog (List Value)} {own : Stack} (haccess : i.isAccess)
      (hlook : ∀ name, i ≠ .getGlobal name) (hwithin : i.Within own)
      (h : ∀ s answer own' s', execAccess S own s i = some (answer, own', s') →
        i.Fits S answer own' → ∃ o, Settles S o (next answer) own') :
      Ready S call (.step i next) own

section Programs
variable {S : Shared τ} {B own : Stack} {o : Outcome}

theorem Settles.alone {p : Prog (List Value)} (h : Settles S o p own) (s : τ) :
    p.alone (exec S) (B ++ own, s) = some (o, B, s) := by
  induction h with
  | outcome h =>
    rename_i p
    cases p with
    | done a | throws e =>
      cases h
      rw [List.append_nil]
      rfl
    | step i next => cases h
  | step hwithin hexec _ ih =>
    rw [Program.alone_step (exec_of_execLocal (execLocal_append hwithin hexec))]
    exact ih

theorem settles_getLuaObject_pop (v : Value) : Settles S (.ok [v])
    (.step (.getLuaObject (-1)) fun ret => .step (.pop 1) fun _ => .done [ret]) [v] :=
  .step ⟨by decide, by simp⟩ rfl (.step (Nat.le_refl 1) rfl (.outcome rfl))

theorem execLocal_isJavaObject {e : Value} {obj : Option JavaObject} {L : Stack}
    (h : S.javaObject e = obj) :
    execLocal S L (.objectIsJavaObject e) = some (.ok obj.isSome, L) := by
  rw [execLocal, h]

theorem execLocal_getObject {e : Value} {obj : JavaObject} {L : Stack}
    (h : S.javaObject e = some obj) :
    execLocal S L (.objectGetObject e) = some (.ok obj, L) := by
  rw [execLocal, h]

theorem execLocal_toString {e : Value} {message : Option JString} {L : Stack}
    (h : S.text e = .ok message) :
    execLocal S L (.objectToString e) = some (.ok message, L) := by
  rw [execLocal, h]

/-- The error is on top, and nothing else of the call is on the stack. -/
theorem settles_handleThrows {e : Value} (h : S.Reports e) :
    ∃ o, Settles S o (Lua.handleThrows (api S.isThrowable)) [e] := by
  have hpop : ∀ t, Settles S (.error t) (.step (.pop 1) fun _ => .throws t) [e] := fun t =>
    .step (Nat.le_refl 1) rfl (.outcome rfl)
  have htext : ∀ message, S.text e = .ok message → Settles S (.error (.luaException message))
      (.step (.objectToString e) fun text => .step (.pop 1) fun _ =>
        .throws (.luaException text)) [e] := fun message hmessage =>
    .step trivial (execLocal_toString hmessage) (hpop _)
  cases hobj : S.javaObject e with
  | none =>
    rcases h with ⟨obj, hsome, _⟩ | ⟨message, hmessage⟩
    · cases hobj.symm.trans hsome
    · exact ⟨_, .step ⟨by decide, by simp⟩ rfl (.step (i := .objectIsJavaObject e) trivial
        (execLocal_isJavaObject hobj) (htext message hmessage))⟩
  | some obj =>
    have hobject : Settles S (.error (.throwable obj))
        (.step (.objectGetObject e) fun obj => .step (.pop 1) fun _ => .throws (.throwable obj))
        [e] := .step trivial (execLocal_getObject hobj) (hpop _)
    have hget : ∀ o, Settles S o ((if S.isThrowable obj = true then
          Thrown.throwable <$> perform (.objectGetObject e)
        else Thrown.luaException <$> perform (.objectToString e)) >>= fun t =>
          .step (.pop 1) fun _ => .throws t) [e] →
        Settles S o (Lua.handleThrows (api S.isThrowable)) [e] := fun o h =>
      .step ⟨by decide, by simp⟩ rfl (.step (i := .objectIsJavaObject e) trivial
        (execLocal_isJavaObject hobj) (.step (i := .objectGetObject e) trivial
          (execLocal_getObject hobj) h))
    by_cases hthrowable : S.isThrowable obj = true
    · exact ⟨_, hget _ (by rw [if_pos hthrowable]; exact hobject)⟩
    · rcases h with ⟨obj', hsome, hyes⟩ | ⟨message, hmessage⟩
      · cases hobj.symm.trans hsome
        exact absurd hyes hthrowable
      · exact ⟨_, hget _ (by rw [if_neg hthrowable]; exact htext message hmessage)⟩

theorem slot_neg {n : Nat} (h : n < own.length) :
    slot own (-(n + 1 : Nat)) = own[own.length - (n + 1)] := by
  rw [slot, index2adr, Nat.cast_succ, absIndex_negative, List.getElem?_eq_getElem (by omega)]
  rfl

theorem settles_getLuaObjects {n : Nat} (hn : n ≤ own.length)
    {f : List Value → Prog (List Value)} (h : Settles S o (f (own.drop (own.length - n))) own) :
    Settles S o (Lua.getLuaObjects (api S.isThrowable) n >>= f) own := by
  induction n generalizing f with
  | zero =>
    rw [Nat.sub_zero, List.drop_length] at h
    exact h
  | succ n ih =>
    have hlow : own.length - (n + 1) < own.length := by omega
    have hdrop : own.drop (own.length - (n + 1)) =
        slot own (-(n + 1 : Nat)) :: own.drop (own.length - n) := by
      rw [List.drop_eq_getElem_cons hlow, slot_neg (by omega)]
      congr 2
      omega
    rw [hdrop] at h
    refine .step (i := .getLuaObject (-(n + 1 : Nat))) ⟨by omega, by omega⟩ rfl ?_
    have hrest := ih (by omega) (f := fun rest => f (slot own (-(n + 1 : Nat)) :: rest)) h
    have hassoc := Program.bind_assoc_eq (Lua.getLuaObjects (api S.isThrowable) n)
      (fun rest => (Program.done (slot own (-(n + 1 : Nat)) :: rest) : Prog (List Value))) f
    exact (congrArg (Settles S o · own) hassoc).mpr hrest

theorem ready_push {call : Call} {arg : Argument} {next : Unit → Prog (List Value)}
    (hown : own ≠ []) (h : ∀ v, Ready S call (next ()) (own ++ [v])) :
    Ready S call (.step (.pushObjectValue arg) next) own := by
  cases arg with
  | value v => exact .step trivial rfl (h v)
  | foreign => exact .excluded id
  | denied e => exact .excluded (by simpa [Instr.Acceptable] using hown)

theorem ready_pushAll {call : Call} {args : List Argument} (hown : own ≠ [])
    {f : Unit → Prog (List Value)}
    (h : ∀ vs : List Value, vs.length = args.length → Ready S call (f ()) (own ++ vs)) :
    Ready S call (Lua.pushAll (api S.isThrowable) args >>= f) own := by
  induction args generalizing own with
  | nil =>
    have hnil := h [] rfl
    rw [List.append_nil] at hnil
    exact hnil
  | cons arg args ih =>
    refine ready_push hown fun v => ih (by simp) fun vs hvs => ?_
    rw [List.append_assoc]
    exact h (v :: vs) (by simp [hvs])

theorem settles_results {numOfResults : Int} {vs : List Value}
    (h : vs.length = numOfResults.toNat) : Settles S (.ok vs)
      (Lua.getLuaObjects (api S.isThrowable) numOfResults.toNat >>= fun ret =>
        .step (.pop numOfResults.toNat) fun _ => .done ret) vs := by
  have hpop : luaPop vs numOfResults.toNat = [] := by simp [luaPop, h]
  apply settles_getLuaObjects h.ge
  rw [h, Nat.sub_self, List.drop_zero]
  exact .step (i := .pop numOfResults.toNat) h.ge rfl (hpop ▸ .outcome rfl)

theorem settles_after_pcall {numOfResults err : Int} {f : Value} {args own' : List Value} {s s' : τ}
    (h : luaPcall S.vm.call (f :: args) args.length numOfResults s = some (err, own', s'))
    (hfits : (Instr.pcall args.length numOfResults).Fits S err own') :
    ∃ o, Settles S o (if err ≠ 0 then Lua.handleThrows (api S.isThrowable)
      else if numOfResults < 0 then
        .throws (.runtimeException "java.lang.IllegalArgumentException"
          (javaString "Illegal Capacity: " ++ javaString (ToString.toString numOfResults)))
      else Lua.getLuaObjects (api S.isThrowable) numOfResults.toNat >>= fun ret =>
        .step (.pop numOfResults.toNat) fun _ => .done ret) own' := by
  rw [← List.nil_append (f :: args), luaPcall_append, Option.map_eq_some_iff] at h
  obtain ⟨⟨result, s₁⟩, _, hr⟩ := h
  cases hr
  cases result with
  | error e =>
    rw [if_pos (by simp [status, LUA_ERRRUN])]
    exact settles_handleThrows (hfits.2 (by simp [status, LUA_ERRRUN]))
  | ok vs =>
    have hn : 0 ≤ numOfResults := hfits.1 rfl
    rw [if_neg (by simp [status]), if_neg (by omega)]
    exact ⟨_, settles_results (length_adjust hn vs)⟩

theorem ready_callFunctionEx {name : JString} {numOfResults : Int} {args : List Argument} :
    Ready S (.callFunctionEx name numOfResults args)
      (Lua.callFunctionEx (api S.isThrowable) name numOfResults args) [] := by
  refine .look (fun f _ => ?_) fun v hv => absurd rfl hv
  have hassoc := Program.bind_assoc_eq (Lua.pushAll (api S.isThrowable) args)
    (fun _ => perform (.pcall args.length numOfResults)) fun res =>
      if res ≠ 0 then Lua.handleThrows (api S.isThrowable)
      else if numOfResults < 0 then
        .throws (.runtimeException "java.lang.IllegalArgumentException"
          (javaString "Illegal Capacity: " ++ javaString (ToString.toString numOfResults)))
      else Lua.getLuaObjects (api S.isThrowable) numOfResults.toNat >>= fun ret =>
        .step (.pop numOfResults.toNat) fun _ => .done ret
  refine (congrArg (Ready S _ · ([] ++ [f])) hassoc).mpr ?_
  refine ready_pushAll (by simp) fun vs hvs => ?_
  refine .last (i := .pcall args.length numOfResults) rfl nofun (by simp [Instr.Within, hvs]) ?_
  intro s err own' s' hexec hfits
  have hpcall : luaPcall S.vm.call (f :: vs) vs.length numOfResults s = some (err, own', s') :=
    hvs ▸ hexec
  exact settles_after_pcall hpcall (hvs ▸ hfits)

theorem setTableField_cases (table : Value) (key value : Argument) :
    (∃ o, Settles S o ((Call.setTableField table key value).program S.isThrowable) []) ∨
      Ready S (.setTableField table key value)
        ((Call.setTableField table key value).program S.isThrowable) [] := by
  by_cases ht : table.type = .table
  · have hexec : execLocal S [] (.objectIsTable table) = some (.ok true, []) := by
      rw [execLocal, decide_eq_true ht]
    refine Or.inr (.step (i := .objectIsTable table) trivial hexec ?_)
    refine .step (i := .pushObjectValue (.value table)) trivial rfl ?_
    refine ready_push (by simp) fun k => ready_push (by simp) fun v => ?_
    refine .last (i := .setTable (-3)) rfl nofun ⟨by decide, by simp, by simp⟩ ?_
    intro s _ own' s' h _
    obtain ⟨r, _, hr⟩ := Option.map_eq_some_iff.mp h
    cases hr
    exact ⟨.ok [], .step (i := .pop 1) (Nat.le_refl 1) rfl (.outcome rfl)⟩
  · have hexec : execLocal S [] (.objectIsTable table) = some (.ok false, []) := by
      rw [execLocal, decide_eq_false ht]
    exact Or.inl ⟨_, .step (i := .objectIsTable table) trivial hexec (.outcome rfl)⟩

theorem ready_getGlobalTableField (tableName : JString) (key : Argument) :
    Ready S (.getGlobalTableField tableName key)
      ((Call.getGlobalTableField tableName key).program S.isThrowable) [] := by
  refine .look (fun v hv => ?_) fun v hv => ?_
  · have hexec : execLocal S [v] (.isTable (-1)) = some (.ok true, [v]) := by
      rw [execLocal, ← hv]
      rfl
    refine .step (i := .isTable (-1)) ⟨by decide, by simp⟩ hexec ?_
    refine ready_push (by simp) fun k => ?_
    refine .last (i := .getTable (-2)) rfl nofun ⟨by decide, by simp⟩ ?_
    intro s _ own' s' h _
    obtain ⟨r, _, hr⟩ := Option.map_eq_some_iff.mp h
    cases hr
    exact ⟨.ok [r.1], .step (i := .getLuaObject (-1)) ⟨by decide, by simp⟩ rfl
      (.step (i := .pop 2) (Nat.le_refl 2) rfl (.outcome rfl))⟩
  · have hexec : execLocal S [v] (.isTable (-1)) = some (.ok false, [v]) := by
      rw [execLocal, ← Bool.eq_false_of_not_eq_true hv]
      rfl
    exact ⟨_, .step (i := .isTable (-1)) ⟨by decide, by simp⟩ hexec
      (.step (i := .pop 1) (Nat.le_refl 1) rfl (.outcome rfl))⟩

theorem registerGlobal_cases (name : JString) (obj : Argument) :
    (∃ o, Settles S o ((Call.registerGlobal name obj).program S.isThrowable) []) ∨
      Ready S (.registerGlobal name obj)
        ((Call.registerGlobal name obj).program S.isThrowable) [] := by
  cases obj with
  | value v =>
    refine Or.inr (.step (i := .pushObjectValue (.value v)) trivial rfl ?_)
    refine .last (i := .setGlobal name) rfl nofun (Nat.le_refl 1) ?_
    intro s _ own' s' h _
    obtain ⟨r, _, hr⟩ := Option.map_eq_some_iff.mp h
    cases hr
    exact ⟨.ok [], .outcome rfl⟩
  | foreign => exact Or.inr (.excluded (i := .pushObjectValue .foreign) id)
  | denied e =>
    exact Or.inl ⟨.error e, .step (i := .pushObjectValue (.denied e)) trivial rfl (.outcome rfl)⟩

theorem alone_getGlobal (name : JString) (L : Stack) (s : τ) :
    ((Call.getGlobal name).program S.isThrowable).alone (exec S) (L, s) =
      (lookup S name s).map fun r => (.ok [r.1], L, r.2) := by
  have hexec : exec S (.getGlobal name) (L, s) =
      (lookup S name s).map fun r => (.ok (), L ++ [r.1], r.2) := by
    rw [exec_of_isAccess rfl, execAccess, Option.map_map]
    rfl
  cases h : lookup S name s with
  | none =>
    rw [h] at hexec
    exact Program.alone_step_none hexec
  | some r =>
    rw [h] at hexec
    exact (Program.alone_step hexec).trans ((settles_getLuaObject_pop r.1).alone r.2)

theorem exec_push (v : Value) (L : Stack) (s : τ) :
    exec S (.pushObjectValue (.value v)) (L, s) = some (.ok (), L ++ [v], s) := rfl

theorem exec_setTable (table k v : Value) (L : Stack) (s : τ) :
    exec S (.setTable (-3)) (L ++ [table] ++ [k] ++ [v], s) =
      (writeTable S table k v s).map fun r => (.ok (), L ++ [table], r.2) := by
  have hwithin : (Instr.setTable (-3)).Within [table, k, v] := ⟨by decide, by simp, by simp⟩
  have happend : L ++ [table] ++ [k] ++ [v] = L ++ [table, k, v] := by simp
  rw [exec_of_isAccess rfl, happend, execAccess_append hwithin, Option.map_map, execAccess,
    Option.map_map]
  rfl

theorem alone_setTableField {table : Value} (ht : table.type = .table) (k v : Value) (L : Stack)
    (s : τ) :
    ((Call.setTableField table (.value k) (.value v)).program S.isThrowable).alone (exec S)
        (L, s) = (writeTable S table k v s).map fun r => (.ok [], L, r.2) := by
  have hexec : execLocal S L (.objectIsTable table) = some (.ok true, L) := by
    rw [execLocal, decide_eq_true ht]
  apply (Program.alone_step (exec_of_execLocal hexec)).trans
  apply (Program.alone_step (exec_push table L s)).trans
  apply (Program.alone_step (exec_push k _ s)).trans
  apply (Program.alone_step (exec_push v _ s)).trans
  have hset := exec_setTable table k v L s (S := S)
  cases h : writeTable S table k v s with
  | none =>
    rw [h] at hset
    exact Program.alone_step_none hset
  | some r =>
    have hpop : Settles S (.ok []) (.step (.pop 1) fun _ => .done []) [table] :=
      .step (Nat.le_refl 1) rfl (.outcome rfl)
    rw [h] at hset
    exact (Program.alone_step hset).trans (hpop.alone r.2)

/-- Each call is done when it begins, or it is going to make its last access. -/
theorem settles_or_ready (call : Call) : (∃ o, Settles S o (call.program S.isThrowable) []) ∨
    Ready S call (call.program S.isThrowable) [] := by
  cases call with
  | getGlobal name =>
    exact Or.inr (.look (fun v hv => by cases hv) fun v _ => ⟨_, settles_getLuaObject_pop v⟩)
  | createTable =>
    refine Or.inr (.last (i := .newTable) rfl nofun trivial fun s _ own' s' h _ => ?_)
    cases h
    exact ⟨_, settles_getLuaObject_pop _⟩
  | setTableField table key value => exact setTableField_cases table key value
  | getGlobalTableField tableName key => exact Or.inr (ready_getGlobalTableField tableName key)
  | registerGlobal name obj => exact registerGlobal_cases name obj
  | callFunctionEx name numOfResults args => exact Or.inr ready_callFunctionEx

/-- A protected call that fails leaves its error on top. -/
theorem exists_error_of_luaPcall {call : JLua.Call τ} {nArgs : Nat} {nResults err : Int}
    {s s' : τ} (hwithin : nArgs + 1 ≤ own.length) {own' : Stack}
    (h : luaPcall call own nArgs nResults s = some (err, own', s')) (herr : err ≠ 0) :
    ∃ below e, own' = below ++ [e] := by
  obtain ⟨below, f, args, rfl, rfl⟩ := exists_call_of_length hwithin
  rw [luaPcall_append, Option.map_eq_some_iff] at h
  obtain ⟨⟨result, s₁⟩, _, hr⟩ := h
  cases hr
  cases result with
  | error e => exact ⟨below, e, rfl⟩
  | ok vs => exact absurd rfl herr

theorem Undisturbed.fits {c : Config T τ} {above : List (Activity T)} {a : Activity T} {i : Instr}
    (hu : Undisturbed S c above a i) {answer : Answer i} {own' L : Stack} {s : τ}
    (hexec : exec S i (c.stack, c.heap) = some (.ok answer, L, s))
    (hown : execAccess S own c.heap i = some (answer, own', s)) (hwithin : i.Within own)
    (hmoved : Moved i B own own' c.stack L) : i.Fits S answer own' := by
  cases i with
  | pcall nArgs nResults =>
    rw [exec_of_isAccess rfl] at hexec
    obtain ⟨⟨err, L₁, s₁⟩, hpcall, heq⟩ := Option.map_eq_some_iff.mp hexec
    cases heq
    refine ⟨?_, fun herr => ?_⟩
    · rintro rfl
      exact hu.results nArgs nResults L s rfl hpcall
    · have hreports := hu.error nArgs nResults _ L s rfl hpcall herr
      obtain ⟨below, e, rfl⟩ := exists_error_of_luaPcall hwithin hown herr
      rw [hmoved.2, slot_append (by decide) (by simp)] at hreports
      exact hreports
  | _ => trivial

theorem exec_getGlobal {name : JString} {v : Value} {s : τ}
    (h : lookup S name s = some (v, s)) :
    exec S (.getGlobal name) (B ++ own, s) = some (.ok (), B ++ (own ++ [v]), s) := by
  rw [exec_of_isAccess rfl, execAccess, h, ← List.append_assoc]
  rfl

end Programs

/-! ### The simulation -/

/-- All that the call has done so far is to read globals that are still as they were. -/
def Faithful (S : Shared τ) (a : Activity T) (own : Stack) : Prop :=
  ∀ B s, (∀ x ∈ a.lookups, lookup S x.1 s = some (x.2, s)) →
    a.rest.alone (exec S) (B ++ own, s) =
      (a.call.program S.isThrowable).alone (exec S) (B, s)

/-- The call has the values `own` on the stack, and what is left of it agrees with its status. -/
inductive Holds (S : Shared τ) (status : T → Option Status) (a : Activity T) (own : Stack) :
    Prop where
  | pending (hpushed : a.pushed = own.length)
      (hstatus : status a.thread = some (.pending a.call)) (hready : Ready S a.call a.rest own)
      (hfaithful : Faithful S a own) : Holds S status a own
  | effected {o : Outcome} (hpushed : a.pushed = own.length)
      (hstatus : status a.thread = some (.effected o)) (hsettles : Settles S o a.rest own) :
      Holds S status a own

/-- The values of the calls, those of the first one on top. -/
def values (held : List (Activity T × Stack)) : Stack := (held.map Prod.snd).reverse.flatten

structure Simulates (S : Shared τ) (L₀ : Stack) (c : Config T τ) (A : Serial T τ) : Prop where
  heap : A.heap = c.heap
  stack : A.stack = L₀
  idle : ∀ t, (∀ a ∈ c.active, a.thread ≠ t) → A.status t = none
  threads : (c.active.map Activity.thread).Nodup
  held : ∃ held : List (Activity T × Stack), held.map Prod.fst = c.active ∧
    c.stack = L₀ ++ values held ∧ ∀ x ∈ held, Holds S A.status x.1 x.2

section Values
variable {held held₁ held₂ : List (Activity T × Stack)} {a : Activity T} {own : Stack}

theorem values_cons : values ((a, own) :: held) = values held ++ own := by
  simp [values]

theorem values_append : values (held₁ ++ held₂) = values held₂ ++ values held₁ := by
  simp [values]

/-- A call that has no values, or nothing above them, may as well be the first one. -/
theorem values_middle (h : own = [] ∨ values held₁ = []) :
    values (held₁ ++ (a, own) :: held₂) = values (held₁ ++ held₂) ++ own := by
  rw [values_append, values_cons, values_append]
  rcases h with rfl | h
  · simp
  · simp [h]

theorem values_eq_nil {S : Shared τ} {status : T → Option Status}
    (hheld : ∀ x ∈ held, Holds S status x.1 x.2) (h : ∀ x ∈ held, x.1.pushed = 0) :
    values held = [] := by
  refine List.flatten_eq_nil_iff.mpr fun own hown => ?_
  obtain ⟨x, hx, rfl⟩ := List.mem_map.mp (List.mem_reverse.mp hown)
  cases hheld x hx with
  | pending hpushed | effected hpushed =>
    rw [h x hx] at hpushed
    exact List.eq_nil_of_length_eq_zero hpushed.symm

end Values

theorem place_perm (i : Instr) (l₁ l₂ : List (Activity T)) (a : Activity T) :
    (place i l₁ a l₂).Perm (a :: (l₁ ++ l₂)) := by
  unfold place
  split
  · exact .refl _
  · exact List.perm_middle

section Simulation
variable {S : Shared τ} {L₀ : Stack} {c : Config T τ} {A A' : Serial T τ} {a a' : Activity T}
  {own own' : Stack} {t : T}

theorem Holds.congr {status status' : T → Option Status} (h : Holds S status a own)
    (heq : status' a.thread = status a.thread) : Holds S status' a own := by
  cases h with
  | pending hpushed hstatus hready hfaithful =>
    exact .pending hpushed (heq.trans hstatus) hready hfaithful
  | effected hpushed hstatus hsettles => exact .effected hpushed (heq.trans hstatus) hsettles

theorem simulates_begin (h : Simulates S L₀ c A) (idle : ∀ b ∈ c.active, b.thread ≠ a.thread)
    (hheap : A'.heap = A.heap) (hstack : A'.stack = A.stack)
    (hstatus : ∀ t, t ≠ a.thread → A'.status t = A.status t) (ha : Holds S A'.status a []) :
    Simulates S L₀ { c with active := a :: c.active } A' := by
  obtain ⟨held, hactive, hvalues, hheld⟩ := h.held
  refine ⟨hheap.trans h.heap, hstack.trans h.stack, fun t ht => ?_, ?_, (a, []) :: held, ?_, ?_, ?_⟩
  · rw [hstatus t fun he => ht a List.mem_cons_self he.symm]
    exact h.idle t fun b hb => ht b (List.mem_cons_of_mem a hb)
  · refine List.nodup_cons.mpr ⟨fun hmem => ?_, h.threads⟩
    obtain ⟨b, hb, hthread⟩ := List.mem_map.mp hmem
    exact idle b hb hthread
  · exact congrArg (a :: ·) hactive
  · rw [values_cons, List.append_nil]
    exact hvalues
  · rintro x hx
    rcases List.mem_cons.mp hx with rfl | hx
    · exact ha
    · exact (hheld x hx).congr (hstatus _ (idle x.1 (hactive ▸ List.mem_map_of_mem hx)))

structure Split (S : Shared τ) (L₀ : Stack) (c : Config T τ) (A : Serial T τ)
    (above : List (Activity T)) (a : Activity T) (below : List (Activity T)) (own : Stack)
    (held₁ held₂ : List (Activity T × Stack)) : Prop where
  active : c.active = above ++ a :: below
  above : held₁.map Prod.fst = above
  below : held₂.map Prod.fst = below
  stack : c.stack = L₀ ++ values (held₁ ++ (a, own) :: held₂)
  holds : Holds S A.status a own
  others : ∀ x ∈ held₁ ++ held₂, Holds S A.status x.1 x.2

theorem exists_split {l₁ l₂ : List (Activity T)} (h : Simulates S L₀ c A)
    (hactive : c.active = l₁ ++ a :: l₂) :
    ∃ own held₁ held₂, Split S L₀ c A l₁ a l₂ own held₁ held₂ := by
  obtain ⟨held, hmap, hvalues, hheld⟩ := h.held
  rw [hactive, List.map_eq_append_iff] at hmap
  obtain ⟨held₁, rest, rfl, habove, hrest⟩ := hmap
  obtain ⟨⟨_, own⟩, held₂, rfl, rfl, hbelow⟩ := List.map_eq_cons_iff.mp hrest
  refine ⟨own, held₁, held₂, hactive, habove, hbelow, hvalues, hheld (_, own) (by simp), ?_⟩
  intro x hx
  apply hheld x
  rcases List.mem_append.mp hx with hx | hx
  · exact List.mem_append_left _ hx
  · exact List.mem_append_right _ (List.mem_cons_of_mem _ hx)

theorem pushed_resume {rest : Prog (List Value)} {i : Instr} {B L L' : Stack}
    (hmoved : Moved i B own own' L L') (h : a.pushed = own.length) :
    (a.resume rest i L L').pushed = own'.length := by
  change a.pushed + L'.length - L.length = own'.length
  unfold Moved at hmoved
  split at hmoved
  · obtain ⟨rfl, rfl⟩ := hmoved
    simp only [List.length_append]
    omega
  · obtain ⟨rfl, rfl⟩ := hmoved
    omega

section Split
variable {l₁ l₂ : List (Activity T)} {held₁ held₂ : List (Activity T × Stack)}

/-- The call has its values on top if there are none of the calls that come before it. -/
theorem Split.top (hsplit : Split S L₀ c A l₁ a l₂ own held₁ held₂)
    (h : a.pushed = 0 ∨ ∀ b ∈ l₁, b.pushed = 0) :
    c.stack = L₀ ++ values (held₁ ++ held₂) ++ own := by
  rw [hsplit.stack, List.append_assoc, ← values_middle]
  refine h.imp (fun h => ?_) fun h => ?_
  · cases hsplit.holds with
    | pending hpushed | effected hpushed =>
      rw [h] at hpushed
      exact List.eq_nil_of_length_eq_zero hpushed.symm
  · refine values_eq_nil (fun x hx => hsplit.others x (List.mem_append_left _ hx)) fun x hx => ?_
    exact h x.1 (hsplit.above ▸ List.mem_map_of_mem hx)

theorem Split.threads_ne (hsplit : Split S L₀ c A l₁ a l₂ own held₁ held₂)
    (h : Simulates S L₀ c A) : ∀ b ∈ l₁ ++ l₂, b.thread ≠ a.thread := by
  have hnodup := h.threads
  rw [hsplit.active, (List.perm_middle.map _).nodup_iff, List.map_cons, List.nodup_cons] at hnodup
  intro b hb hthread
  exact hnodup.1 (List.mem_map.mpr ⟨b, hb, hthread⟩)

theorem Split.simulates (hsplit : Split S L₀ c A l₁ a l₂ own held₁ held₂)
    (h : Simulates S L₀ c A) {i : Instr} {L : Stack} {s : τ}
    (hmoved : Moved i (L₀ ++ values (held₁ ++ held₂)) own own' c.stack L)
    (hthread : a'.thread = a.thread) (hheap : A'.heap = s) (hstack : A'.stack = L₀)
    (hstatus : ∀ t, t ≠ a.thread → A'.status t = A.status t) (ha : Holds S A'.status a' own') :
    Simulates S L₀ ⟨L, s, place i l₁ a' l₂⟩ A' := by
  have hne := hsplit.threads_ne h
  have hothers : ∀ x ∈ held₁ ++ held₂, Holds S A'.status x.1 x.2 := fun x hx => by
    refine (hsplit.others x hx).congr (hstatus _ (hne x.1 ?_))
    rw [← hsplit.above, ← hsplit.below, ← List.map_append]
    exact List.mem_map_of_mem hx
  have hperm := place_perm i l₁ l₂ a'
  refine ⟨hheap, hstack, fun t ht => ?_, ?_, ?_⟩
  · rw [hstatus t fun he => ht a' (hperm.mem_iff.mpr List.mem_cons_self) (hthread.trans he.symm)]
    refine h.idle t fun b hb => ?_
    rw [hsplit.active, List.perm_middle.mem_iff, List.mem_cons] at hb
    rcases hb with rfl | hb
    · exact hthread ▸ ht a' (hperm.mem_iff.mpr List.mem_cons_self)
    · exact ht b (hperm.mem_iff.mpr (List.mem_cons_of_mem a' hb))
  · have hnodup := h.threads
    rw [hsplit.active, (List.perm_middle.map _).nodup_iff] at hnodup
    rw [(hperm.map _).nodup_iff, List.map_cons, hthread]
    exact hnodup
  · unfold place
    unfold Moved at hmoved
    split at hmoved
    · rename_i hi
      refine ⟨(a', own') :: (held₁ ++ held₂), ?_, ?_, ?_⟩
      · rw [if_pos hi, List.map_cons, List.map_append, hsplit.above, hsplit.below]
      · rw [values_cons, ← List.append_assoc]
        exact hmoved.2
      · rintro x hx
        rcases List.mem_cons.mp hx with rfl | hx
        · exact ha
        · exact hothers x hx
    · rename_i hi
      obtain ⟨rfl, rfl⟩ := hmoved
      refine ⟨held₁ ++ (a', own') :: held₂, ?_, ?_, ?_⟩
      · rw [if_neg hi, List.map_append, List.map_cons, hsplit.above, hsplit.below]
      · exact hsplit.stack.trans (by simp [values])
      · intro x hx
        rcases List.mem_cons.mp (List.perm_middle.mem_iff.mp hx) with rfl | hx
        · exact ha
        · exact hothers x hx

/-- A call that goes on after it has read a global has left the heap as it was. -/
theorem follow_look {name : JString} {next : Unit → Prog (List Value)} {v : Value} {L : Stack}
    (h : Simulates S L₀ c A) (hsplit : Split S L₀ c A l₁ a l₂ own held₁ held₂)
    (hmoved : Moved (.getGlobal name) (L₀ ++ values (held₁ ++ held₂)) own (own ++ [v]) c.stack L)
    (hpushed : a.pushed = own.length) (hstatus : A.status a.thread = some (.pending a.call))
    (hfaithful : Faithful S a own) (hrest : a.rest = .step (.getGlobal name) next)
    (hready : Ready S a.call (next ()) (own ++ [v])) :
    Simulates S L₀
      ⟨L, c.heap, place (.getGlobal name) l₁ (a.resume (next ()) (.getGlobal name) c.stack L) l₂⟩
      A := by
  have htop : slot L (-1) = v := by
    rw [hmoved.2, ← List.append_assoc, slot, index2adr_top]
    rfl
  refine hsplit.simulates h hmoved rfl h.heap h.stack (fun _ _ => rfl)
    (.pending (pushed_resume hmoved hpushed) hstatus hready fun B s hs => ?_)
  have hname : lookup S name s = some (v, s) :=
    htop ▸ hs (name, slot L (-1)) (List.mem_append_right _ List.mem_cons_self)
  have halone := hfaithful B s fun x hx => hs x (List.mem_append_left _ hx)
  rw [hrest, Program.alone_step (exec_getGlobal hname)] at halone
  exact halone

end Split

end Simulation

/-- The outcome is that of a call which the thread has begun, run alone in some state. -/
def Explained (S : Shared τ) (es : List (Event T)) (t : T) (o : Outcome) : Prop :=
  ∃ call w w', .begin t call ∈ es ∧
    (call.program S.isThrowable).alone (exec S) w = some (o, w')

theorem Explained.mono {S : Shared τ} {t : T} {es : List (Event T)} {o : Outcome}
    (h : Explained S es t o) (e : Option (Event T)) : Explained S (es ++ e.toList) t o := by
  obtain ⟨call, w, w', hbegin, halone⟩ := h
  exact ⟨call, w, w', List.mem_append_left _ hbegin, halone⟩

section Follow
variable [DecidableEq T] {S : Shared τ} {L₀ : Stack} {c c' : Config T τ} {A : Serial T τ} {t : T}

/-- A call takes effect as soon as it begins if there is nothing that it accesses. -/
theorem follow_begin {call : Call} (h : Simulates S L₀ c A)
    (idle : ∀ a ∈ c.active, a.thread ≠ t) : ∃ log' A', Run (SerialStep S) A log' A' ∧
      Simulates S L₀
        { c with active := ⟨t, call, call.program S.isThrowable, 0, []⟩ :: c.active } A' ∧
      serialEvents log' = [.begin t call] := by
  have hbegin : SerialStep S A (.begin t call)
      { A with status := Function.update A.status t (some (.pending call)) } :=
    .begin (h.idle t idle)
  rcases settles_or_ready (S := S) call with ⟨o, ho⟩ | hready
  · have halone := ho.alone (B := A.stack) A.heap
    rw [List.append_nil] at halone
    refine ⟨_, _, (Run.one hbegin).next (.effect (Function.update_self _ _ _) halone), ?_, rfl⟩
    refine simulates_begin h idle rfl rfl (fun t' ht' => ?_)
      (.effected rfl (Function.update_self _ _ _) ho)
    exact (Function.update_of_ne ht' _ _).trans (Function.update_of_ne ht' _ _)
  · refine ⟨_, _, Run.one hbegin, ?_, rfl⟩
    refine simulates_begin h idle rfl rfl (fun t' ht' => Function.update_of_ne ht' _ _)
      (.pending rfl (Function.update_self _ _ _) hready fun B s _ => ?_)
    rw [List.append_nil]

section Run
variable {l₁ l₂ : List (Activity T)} {a : Activity T} {own own' : Stack}
  {held₁ held₂ : List (Activity T × Stack)} {i : Instr} {next : Answer i → Prog (List Value)}
  {L : Stack} {s : τ} {o : Outcome}

/-- The last access of a call is where it takes effect. -/
theorem follow_effect (h : Simulates S L₀ c A)
    (hsplit : Split S L₀ c A l₁ a l₂ own held₁ held₂)
    (hmoved : Moved i (L₀ ++ values (held₁ ++ held₂)) own own' c.stack L)
    (hpushed : a.pushed = own.length) (hstatus : A.status a.thread = some (.pending a.call))
    (hfaithful : Faithful S a own) (hrest : a.rest = .step i next) (haccess : i.isAccess)
    (hwithin : i.Within own)
    (hglobals : ∀ x ∈ a.lookups, lookup S x.1 c.heap = some (x.2, c.heap)) {answer : Answer i}
    (hexec : execAccess S own c.heap i = some (answer, own', s))
    (hsettles : Settles S o (next answer) own') : ∃ log' A', Run (SerialStep S) A log' A' ∧
      Simulates S L₀ ⟨L, s, place i l₁ (a.resume (next answer) i c.stack L) l₂⟩ A' ∧
      serialEvents log' = [] := by
  have hframe : exec S i (A.stack ++ own, c.heap) = some (.ok answer, A.stack ++ own', s) := by
    rw [exec_of_isAccess haccess, execAccess_append hwithin, hexec]
    rfl
  have halone : (a.call.program S.isThrowable).alone (exec S) (A.stack, A.heap) =
      some (o, A.stack, s) := by
    rw [h.heap, ← hfaithful A.stack c.heap hglobals, hrest, Program.alone_step hframe]
    exact hsettles.alone s
  refine ⟨_, _, Run.one (.effect hstatus halone), ?_, rfl⟩
  exact hsplit.simulates h hmoved rfl rfl h.stack
    (fun t ht => Function.update_of_ne ht _ _)
    (.effected (pushed_resume hmoved hpushed) (Function.update_self _ _ _) hsettles)

theorem follow_run {r : Except Thrown (Answer i)} (h : Simulates S L₀ c A)
    (hok : Orderly S c (.run a.thread)) (hactive : c.active = l₁ ++ a :: l₂)
    (hrest : a.rest = .step i next) (hexec : exec S i (c.stack, c.heap) = some (r, L, s)) :
    ∃ log' A', Run (SerialStep S) A log' A' ∧
      Simulates S L₀ ⟨L, s, place i l₁ (a.resume (Program.after next r) i c.stack L) l₂⟩ A' ∧
      serialEvents log' = [] := by
  obtain ⟨own, held₁, held₂, hsplit⟩ := exists_split h hactive
  have hu := hok l₁ a l₂ i next hactive rfl hrest
  have htop : i.usesStack → c.stack = L₀ ++ values (held₁ ++ held₂) ++ own := fun hi =>
    hsplit.top (hu.onTop hi)
  cases hsplit.holds with
  | effected hpushed hstatus hsettles =>
    rw [hrest] at hsettles
    cases hsettles with
    | outcome h => cases h
    | step hwithin hlocal hnext =>
      obtain ⟨rfl, rfl, hmoved⟩ := moved_of_execLocal hexec hwithin hlocal htop
      refine ⟨[], A, .start, ?_, rfl⟩
      exact hsplit.simulates h hmoved rfl h.heap h.stack (fun _ _ => rfl)
        (.effected (pushed_resume hmoved hpushed) hstatus hnext)
  | pending hpushed hstatus hready hfaithful =>
    rw [hrest] at hready
    cases hready with
    | excluded hne => exact absurd (hpushed ▸ hu.argument) hne
    | step hwithin hlocal hnext =>
      obtain ⟨rfl, rfl, hmoved⟩ := moved_of_execLocal hexec hwithin hlocal htop
      refine ⟨[], A, .start, ?_, rfl⟩
      refine hsplit.simulates h hmoved rfl h.heap h.stack (fun _ _ => rfl)
        (.pending (pushed_resume hmoved hpushed) hstatus hnext fun B s hs => ?_)
      have halone := hfaithful B s fun x hx => hs x (List.mem_append_left _ hx)
      rw [hrest, Program.alone_step (exec_of_execLocal (execLocal_append hwithin hlocal))] at halone
      exact halone
    | look hnext hlast =>
      obtain ⟨answer, own', hown, rfl, hmoved⟩ := moved_of_execAccess hexec rfl trivial htop
      obtain ⟨⟨v, s₁⟩, hlookup, heq⟩ := Option.map_eq_some_iff.mp hown
      cases heq
      by_cases hgo : a.call.goesOn v
      · obtain rfl := hu.unchanged _ v _ rfl hlookup hgo
        refine ⟨[], A, .start, ?_, rfl⟩
        exact follow_look h hsplit hmoved hpushed hstatus hfaithful hrest (hnext v hgo)
      · obtain ⟨o, ho⟩ := hlast v hgo
        exact follow_effect h hsplit hmoved hpushed hstatus hfaithful hrest rfl trivial
          (hu.globals rfl) hown ho
    | last haccess hlook hwithin hlast =>
      obtain ⟨answer, own', hown, rfl, hmoved⟩ := moved_of_execAccess hexec haccess hwithin htop
      obtain ⟨o, ho⟩ := hlast c.heap answer own' s hown (hu.fits hexec hown hwithin hmoved)
      exact follow_effect h hsplit hmoved hpushed hstatus hfaithful hrest haccess hwithin
        (hu.globals haccess) hown ho

end Run

theorem follow_finish {l₁ l₂ : List (Activity T)} {a : Activity T} {o : Outcome}
    (h : Simulates S L₀ c A) (hactive : c.active = l₁ ++ a :: l₂)
    (hrest : a.rest.outcome = some o) : ∃ log' A', Run (SerialStep S) A log' A' ∧
      Simulates S L₀ { c with active := l₁ ++ l₂ } A' ∧
      serialEvents log' = [.finish a.thread o] := by
  obtain ⟨own, held₁, held₂, hsplit⟩ := exists_split h hactive
  have hne := hsplit.threads_ne h
  have heffected : own = [] ∧ A.status a.thread = some (.effected o) := by
    cases hsplit.holds with
    | pending _ _ hready =>
      generalize a.rest = p at hrest hready
      cases hready <;> cases hrest
    | effected _ hstatus hsettles =>
      generalize a.rest = p at hrest hsettles
      cases hsettles with
      | outcome ho => exact ⟨rfl, Option.some.inj (ho.symm.trans hrest) ▸ hstatus⟩
      | step => cases hrest
  obtain ⟨rfl, hstatus⟩ := heffected
  refine ⟨_, _, Run.one (.finish hstatus), ?_, rfl⟩
  refine ⟨h.heap, h.stack, fun t ht => ?_, ?_, held₁ ++ held₂, ?_, ?_, fun x hx => ?_⟩
  · by_cases heq : t = a.thread
    · exact heq ▸ Function.update_self _ _ _
    · refine (Function.update_of_ne heq _ _).trans (h.idle t fun b hb => ?_)
      rw [hactive, List.perm_middle.mem_iff, List.mem_cons] at hb
      rcases hb with rfl | hb
      · exact fun he => heq he.symm
      · exact ht b hb
  · have hnodup := h.threads
    rw [hactive, (List.perm_middle.map _).nodup_iff, List.map_cons, List.nodup_cons] at hnodup
    exact hnodup.2
  · rw [List.map_append, hsplit.above, hsplit.below]
  · apply hsplit.stack.trans
    rw [values_middle (Or.inl rfl), List.append_nil]
  · refine (hsplit.others x hx).congr (Function.update_of_ne (hne x.1 ?_) _ _)
    rw [← hsplit.above, ← hsplit.below, ← List.map_append]
    exact List.mem_map_of_mem hx

theorem follow_step {act : Action T} (h : Simulates S L₀ c A) (hok : Orderly S c act)
    (hstep : Step S c act c') : ∃ log' A', Run (SerialStep S) A log' A' ∧ Simulates S L₀ c' A' ∧
      serialEvents log' = act.event.toList := by
  cases hstep with
  | begin idle => exact follow_begin h idle
  | run hactive hrest hexec => exact follow_run h hok hactive hrest hexec
  | finish hactive hrest => exact follow_finish h hactive hrest

/-- A run in which no call is disturbed by others looks like one of atomic calls, which end in
the same heap, and when all calls are finished the stack is as it was. -/
theorem atomic_of_orderly {c₀ : Config T τ} {log : List (Config T τ × Action T)}
    (run : Run (Step S) c₀ log c) (start : c₀.active = []) (ok : Meets (Orderly S) log) :
    (∃ log' A, Run (SerialStep S) ⟨c₀.stack, c₀.heap, fun _ => none⟩ log' A ∧
      A.heap = c.heap ∧ A.stack = c₀.stack ∧ serialEvents log' = events log) ∧
    (c.active = [] → c.stack = c₀.stack) := by
  have init : Simulates S c₀.stack c₀ ⟨c₀.stack, c₀.heap, fun _ => none⟩ :=
    ⟨rfl, rfl, fun _ _ => rfl, by simp [start], [], start.symm, (List.append_nil _).symm, by simp⟩
  obtain ⟨log', A, run', hsim, hevents⟩ := Run.simulation
    (fun _ _ _ _ hsim hok hstep => follow_step hsim hok hstep) run init ok
  refine ⟨⟨log', A, run', hsim.heap, hsim.stack, hevents⟩, fun hdone => ?_⟩
  obtain ⟨held, hmap, hstack, _⟩ := hsim.held
  rw [hdone, List.map_eq_nil_iff] at hmap
  rw [hstack, hmap]
  exact List.append_nil _

theorem update_eq {f : T → Option Status} {t t' : T} {x y : Option Status}
    (h : Function.update f t x t' = y) : t' = t ∧ x = y ∨ f t' = y := by
  rcases eq_or_ne t' t with rfl | hne
  · rw [Function.update_self] at h
    exact Or.inl ⟨rfl, h⟩
  · rw [Function.update_of_ne hne] at h
    exact Or.inr h

structure Accounted (S : Shared τ) (A : Serial T τ) (es : List (Event T)) : Prop where
  pending : ∀ t call, A.status t = some (.pending call) → .begin t call ∈ es
  effected : ∀ t o, A.status t = some (.effected o) → Explained S es t o
  finished : ∀ t o, .finish t o ∈ es → Explained S es t o

theorem Accounted.update {A' : Serial T τ} {es : List (Event T)} {x : Option Status}
    (h : Accounted S A es) (e : Option (Event T))
    (hstatus : A'.status = Function.update A.status t x)
    (hpending : ∀ call, x = some (.pending call) → .begin t call ∈ es ++ e.toList)
    (heffected : ∀ o, x = some (.effected o) → Explained S (es ++ e.toList) t o)
    (hfinished : ∀ t' o, e = some (.finish t' o) → Explained S (es ++ e.toList) t' o) :
    Accounted S A' (es ++ e.toList) := by
  refine ⟨fun t' call ht' => ?_, fun t' o ht' => ?_, fun t' o ht' => ?_⟩
  · rw [hstatus] at ht'
    rcases update_eq ht' with ⟨rfl, heq⟩ | ht'
    · exact hpending call heq
    · exact List.mem_append_left _ (h.pending t' call ht')
  · rw [hstatus] at ht'
    rcases update_eq ht' with ⟨rfl, heq⟩ | ht'
    · exact heffected o heq
    · exact (h.effected t' o ht').mono e
  · rcases List.mem_append.mp ht' with ht' | ht'
    · exact (h.finished t' o ht').mono e
    · exact hfinished t' o (Option.mem_toList.mp ht')

theorem accounted_step {A' : Serial T τ} {act : SerialAction T} {es : List (Event T)}
    (h : Accounted S A es) (hstep : SerialStep S A act A') :
    Accounted S A' (es ++ act.event.toList) := by
  cases hstep with
  | begin hidle =>
    refine h.update _ rfl (fun call heq => ?_) (by simp) (by simp [SerialAction.event])
    cases heq
    exact List.mem_append_right _ List.mem_cons_self
  | effect hstatus halone =>
    refine h.update _ rfl (by simp) (fun o heq => ?_) (by simp [SerialAction.event])
    cases heq
    exact ⟨_, _, _, List.mem_append_left _ (h.pending _ _ hstatus), halone⟩
  | finish hstatus =>
    refine h.update _ rfl (by simp) (by simp) fun t' o heq => ?_
    cases heq
    exact (h.effected _ _ hstatus).mono _

theorem accounted_of_run {A₀ : Serial T τ} {log : List (Serial T τ × SerialAction T)}
    (run : Run (SerialStep S) A₀ log A) (start : ∀ t, A₀.status t = none) :
    Accounted S A (serialEvents log) := by
  induction run with
  | start => exact ⟨by simp [start], by simp [start], by simp [serialEvents]⟩
  | @next log A A' act run hstep ih =>
    have hevents : serialEvents (log ++ [(A, act)]) = serialEvents log ++ act.event.toList := by
      cases h : act.event <;> simp [serialEvents, h]
    rw [hevents]
    exact accounted_step ih hstep

end Follow

/-! ### Two threads that read globals -/

/-- The value of each global is its name. -/
def demoVm : Vm Unit where
  globals _ := .table 0
  rawget _ _ key := key
  rawset s _ _ _ := s
  gettmbyobj _ _ _ := .nil
  newtable s := (1, s)
  call _ _ s := some (.ok [], s)

def demo : Shared Unit := ⟨demoVm, fun _ => none, fun _ => .ok none, fun _ => false⟩

def demoConfig : Config Nat Unit := ⟨[], (), []⟩

theorem lookup_demo (name : JString) :
    lookup demo name () = some (LuaState.luaString name, ()) := by
  unfold lookup readTable
  simp [luaVGettable, MAXTAGLOOP, tagLoop, getRound, demo, demoVm, succeeded]

theorem exec_demo (name : JString) (L : Stack) : exec demo (.getGlobal name) (L, ()) =
    some (.ok (), L ++ [LuaState.luaString name], ()) := by
  rw [exec_of_isAccess rfl, execAccess, lookup_demo]
  rfl

/-- Each thread gets the value of the other one's global. -/
theorem getGlobal_mixed_up : ∃ log c, Run (Step demo) demoConfig log c ∧ c.active = [] ∧
    events log = [.begin 0 (.getGlobal "a"), .begin 1 (.getGlobal "b"),
      .finish 0 (.ok [LuaState.luaString "b"]), .finish 1 (.ok [LuaState.luaString "a"])] ∧
    ¬ ∃ log' A, Run (SerialStep demo) ⟨[], (), fun _ => none⟩ log' A ∧
      serialEvents log' = events log := by
  have run₁ := Run.one (.begin (by simp [demoConfig]) :
    Step demo demoConfig (.begin 0 (.getGlobal "a")) _)
  have run₂ := run₁.next (.begin (by decide) : Step demo _ (.begin 1 (.getGlobal "b")) _)
  have run₃ := run₂.next (.run (show _ = [_] ++ _ :: _ from rfl) rfl (exec_demo _ _))
  have run₄ := run₃.next (.run (show _ = [_] ++ _ :: _ from rfl) rfl (exec_demo _ _))
  have run₅ := run₄.next (.run (show _ = [_] ++ _ :: _ from rfl) rfl rfl)
  have run₆ := run₅.next (.run (show _ = [] ++ _ :: _ from rfl) rfl rfl)
  have run₇ := run₆.next (.finish (show _ = [] ++ _ :: _ from rfl) rfl)
  have run₈ := run₇.next (.run (show _ = [] ++ _ :: _ from rfl) rfl rfl)
  have run₉ := run₈.next (.run (show _ = [] ++ _ :: _ from rfl) rfl rfl)
  have run₁₀ := run₉.next (.finish (show _ = [] ++ _ :: _ from rfl) rfl)
  refine ⟨_, _, run₁₀, rfl, rfl, ?_⟩
  rintro ⟨log', A, run', hevents⟩
  have hfinish : Event.finish 0 (.ok [LuaState.luaString "b"]) ∈ serialEvents log' := by
    rw [hevents]
    exact List.mem_cons_of_mem _ (List.mem_cons_of_mem _ List.mem_cons_self)
  obtain ⟨call, ⟨L, s⟩, w', hbegin, halone⟩ :=
    (accounted_of_run run' fun _ => rfl).finished _ _ hfinish
  have hcall : call = .getGlobal "a" := by
    rw [hevents] at hbegin
    rcases List.mem_cons.mp hbegin with heq | hbegin
    · exact (Event.begin.inj heq).2
    · change _ ∈ [Event.begin 1 _, .finish 0 _, .finish 1 _] at hbegin
      simp at hbegin
  rw [hcall, alone_getGlobal, lookup_demo] at halone
  have hname : LuaState.luaString "a" = LuaState.luaString "b" := by
    simpa using congrArg (Option.map Prod.fst) halone
  exact absurd hname (by decide +kernel)

section Front
variable {S : Shared τ} {c : Config T τ} {a : Activity T} {rest : List (Activity T)} {i : Instr}
  {next : Answer i → Prog (List Value)} {name : JString}

theorem orderly_front (hactive : c.active = a :: rest) (hrest : a.rest = .step i next)
    (hother : ∀ b ∈ rest, b.thread ≠ a.thread) (h : Undisturbed S c [] a i) :
    Orderly S c (.run a.thread) := by
  intro l₁ b l₂ j next' hactive' hthread hrest'
  rw [hactive] at hactive'
  cases l₁ with
  | nil =>
    cases hactive'
    cases hrest.symm.trans hrest'
    exact h
  | cons b' l₁ =>
    obtain ⟨rfl, hmid⟩ := List.cons.inj hactive'
    exact absurd hthread (hother b (hmid ▸ List.mem_append_right _ List.mem_cons_self))

theorem orderly_getGlobal (hactive : c.active = a :: rest) (hrest : a.rest = .step i next)
    (hother : ∀ b ∈ rest, b.thread ≠ a.thread) (hcall : a.call = .getGlobal name)
    (hfirst : i.isAccess → a.lookups = []) (hargument : i.Acceptable a.pushed)
    (hpcall : ∀ nArgs nResults, i ≠ .pcall nArgs nResults) : Orderly S c (.run a.thread) := by
  refine orderly_front hactive hrest hother ⟨fun _ => Or.inr (by simp), hargument,
    fun h x hx => ?_, fun _ _ _ _ _ hgo => ?_,
    fun nArgs nResults _ _ h => absurd h (hpcall nArgs nResults),
    fun nArgs nResults _ _ _ h => absurd h (hpcall nArgs nResults)⟩
  · rw [hfirst h] at hx
    cases hx
  · rw [hcall] at hgo
    cases hgo

end Front

theorem next_orderly {c₀ c c' : Config Nat Unit} {log : List (Config Nat Unit × Action Nat)}
    {act : Action Nat} (h : Run (Step demo) c₀ log c ∧ Meets (Orderly demo) log)
    (hstep : Step demo c act c') (ok : Orderly demo c act) :
    Run (Step demo) c₀ (log ++ [(c, act)]) c' ∧ Meets (Orderly demo) (log ++ [(c, act)]) :=
  ⟨h.1.next hstep, meets_snoc.mpr ⟨h.2, ok⟩⟩

/-- One call is made as a whole between two steps of another one. -/
theorem atomic_of_orderly_nested : ∃ log c, Run (Step demo) demoConfig log c ∧
    events log = [.begin 0 (.getGlobal "a"), .begin 1 (.getGlobal "b"),
      .finish 1 (.ok [LuaState.luaString "b"]), .finish 0 (.ok [LuaState.luaString "a"])] ∧
    (∃ log' A, Run (SerialStep demo) ⟨[], (), fun _ => none⟩ log' A ∧ A.heap = c.heap ∧
      A.stack = [] ∧ serialEvents log' = events log) ∧ c.stack = [] := by
  have run₁ := next_orderly ⟨.start, meets_nil _⟩ (.begin (by simp [demoConfig]) :
    Step demo demoConfig (.begin 0 (.getGlobal "a")) _) trivial
  have run₂ := next_orderly run₁ (.run (show _ = [] ++ _ :: _ from rfl) rfl (exec_demo _ _))
    (orderly_getGlobal rfl rfl (by decide) rfl (by intro; rfl) (by trivial) (by nofun))
  have run₃ := next_orderly run₂ (.begin (by decide) : Step demo _ (.begin 1 (.getGlobal "b")) _)
    trivial
  have run₄ := next_orderly run₃ (.run (show _ = [] ++ _ :: _ from rfl) rfl (exec_demo _ _))
    (orderly_getGlobal rfl rfl (by decide) rfl (by intro; rfl) (by trivial) (by nofun))
  have run₅ := next_orderly run₄ (.run (show _ = [] ++ _ :: _ from rfl) rfl rfl)
    (orderly_getGlobal rfl rfl (by decide) rfl (by nofun) (by trivial) (by nofun))
  have run₆ := next_orderly run₅ (.run (show _ = [] ++ _ :: _ from rfl) rfl rfl)
    (orderly_getGlobal rfl rfl (by decide) rfl (by nofun) (by trivial) (by nofun))
  have run₇ := next_orderly run₆ (.finish (show _ = [] ++ _ :: _ from rfl) rfl) trivial
  have run₈ := next_orderly run₇ (.run (show _ = [] ++ _ :: _ from rfl) rfl rfl)
    (orderly_getGlobal rfl rfl (by decide) rfl (by nofun) (by trivial) (by nofun))
  have run₉ := next_orderly run₈ (.run (show _ = [] ++ _ :: _ from rfl) rfl rfl)
    (orderly_getGlobal rfl rfl (by decide) rfl (by nofun) (by trivial) (by nofun))
  have run₁₀ := next_orderly run₉ (.finish (show _ = [] ++ _ :: _ from rfl) rfl) trivial
  obtain ⟨hserial, hstack⟩ := atomic_of_orderly run₁₀.1 rfl run₁₀.2
  exact ⟨_, _, run₁₀.1, rfl, hserial, hstack rfl⟩

end JLua.Atomicity
