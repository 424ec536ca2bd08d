import JLua.Stack

/-!
# `jlua.try`

The implementation keeps no record of the pending error: it is what stands on top of the
arguments, and the arguments are read again at their absolute indices.
-/

namespace JLua.TryBlock

set_option autoImplicit false

universe u
variable {σ : Type u}

/-- The second protected call, made when the first one failed and slot 2 holds a function. -/
def catchBlock (call : Call σ) : Int × Stack × σ → Option (Int × Stack × σ)
  | (err, L, s) =>
    if err ≠ 0 ∧ luaIsfunction L 2 then luaPcall call (luaInsert (luaPushvalue L 2) (-2)) 1 0 s
    else some (err, L, s)

/-- The third protected call; its error is dropped when another one is pending. -/
def finallyBlock (call : Call σ) : Int × Stack × σ → Option (Int × Stack × σ)
  | (err, L, s) =>
    if luaIsfunction L 3 then
      (luaPcall call (luaPushvalue L 3) 0 0 s).map fun (errF, L, s) =>
        if errF ≠ 0 then
          if err ≠ 0 then (err, luaPop L 1, s) else (errF, L, s)
        else (err, L, s)
    else some (err, L, s)

def endTry : Int × Stack × σ → Result × σ
  | (err, L, s) => (if err ≠ 0 then luaError L else .ok [], s)

def threeExpected : String :=
  "Invalid Argument types. Expected (function(), function(e), function()) or " ++
    "(function(), nil, function())."

def checkArgs (L : Stack) : Option String :=
  let args := luaGettop L
  if args < 1 ∨ 3 < args then some "Error. Function try expects 1, 2 or 3 arguments."
  else if args = 1 ∧ !luaIsfunction L 1 then
    some "Invalid Argument types. Expected (function())."
  else if args = 2 ∧ (!luaIsfunction L 1 || !luaIsfunction L 2) then
    some "Invalid Argument types. Expected (function(), function(e))."
  else if args = 3 ∧ (!luaIsfunction L 1 || !luaIsfunction L 3 ||
      !(luaIsnil L 2 || luaIsfunction L 2)) then
    some threeExpected
  else none

def tryBlock (call : Call σ) (L : Stack) (s : σ) : Option (Result × σ) :=
  match checkArgs L with
  | some message => some (luaLError L message, s)
  | none => do
    let frame ← luaPcall call (luaPushvalue L 1) 0 0 s
    let frame ← catchBlock call frame
    let frame ← finallyBlock call frame
    pure (endTry frame)

/-- What an execution of a try statement leaves behind: the functions it invoked, with their
arguments, and the error that is pending in the end. -/
structure Outcome (σ : Type u) where
  calls : List (Value × List Value)
  pending : Option Value
  world : σ

/-- The finally part: its error counts only if no other one is pending. -/
def runFinally (call : Call σ) (g : Value) (calls : List (Value × List Value))
    (pending : Option Value) (s : σ) : Option (Outcome σ) :=
  (call g [] s).map fun r => ⟨calls ++ [(g, [])], pending.or (raised r.1), r.2⟩

/-- The statement `try f catch c finally g`, where `c` may be nil. -/
def tryCatchFinally (call : Call σ) (f c g : Value) (s : σ) : Option (Outcome σ) := do
  let (r, s) ← call f [] s
  match raised r with
  | none => runFinally call g [(f, [])] none s
  | some e =>
    if c = .nil then runFinally call g [(f, [])] (some e) s
    else
      let (r, s) ← call c [e] s
      runFinally call g [(f, []), (c, [e])] (raised r) s

structure Accepted (f c g : Value) : Prop where
  tryFunction : f.type = .function
  catchFunction : c = .nil ∨ c.type = .function
  finallyFunction : g.type = .function

@[simp] theorem luaType_slot1 (v : Value) (L : Stack) : luaType (v :: L) 1 = v.type := rfl

@[simp] theorem luaType_slot2 (v w : Value) (L : Stack) : luaType (v :: w :: L) 2 = w.type := rfl

@[simp] theorem luaType_slot3 (v w x : Value) (L : Stack) :
    luaType (v :: w :: x :: L) 3 = x.type := rfl

theorem checkArgs_three {f c g : Value} (h : Accepted f c g) : checkArgs [f, c, g] = none := by
  obtain ⟨hf, rfl | hc, hg⟩ := h
  · simp [checkArgs, luaGettop, luaIsfunction, luaIsnil, hf, hg]
  · simp [checkArgs, luaGettop, luaIsfunction, hf, hc, hg]

/-- Between its protected calls `tryBlock` keeps the arguments `A`, with the pending error on
top. -/
def pendingFrame (A : Stack) (pending : Option Value) (s : σ) : Int × Stack × σ :=
  (if pending.isSome then LUA_ERRRUN else 0, A ++ pending.toList, s)

theorem luaPcall_pendingFrame (call : Call σ) (A : Stack) (f : Value) (args : List Value)
    (s : σ) : luaPcall call (A ++ f :: args) args.length 0 s =
      (call f args s).map fun r => pendingFrame A (raised r.1) r.2 := by
  rw [luaPcall_append]
  congr 1
  funext r
  rcases r with ⟨_ | _, s⟩ <;> simp [pendingFrame, status, raised, returned]

theorem catchBlock_none (call : Call σ) (A : Stack) (s : σ) :
    catchBlock call (pendingFrame A none s) = some (pendingFrame A none s) := by
  simp [catchBlock, pendingFrame]

theorem catchBlock_skip (call : Call σ) {A : Stack} {e : Value} (s : σ)
    (h : luaType (A ++ [e]) 2 ≠ .function) :
    catchBlock call (pendingFrame A (some e) s) = some (pendingFrame A (some e) s) := by
  simp [catchBlock, pendingFrame, luaIsfunction, h]

theorem catchBlock_call (call : Call σ) {A : Stack} {e c : Value} (s : σ)
    (hslot : (A ++ [e])[1]? = some c) (hc : c.type = .function) :
    catchBlock call (pendingFrame A (some e) s) =
      (call c [e] s).map fun r => pendingFrame A (raised r.1) r.2 := by
  have hindex : index2adr (A ++ [e]) 2 = some c := hslot
  have htype : luaIsfunction (A ++ [e]) 2 = true := by
    simp [luaIsfunction, luaType, hindex, hc]
  have hpush : luaInsert (luaPushvalue (A ++ [e]) 2) (-2) = A ++ c :: [e] := by
    simp [luaInsert, luaPushvalue, hindex, absIndex, insertIdx_length_append]
  have hblock : catchBlock call (pendingFrame A (some e) s) =
      luaPcall call (A ++ c :: [e]) 1 0 s := by
    simp [catchBlock, pendingFrame, htype, hpush, LUA_ERRRUN]
  rw [hblock]
  exact luaPcall_pendingFrame call A c [e] s

theorem finallyBlock_call (call : Call σ) {A : Stack} (pending : Option Value) {g : Value}
    (s : σ) (hslot : (A ++ pending.toList)[2]? = some g) (hg : g.type = .function) :
    finallyBlock call (pendingFrame A pending s) =
      (call g [] s).map fun r => pendingFrame A (pending.or (raised r.1)) r.2 := by
  have hindex : index2adr (A ++ pending.toList) 3 = some g := hslot
  have htype : luaIsfunction (A ++ pending.toList) 3 = true := by
    simp [luaIsfunction, luaType, hindex, hg]
  have hpush : luaPushvalue (A ++ pending.toList) 3 = (A ++ pending.toList) ++ [g] := by
    simp [luaPushvalue, hindex]
  have hpcall := luaPcall_pendingFrame call (A ++ pending.toList) g [] s
  simp only [List.length_nil] at hpcall
  simp only [finallyBlock, pendingFrame, htype, hpush, hpcall, if_true, Option.map_map]
  congr 1
  funext r
  rcases r with ⟨_ | e, s⟩ <;> cases pending <;>
    simp [raised, LUA_ERRRUN, luaPop, List.take_length_add_append]

theorem finallyBlock_skip (call : Call σ) {A : Stack} (pending : Option Value) (s : σ)
    (h : luaType (A ++ pending.toList) 3 ≠ .function) :
    finallyBlock call (pendingFrame A pending s) = some (pendingFrame A pending s) := by
  simp [finallyBlock, pendingFrame, luaIsfunction, h]

def resultOf (pending : Option Value) : Result := pending.elim (.ok []) .error

@[simp] theorem endTry_pendingFrame (A : Stack) (pending : Option Value) (s : σ) :
    endTry (pendingFrame A pending s) = (resultOf pending, s) := by
  cases pending <;> simp [endTry, pendingFrame, resultOf, luaError, LUA_ERRRUN]

theorem tryBlock_eq (call : Call σ) {A : Stack} {f : Value} (hA : checkArgs A = none)
    (hslot : A[0]? = some f) (s : σ) :
    tryBlock call A s = (call f [] s).bind fun r =>
      (catchBlock call (pendingFrame A (raised r.1) r.2)).bind fun frame =>
        (finallyBlock call frame).map endTry := by
  have hindex : index2adr A 1 = some f := hslot
  have hpush : luaPushvalue A 1 = A ++ [f] := by simp [luaPushvalue, hindex]
  have hpcall := luaPcall_pendingFrame call A f [] s
  simp only [List.length_nil] at hpcall
  cases h : call f [] s <;> simp [tryBlock, hA, hpush, hpcall, h, Option.map_eq_bind]

theorem finallyBlock_three (call : Call σ) {f c g : Value} (hg : g.type = .function)
    (pending : Option Value) (s : σ) :
    (finallyBlock call (pendingFrame [f, c, g] pending s)).map endTry =
      (call g [] s).map fun r => (resultOf (pending.or (raised r.1)), r.2) := by
  rw [finallyBlock_call call pending s rfl hg]
  simp [Function.comp_def]

theorem tryBlock_three (call : Call σ) {f c g : Value} (h : Accepted f c g) (s : σ) :
    tryBlock call [f, c, g] s =
      (tryCatchFinally call f c g s).map fun o => (resultOf o.pending, o.world) := by
  rw [tryBlock_eq call (checkArgs_three h) rfl, tryCatchFinally]
  cases call f [] s with
  | none => rfl
  | some r =>
    obtain ⟨r, s⟩ := r
    cases hr : raised r with
    | none =>
      simp [hr, catchBlock_none, finallyBlock_three call h.finallyFunction, runFinally,
        Function.comp_def]
    | some e =>
      rcases h.catchFunction with rfl | hc
      · have hskip := catchBlock_skip call (A := [f, .nil, g]) (e := e) s (by simp)
        simp [hr, hskip, finallyBlock_three call h.finallyFunction, runFinally, Function.comp_def]
      · have hcall := catchBlock_call call (A := [f, c, g]) (e := e) s rfl hc
        have hne : c ≠ .nil := by
          rintro rfl
          simp at hc
        simp [hr, hcall, hne]
        cases call c [e] s with
        | none => rfl
        | some r' =>
          simp [finallyBlock_three call h.finallyFunction, runFinally, Function.comp_def]

theorem tryCatchFinally_logged (call : Call σ) (f c g : Value) (log : List (Value × List Value))
    (s : σ) : tryCatchFinally (logged call) f c g (log, s) =
      (tryCatchFinally call f c g s).map fun o =>
        ⟨o.calls, o.pending, (log ++ o.calls, o.world)⟩ := by
  have hfinally : ∀ calls pending s, runFinally (logged call) g calls pending (log ++ calls, s) =
      (runFinally call g calls pending s).map fun o =>
        ⟨o.calls, o.pending, (log ++ o.calls, o.world)⟩ := by
    intro calls pending s
    simp [runFinally, logged, Function.comp_def]
  simp only [tryCatchFinally]
  cases hf : call f [] s with
  | none => simp [logged, hf]
  | some r =>
    obtain ⟨r, s⟩ := r
    cases hr : raised r with
    | none => simp [logged, hf, hr, ← hfinally]
    | some e =>
      by_cases hc : c = .nil
      · simp [logged, hf, hr, hc, ← hfinally]
      · cases hcall : call c [e] s with
        | none => simp [logged, hf, hr, hc, hcall]
        | some r' => simp [logged, hf, hr, hc, hcall, ← hfinally]

/-- What a function of a script does: it changes the world, calls functions and executes
`jlua.try`, in any order, and ends with a result that depends on all of that. -/
inductive Body (σ : Type u) where
  | done (r : Result)
  | act (change : σ → σ) (k : σ → Body σ)
  | call (f : Value) (args : List Value) (k : Result → Body σ)
  | tryBlock (args : List Value) (k : Result → Body σ)

/-- What `jlua.try` is: given how functions are called, arguments and world to a result. -/
abbrev TryFunction (σ : Type u) := Call σ → List Value → σ → Option (Result × σ)

def runBody (jluaTry : TryFunction σ) (call : Call σ) : Body σ → σ → Option (Result × σ)
  | .done r, s => some (r, s)
  | .act change k, s => runBody jluaTry call (k s) (change s)
  | .call f args k, s => (call f args s).bind fun r => runBody jluaTry call (k r.1) r.2
  | .tryBlock args k, s => (jluaTry call args s).bind fun r => runBody jluaTry call (k r.1) r.2

/-- Calls nested no deeper than `n`, those that `jlua.try` makes included. -/
def callAt (jluaTry : TryFunction σ) (program : Value → List Value → Body σ) : Nat → Call σ
  | 0 => fun _ _ _ => none
  | n + 1 => fun f args s => runBody jluaTry (callAt jluaTry program n) (program f args) s

instance (f c g : Value) : Decidable (Accepted f c g) :=
  decidable_of_iff (f.type = .function ∧ (c = .nil ∨ c.type = .function) ∧ g.type = .function)
    ⟨fun ⟨h₁, h₂, h₃⟩ => ⟨h₁, h₂, h₃⟩, fun h => ⟨h.1, h.2, h.3⟩⟩

/-- `jlua.try` with the statement in place of the protected calls, on three accepted
arguments. -/
def reference : TryFunction σ := fun call L s =>
  match L with
  | [f, c, g] =>
    if Accepted f c g then
      (tryCatchFinally call f c g s).map fun o => (resultOf o.pending, o.world)
    else tryBlock call L s
  | L => tryBlock call L s

theorem tryBlock_eq_reference : @tryBlock σ = reference := by
  funext call L s
  unfold reference
  split
  · split
    · exact tryBlock_three call ‹_› s
    · rfl
  · rfl

theorem callAt_tryBlock (program : Value → List Value → Body σ) (n : Nat) :
    callAt tryBlock program n = callAt reference program n := by
  rw [tryBlock_eq_reference]

/-- `jlua.try` with three arguments is the try statement: it invokes the same functions on the
same arguments in the same order, leaves the same world and ends with the pending error. So
nothing in a script can tell them apart, however deep it nests them. -/
theorem tryBlock_refines_tryCatchFinally :
    (∀ (call : Call σ) {f c g : Value}, Accepted f c g →
      ∀ (log : List (Value × List Value)) (s : σ), tryBlock (logged call) [f, c, g] (log, s) =
        (tryCatchFinally call f c g s).map fun o =>
          (resultOf o.pending, (log ++ o.calls, o.world))) ∧
    ∀ (program : Value → List Value → Body σ) (n : Nat),
      callAt tryBlock program n = callAt reference program n := by
  refine ⟨fun call f c g h log s => ?_, callAt_tryBlock⟩
  rw [tryBlock_three (logged call) h, tryCatchFinally_logged]
  simp [Function.comp_def]

/-- Function 0 raises false, function 1 what it is given, function 2 nil. -/
def demoCall : Call Unit
  | .function 0, _, s => some (.error (.boolean false), s)
  | .function 1, args, s => some (.error (args.headD .nil), s)
  | .function 2, _, s => some (.error .nil, s)
  | _, _, s => some (.ok [], s)

theorem tryBlock_refines_tryCatchFinally_demo :
    tryBlock (logged demoCall) [.function 0, .function 1, .function 2] ([], ()) =
      some (.error (.boolean false), ([(.function 0, []), (.function 1, [.boolean false]),
        (.function 2, [])], ())) :=
  tryBlock_refines_tryCatchFinally.1 demoCall (f := .function 0) (c := .function 1)
    (g := .function 2) (by decide) [] ()

/-- The statement without a finally part, for one argument or two. -/
def tryCatch (call : Call σ) (f : Value) (c : Option Value) (s : σ) : Option (Outcome σ) := do
  let (r, s) ← call f [] s
  match raised r, c with
  | some e, some c => (call c [e] s).map fun r => ⟨[(f, []), (c, [e])], raised r.1, r.2⟩
  | pending, _ => pure ⟨[(f, [])], pending, s⟩

/-- `jlua.try` invokes its own arguments only, and ends with the value raised last. -/
def OwnCallsOnly (call : Call σ) (f : Value) (c : Option Value) (s : σ) : Prop :=
  tryBlock (logged call) (f :: c.toList) ([], s) =
    (tryCatch call f c s).map fun o => (resultOf o.pending, (o.calls, o.world))

/-- The value raised last is a function: that of try without a catch function, else that of
catch. -/
def RaisesFunction (call : Call σ) (f : Value) : Option Value → σ → Prop
  | none, s => ∃ e s', call f [] s = some (.error e, s') ∧ e.type = .function
  | some c, s => ∃ e s₁ e' s₂, call f [] s = some (.error e, s₁) ∧
      call c [e] s₁ = some (.error e', s₂) ∧ e'.type = .function

theorem checkArgs_one {f : Value} (hf : f.type = .function) : checkArgs [f] = none := by
  simp [checkArgs, luaGettop, luaIsfunction, hf]

theorem checkArgs_two {f c : Value} (hf : f.type = .function) (hc : c.type = .function) :
    checkArgs [f, c] = none := by
  simp [checkArgs, luaGettop, luaIsfunction, hf, hc]

/-- Without a third argument and with at most one value above them, slot 3 is empty. -/
theorem finallyBlock_empty (call : Call σ) {A : Stack} {pending : Option Value} (s : σ)
    (h : (A ++ pending.toList).length < 3) :
    (finallyBlock call (pendingFrame A pending s)).map endTry = some (resultOf pending, s) := by
  have htype : luaType (A ++ pending.toList) 3 ≠ .function := by
    have hindex : index2adr (A ++ pending.toList) 3 = none :=
      List.getElem?_eq_none (Nat.le_of_lt_succ h)
    simp [luaType, hindex]
  simp [finallyBlock_skip call pending s htype]

/-- With one argument, a function that try raises is taken for the catch function. -/
theorem ownCallsOnly_one (call : Call σ) (s : σ) {f : Value} (hf : f.type = .function) :
    OwnCallsOnly call f none s ↔ ¬ RaisesFunction call f none s := by
  have hempty : ∀ pending (s : List (Value × List Value) × σ),
      (finallyBlock (logged call) (pendingFrame [f] pending s)).map endTry =
        some (resultOf pending, s) :=
    fun pending s => finallyBlock_empty _ s (by cases pending <;> simp)
  unfold OwnCallsOnly RaisesFunction
  rw [Option.toList_none, tryBlock_eq (logged call) (checkArgs_one hf) rfl]
  cases hcall : call f [] s with
  | none => simp [logged, tryCatch, hcall]
  | some r =>
    obtain ⟨e | vs, s₁⟩ := r
    · by_cases he : e.type = .function
      · have hcatch := catchBlock_call (logged call) (A := [f]) (e := e) ([(f, [])], s₁) rfl he
        cases hcall₂ : call e [e] s₁ <;>
          simp [logged, tryCatch, hcall, hcall₂, raised, hcatch, he, hempty]
      · have hskip := catchBlock_skip (logged call) (A := [f]) (e := e) ([(f, [])], s₁) he
        simp [logged, tryCatch, hcall, raised, hskip, he, hempty]
    · simp [logged, tryCatch, hcall, raised, catchBlock_none, hempty]

/-- With two arguments, a function that catch raises is taken for the finally function. -/
theorem ownCallsOnly_two (call : Call σ) (s : σ) {f c : Value} (hf : f.type = .function)
    (hc : c.type = .function) :
    OwnCallsOnly call f (some c) s ↔ ¬ RaisesFunction call f (some c) s := by
  unfold OwnCallsOnly RaisesFunction
  rw [Option.toList_some, tryBlock_eq (logged call) (checkArgs_two hf hc) rfl]
  have hreturned : ∀ s : List (Value × List Value) × σ,
      (finallyBlock (logged call) (pendingFrame [f, c] none s)).map endTry =
        some (resultOf none, s) := fun s => finallyBlock_empty _ s (by simp)
  cases hcall : call f [] s with
  | none => simp [logged, tryCatch, hcall]
  | some r =>
    obtain ⟨e | vs, s₁⟩ := r
    · have hcatch := catchBlock_call (logged call) (A := [f, c]) (e := e) ([(f, [])], s₁) rfl hc
      cases hcall₂ : call c [e] s₁ with
      | none => simp [logged, tryCatch, hcall, hcall₂, raised, hcatch]
      | some r =>
        obtain ⟨e' | vs, s₂⟩ := r
        · by_cases he : e'.type = .function
          · have hfinally := finallyBlock_call (logged call) (A := [f, c]) (some e')
              ([(f, []), (c, [e])], s₂) rfl he
            cases hcall₃ : call e' [] s₂ <;>
              simp [logged, tryCatch, hcall, hcall₂, hcall₃, raised, hcatch, hfinally, he]
          · have hskip := finallyBlock_skip (logged call) (A := [f, c]) (some e')
              ([(f, []), (c, [e])], s₂) he
            simp [logged, tryCatch, hcall, hcall₂, raised, hcatch, hskip, he]
        · simp [logged, tryCatch, hcall, hcall₂, raised, hcatch, hreturned]
    · simp [logged, tryCatch, hcall, raised, catchBlock_none, hreturned]

/-- Without a finally argument `jlua.try` keeps to its own arguments exactly if the value
raised last is not a function. -/
theorem ownCallsOnly_iff (call : Call σ) (s : σ) {f : Value} (hf : f.type = .function)
    {c : Option Value} (hc : ∀ v ∈ c, v.type = .function) :
    OwnCallsOnly call f c s ↔ ¬ RaisesFunction call f c s := by
  cases c with
  | none => exact ownCallsOnly_one call s hf
  | some c => exact ownCallsOnly_two call s hf (hc c rfl)

theorem ownCallsOnly_iff_demo :
    OwnCallsOnly demoCall (.function 0) (some (.function 1)) () := by
  refine (ownCallsOnly_iff demoCall () (f := .function 0) (c := some (.function 1)) rfl
    (by simp)).mpr ?_
  rintro ⟨e, s₁, e', s₂, h₁, h₂, he⟩
  obtain rfl : .boolean false = e := by simpa [demoCall] using congrArg (Option.map Prod.fst) h₁
  obtain rfl : .boolean false = e' := by simpa [demoCall] using congrArg (Option.map Prod.fst) h₂
  simp [Value.type] at he

/-- Function 3 raises function 4; every other call returns. -/
def raisingCall : Call Unit
  | .function 3, _, s => some (.error (.function 4), s)
  | _, _, s => some (.ok [], s)

/-- Function 4 is invoked as if it had been passed as catch, and when it returns the error has
vanished. -/
theorem tryBlock_calls_raised_function :
    tryBlock (logged raisingCall) [.function 3] ([], ()) =
      some (.ok [], ([(.function 3, []), (.function 4, [.function 4])], ())) ∧
    ¬ OwnCallsOnly raisingCall (.function 3) none () := by
  refine ⟨by decide, fun h => ?_⟩
  unfold OwnCallsOnly at h
  exact absurd h (by decide)

end JLua.TryBlock
