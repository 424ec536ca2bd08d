import JLua.UserdataHeap
import JLua.Stack

/-!
# Reading and writing tables through metatables

`luaV_gettable` and `luaV_settable` look for a primitive entry first and go from handler to
handler otherwise. They end with a value, in a handler that is a function, or in an error.
-/

namespace JLua.Metatables

open BinaryFloat
set_option autoImplicit false

universe u
variable {τ : Type u}

inductive Event where
  | index
  | newindex
  deriving DecidableEq, Repr

/-- What the virtual machine does with the state of a Lua universe. `gettmbyobj` finds the
handler of a table or of any other value, or nil. -/
structure Vm (τ : Type u) where
  globals : τ → Value
  rawget : τ → Nat → Value → Value
  rawset : τ → Nat → Value → Value → τ
  gettmbyobj : τ → Value → Event → Value
  newtable : τ → Nat × τ
  call : Call τ

/-- The result of an access: a value or an error, or none when it does not come back. -/
abbrev Access (τ : Type u) := Option (Except Value Value × τ)

def MAXTAGLOOP : Nat := 100

/-- How one round of the loop ends: the entry is there, no handler is, a function is called, or
the loop goes on with the handler. -/
inductive Round (τ : Type u) where
  | done (v : Value) (s : τ)
  | error (message : String)
  | call (f : Value)
  | again (tm : Value)

def Round.ofHandler : Value → Round τ
  | .function a => .call (.function a)
  | tm => .again tm

/-- `luaG_typeerror` for a value that has no name. -/
def typeerror (t : Value) : Round τ :=
  .error ("attempt to index a " ++ UserdataHeap.State.typename (some t) ++ " value")

def getRound (V : Vm τ) (s : τ) (key : Value) (t : Value) : Round τ :=
  let tm := V.gettmbyobj s t .index
  match t with
  | .table h =>
    let res := V.rawget s h key
    if res ≠ .nil ∨ tm = .nil then .done res s else .ofHandler tm
  | _ => if tm = .nil then typeerror t else .ofHandler tm

/-- `luaH_set` raises an error before any handler is looked for. -/
def setRound (V : Vm τ) (s : τ) (key val : Value) (t : Value) : Round τ :=
  let tm := V.gettmbyobj s t .newindex
  match t with
  | .table h =>
    if key = .nil then .error "table index is nil"
    else if key = .number .nan then .error "table index is NaN"
    else if V.rawget s h key ≠ .nil ∨ tm = .nil then .done .nil (V.rawset s h key val)
    else .ofHandler tm
  | _ => if tm = .nil then typeerror t else .ofHandler tm

def tagLoop (overrun : String) (round : Value → Round τ) (callTM : Value → Value → Access τ)
    (s : τ) : Nat → Value → Access τ
  | 0, _ => some (.error (.ofString overrun), s)
  | loop + 1, t =>
    match round t with
    | .done v s' => some (.ok v, s')
    | .error message => some (.error (.ofString message), s)
    | .call f => callTM f t
    | .again tm => tagLoop overrun round callTM s loop tm

/-- `callTMres`, and `callTM` when no result is wanted. -/
def callTM (V : Vm τ) (f : Value) (args : List Value) (s : τ) : Access τ :=
  (V.call f args s).map fun r => (r.1.map fun vs => vs.headD .nil, r.2)

def luaVGettable (V : Vm τ) (t key : Value) (s : τ) : Access τ :=
  tagLoop "loop in gettable" (getRound V s key) (fun f t => callTM V f [t, key] s) s MAXTAGLOOP t

def luaVSettable (V : Vm τ) (t key val : Value) (s : τ) : Access τ :=
  tagLoop "loop in settable" (setRound V s key val) (fun f t => callTM V f [t, key, val] s) s
    MAXTAGLOOP t

/-! ### The accesses that raise an error -/

/-- The access raises within so many rounds: no handler, a handler that raises, or none of the
handlers the last one. -/
inductive Fails (round : Value → Round τ) (raises : Value → Value → Prop) : Nat → Value → Prop where
  | overrun (t : Value) : Fails round raises 0 t
  | error {n : Nat} {t : Value} {message : String} (h : round t = .error message) :
      Fails round raises (n + 1) t
  | call {n : Nat} {t f : Value} (h : round t = .call f) (hf : raises f t) :
      Fails round raises (n + 1) t
  | again {n : Nat} {t tm : Value} (h : round t = .again tm) (htm : Fails round raises n tm) :
      Fails round raises (n + 1) t

def Raises (a : Access τ) : Prop := ∃ e s, a = some (.error e, s)

def CallRaises (V : Vm τ) (s : τ) (f : Value) (args : List Value) : Prop :=
  ∃ e s', V.call f args s = some (.error e, s')

def IndexFails (V : Vm τ) (s : τ) (t key : Value) : Prop :=
  Fails (getRound V s key) (fun f t => CallRaises V s f [t, key]) MAXTAGLOOP t

def NewindexFails (V : Vm τ) (s : τ) (t key val : Value) : Prop :=
  Fails (setRound V s key val) (fun f t => CallRaises V s f [t, key, val]) MAXTAGLOOP t

@[simp] theorem raises_error (e : Value) (s : τ) : Raises (some (.error e, s)) := ⟨e, s, rfl⟩

@[simp] theorem not_raises_ok (v : Value) (s : τ) : ¬ Raises (some (.ok v, s)) := by
  simp [Raises]

theorem raises_callTM_iff {V : Vm τ} {s : τ} {f : Value} {args : List Value} :
    Raises (callTM V f args s) ↔ CallRaises V s f args := by
  unfold Raises callTM CallRaises
  cases h : V.call f args s with
  | none => simp
  | some r =>
    obtain ⟨result, s'⟩ := r
    cases result <;> simp [Except.map]

theorem raises_tagLoop_iff {overrun : String} {round : Value → Round τ}
    {callTM : Value → Value → Access τ} {s : τ} (n : Nat) (t : Value) :
    Raises (tagLoop overrun round callTM s n t) ↔
      Fails round (fun f t => Raises (callTM f t)) n t := by
  induction n generalizing t with
  | zero => exact iff_of_true (raises_error _ _) (.overrun t)
  | succ n ih =>
    cases hround : round t with
    | done v s' =>
      simp only [tagLoop, hround, not_raises_ok, false_iff]
      intro h
      cases h with
      | error h | call h | again h => rw [hround] at h; cases h
    | error message =>
      simp only [tagLoop, hround, raises_error, true_iff]
      exact .error hround
    | call f =>
      simp only [tagLoop, hround]
      refine ⟨fun h => .call hround h, fun h => ?_⟩
      cases h with
      | call h hf => rw [hround] at h; cases h; exact hf
      | error h | again h => rw [hround] at h; cases h
    | again tm =>
      simp only [tagLoop, hround]
      refine ⟨fun h => .again hround ((ih tm).mp h), fun h => ?_⟩
      cases h with
      | again h htm => rw [hround] at h; cases h; exact (ih tm).mpr htm
      | error h | call h => rw [hround] at h; cases h

theorem raises_luaVGettable_iff (V : Vm τ) (s : τ) (t key : Value) :
    Raises (luaVGettable V t key s) ↔ IndexFails V s t key := by
  simp only [luaVGettable, raises_tagLoop_iff, raises_callTM_iff]
  rfl

theorem raises_luaVSettable_iff (V : Vm τ) (s : τ) (t key val : Value) :
    Raises (luaVSettable V t key val s) ↔ NewindexFails V s t key val := by
  simp only [luaVSettable, raises_tagLoop_iff, raises_callTM_iff]
  rfl

/-! ### What an access changes -/

theorem ofHandler_ne_done (tm v : Value) (s : τ) : Round.ofHandler tm ≠ .done v s := by
  cases tm <;> nofun

theorem getRound_done {V : Vm τ} {s s' : τ} {key t v : Value}
    (h : getRound V s key t = .done v s') : s' = s := by
  cases t with
  | table a =>
    simp only [getRound] at h
    split at h
    · cases h
      rfl
    · exact absurd h (ofHandler_ne_done _ _ _)
  | _ =>
    simp only [getRound] at h
    split at h
    · cases h
    · exact absurd h (ofHandler_ne_done _ _ _)

theorem tagLoop_keeps {P : τ → Prop} {overrun : String} {round : Value → Round τ}
    {callTM : Value → Value → Access τ} {s s' : τ} {r : Except Value Value}
    (hround : ∀ t v s', round t = .done v s' → P s')
    (hcall : ∀ f t r s', callTM f t = some (r, s') → P s') (hs : P s) (n : Nat) (t : Value)
    (h : tagLoop overrun round callTM s n t = some (r, s')) : P s' := by
  induction n generalizing t with
  | zero =>
    cases h
    exact hs
  | succ n ih =>
    cases hr : round t with
    | done v s₁ =>
      simp only [tagLoop, hr] at h
      cases h
      exact hround t v s' hr
    | error message =>
      simp only [tagLoop, hr] at h
      cases h
      exact hs
    | call f =>
      simp only [tagLoop, hr] at h
      exact hcall f t r s' h
    | again tm =>
      simp only [tagLoop, hr] at h
      exact ih tm h

/-- Reading changes no more than the functions do that it calls. -/
theorem luaVGettable_keeps {V : Vm τ} {P : τ → Prop}
    (hcall : ∀ f vs s r s', V.call f vs s = some (r, s') → P s → P s') {t key : Value} {s s' : τ}
    {r : Except Value Value} (h : luaVGettable V t key s = some (r, s')) (hs : P s) : P s' := by
  refine tagLoop_keeps (fun t v s₁ hround => ?_) (fun f t r s₁ hcallTM => ?_) hs _ _ h
  · rw [getRound_done hround]
    exact hs
  · obtain ⟨⟨result, s₂⟩, hresult, hpair⟩ := Option.map_eq_some_iff.mp hcallTM
    cases hpair
    exact hcall _ _ _ _ _ hresult hs

end JLua.Metatables
