import JLua.StackRoom

/-!
# Room for the arguments of a call

`LuaObject.call` and `Lua.callFunctionEx` push the function and all arguments on the frame of the
C function below them and do not ask for more room. What they push finds free slots exactly under
a condition on the arguments and on what the function does.
-/

namespace JLua.CallRoom

open BinaryFloat Calls Conversion Delivery Gauge GlobalCalls OutcomeRules Pushing StackRoom
set_option autoImplicit false

variable {σ α β : Type} {env : Env σ} {w w' : World σ} {k : α → FramedCode σ β}
  {r : EStateM.Result Stop (World σ) β}

/-! ### The arguments -/

/-- What the native method for an object takes: a metatable is made for a new userdata. -/
def slotsFor (obj : Option JavaObject) : Nat := if held obj = [] then 2 else 4

/-- How many of the objects are pushed on this stack. -/
def own (peer : Nat) (args : List (Option JavaObject)) : Nat := args.countP (isOwn peer)

variable (env) in
/-- Every argument that is pushed finds room above those before it, of which none is denied. -/
def ArgumentsFit (args : List (Option JavaObject)) (peer depth limit : Nat) : Prop :=
  ∀ before obj after, args = before ++ obj :: after → Accepted env (before ++ [obj]) →
    isOwn peer obj → depth + own peer before + slotsFor obj ≤ limit

/-- An object that becomes a userdata is no object of another state. -/
theorem isOwn_of_held {obj : Option JavaObject} (h : held obj ≠ []) (peer : Nat) :
    isOwn peer obj = true := by
  cases obj with
  | none => rfl
  | some obj =>
    cases obj with
    | luaObject L ref => exact absurd rfl h
    | _ => rfl

variable (env) in
theorem runs_pushObjectValue (obj : Option JavaObject) (w : World σ) :
    Runs (StackRoom.pushObjectValue env obj) w (LuaState.pushObjectValue env obj w)
      (if denial env.host obj = none ∧ isOwn w.peer obj then w.stack.length + slotsFor obj
      else 0) := by
  have hrun := pushObjectValue_run env obj w
  have hlift := runs_lift (LuaState.pushObjectValue env obj) w
  unfold StackRoom.pushObjectValue
  cases hdenial : denial env.host obj with
  | some e =>
    rw [if_neg (by simp)]
    exact hlift
  | none =>
    rw [hdenial] at hrun
    by_cases hheld : held obj = []
    · have hpush : Runs (if isOwn w.peer obj then pushing (LuaState.pushObjectValue env obj)
          else lift (LuaState.pushObjectValue env obj)) w (LuaState.pushObjectValue env obj w)
          (if isOwn w.peer obj then w.stack.length + 2 else 0) := by
        split
        · refine runs_pushing _ fun w' h => ?_
          rw [hrun] at h
          cases h
          change (pushed w.lua obj).stack.length ≤ w.lua.stack.length + 2
          rw [stack_pushed, List.length_append]
          split <;> simp
        · exact hlift
      rw [slotsFor, if_pos hheld, hheld]
      simp only [true_and]
      exact hpush
    · obtain ⟨u, us, hcons⟩ := List.exists_cons_of_ne_nil hheld
      rw [if_pos ⟨rfl, isOwn_of_held hheld w.peer⟩, slotsFor, if_neg hheld, hcons]
      cases obj with
      | none => exact absurd rfl hheld
      | some obj => exact runs_native_lift (takes_pushProxy obj) _ w

theorem argumentsFit_cons {obj : Option JavaObject} {args : List (Option JavaObject)}
    {peer depth limit : Nat} : ArgumentsFit env (obj :: args) peer depth limit ↔
      (denial env.host obj = none → (isOwn peer obj → depth + slotsFor obj ≤ limit) ∧
        ArgumentsFit env args peer (depth + own peer [obj]) limit) := by
  have hown : ∀ before, own peer (obj :: before) = own peer [obj] + own peer before := by
    intro before
    rw [← List.singleton_append]
    exact List.countP_append
  constructor
  · intro h hdenial
    constructor
    · intro hobj
      exact h [] obj args rfl (by simpa [Accepted] using hdenial) hobj
    · intro before o after hargs haccepted hobj
      have hfits := h (obj :: before) o after (by rw [hargs]; rfl) ?_ hobj
      · rw [hown] at hfits
        omega
      · intro o' ho'
        rcases List.mem_cons.mp ho' with rfl | ho'
        · exact hdenial
        · exact haccepted o' ho'
  · intro h before o after hargs haccepted hobj
    cases before with
    | nil =>
      obtain ⟨rfl, rfl⟩ := List.cons.inj hargs
      exact (h (haccepted obj List.mem_cons_self)).1 hobj
    | cons o' before =>
      obtain ⟨rfl, rfl⟩ := List.cons.inj hargs
      obtain ⟨_, hrest⟩ := h (haccepted obj List.mem_cons_self)
      have hfits := hrest before o after rfl
        (fun o' ho' => haccepted o' (List.mem_cons_of_mem _ ho')) hobj
      rw [hown]
      omega

variable (env) in
theorem runs_pushAll (args : List (Option JavaObject)) (w : World σ) :
    ∃ n, Runs (pushAll env args) w (LuaObject.pushAll env args w) n ∧
      ∀ limit, n ≤ limit ↔ ArgumentsFit env args w.peer w.stack.length limit := by
  induction args generalizing w with
  | nil =>
    refine ⟨0, runs_pure () w, fun limit => iff_of_true (Nat.zero_le limit) ?_⟩
    intro before obj after hargs
    cases before <;> cases hargs
  | cons obj args ih =>
    have hrun := pushObjectValue_run env obj w
    have hobj := runs_pushObjectValue env obj w
    cases hdenial : denial env.host obj with
    | some e =>
      rw [hdenial] at hrun hobj
      rw [hrun, if_neg (by simp)] at hobj
      refine ⟨0, ?_, fun limit => ?_⟩
      · rw [LuaObject.pushAll, bind_of_error hrun]
        exact hobj.bind_error
      · refine iff_of_true (Nat.zero_le limit) (argumentsFit_cons.mpr fun haccepted => ?_)
        rw [hdenial] at haccepted
        cases haccepted
    | none =>
      rw [hdenial] at hrun hobj
      rw [hrun] at hobj
      simp only [true_and] at hobj
      obtain ⟨n, hrest, hfits⟩ := ih { w with lua := pushed w.lua obj }
      have hpeer : World.peer { w with lua := pushed w.lua obj } = w.peer := pushed_peer w.lua obj
      have hlength : (World.stack { w with lua := pushed w.lua obj }).length =
          w.stack.length + own w.peer [obj] := by
        change (pushed w.lua obj).stack.length = _
        rw [stack_pushed, List.length_append, own, List.countP_singleton]
        change _ = w.stack.length + if isOwn w.lua.peer obj = true then 1 else 0
        split <;> rfl
      rw [hpeer, hlength] at hfits
      refine ⟨max (if isOwn w.peer obj then w.stack.length + slotsFor obj else 0) n, ?_,
        fun limit => ?_⟩
      · rw [LuaObject.pushAll, bind_of_ok hrun]
        exact hobj.bind hrest
      · rw [argumentsFit_cons, Nat.max_le, hfits, hdenial]
        split
        · next hown => simp [hown]
        · next hown => simp [hown]

/-! ### The protected call -/

theorem runs_pcall_fixed {nArgs : Nat} {nResults : Int} {err : Int} {k : Int → FramedCode σ β}
    {m : Nat} (hne : nResults ≠ LUA_MULTRET)
    (hop : LuaState.pcall env nArgs nResults w = .ok err w') (hk : Runs (k err) w' r m) :
    Runs (pcall env nArgs nResults >>= k) w r
      (max (w.stack.length + 2) (max w'.stack.length m)) := by
  have hask := runs_asking (LuaState.pcall env nArgs nResults) w
  rw [hop] at hask
  have hadjust : Runs (adjustResults nResults : FramedCode σ Unit) w' (.ok () w')
      w'.stack.length := by
    rw [adjustResults, if_neg hne]
    exact runs_demand _ w'
  rw [pcall, bind_assoc]
  refine hask.bind ?_
  rw [bind_assoc]
  exact hadjust.bind hk

/-- Whatever the results take, the frame is extended by it. -/
theorem runsTo_pcall_multret {nArgs : Nat} {err : Int} {k : Int → FramedCode σ β} {m : Nat}
    (hop : LuaState.pcall env nArgs LUA_MULTRET w = .ok err w') (hk : Runs (k err) w' r m)
    (hm : m = 0 ∨ w'.stack.length < m) :
    RunsTo (pcall env nArgs LUA_MULTRET >>= k) w r (max (w.stack.length + 2) m) := by
  have hask := runs_asking (LuaState.pcall env nArgs LUA_MULTRET) w
  rw [hop] at hask
  have hrest : RunsTo (adjustResults LUA_MULTRET >>= fun _ => k err) w' r m := by
    intro limit b
    refine ⟨max limit w'.stack.length, ?_⟩
    have hadjust : (adjustResults LUA_MULTRET : FramedCode σ Unit) ⟨w', limit, b⟩ =
        .ok () ⟨w', max limit w'.stack.length, b⟩ := by
      rw [adjustResults, if_pos rfl]
      rfl
    rw [bind_of_ok hadjust, hk]
    have hsame : (max limit w'.stack.length < m) ↔ limit < m := by omega
    rw [decide_eq_decide.mpr hsame]
  rw [pcall, bind_assoc]
  refine hask.bind_to ?_
  rw [bind_assoc]
  exact hrest

theorem runsTo_pcall {nArgs : Nat} {nResults : Int} {err : Int} {k : Int → FramedCode σ β} {m : Nat}
    (hop : LuaState.pcall env nArgs nResults w = .ok err w') (hk : Runs (k err) w' r m)
    (hm : w'.stack.length < m) :
    RunsTo (pcall env nArgs nResults >>= k) w r (max (w.stack.length + 2) m) := by
  by_cases hmultret : nResults = LUA_MULTRET
  · subst hmultret
    exact runsTo_pcall_multret hop hk (.inr hm)
  · exact ((runs_pcall_fixed hmultret hop hk).of_eq (by omega)).runsTo

theorem runs_pcall_error {nArgs : Nat} {nResults : Int} {e : Stop} {k : Int → FramedCode σ β}
    (hop : LuaState.pcall env nArgs nResults w = .error e w') :
    Runs (pcall env nArgs nResults >>= k) w (.error e w') (w.stack.length + 2) := by
  have hask := runs_asking (LuaState.pcall env nArgs nResults) w
  rw [hop] at hask
  rw [pcall, bind_assoc]
  exact hask.bind_error

theorem own_add_foreign (peer : Nat) (args : List (Option JavaObject)) :
    own peer args + foreign peer args = args.length := by
  have hsplit := List.length_eq_countP_add_countP (isOwn peer) (l := args)
  rw [own, foreign, hsplit]
  simp

theorem length_prepared (f : Value) (args : List (Option JavaObject)) (w : World σ) :
    (prepared f args w).stack.length = w.stack.length + 1 + own w.peer args := by
  have hvalues := length_argumentValues f args w
  have hown := own_add_foreign w.peer args
  rw [stack_prepared, List.length_append, List.length_cons]
  omega

variable (env) in
/-- There is room for a call of the function above what is on the stack; `reached` is where the
code after the call reaches. -/
structure FunctionFits (f : Value) (args : List (Option JavaObject)) (w : World σ)
    (reached : Result → Heap σ → Nat) (limit : Nat) : Prop where
  arguments : ArgumentsFit env args w.peer (w.stack.length + 1) limit
  call : Accepted env args → w.stack.length + 1 + own w.peer args + 2 ≤ limit
  returned : Accepted env args → ∀ result h, outcome env f args w = some (result, h) →
    reached result h ≤ limit

section Outcomes
variable {f : Value} {args : List (Option JavaObject)} {reached : Result → Heap σ → Nat}
  {limit : Nat}

theorem functionFits_of_denied (hargs : ¬ Accepted env args) :
    FunctionFits env f args w reached limit ↔
      ArgumentsFit env args w.peer (w.stack.length + 1) limit := by
  constructor
  · exact fun h => h.arguments
  · exact fun h => ⟨h, fun hyes => absurd hyes hargs, fun hyes => absurd hyes hargs⟩

theorem functionFits_of_hangs (hargs : Accepted env args) (houtcome : outcome env f args w = none) :
    FunctionFits env f args w reached limit ↔
      ArgumentsFit env args w.peer (w.stack.length + 1) limit ∧
        (prepared f args w).stack.length + 2 ≤ limit := by
  rw [length_prepared]
  constructor
  · exact fun h => ⟨h.arguments, h.call hargs⟩
  · rintro ⟨harguments, hcall⟩
    refine ⟨harguments, fun _ => hcall, fun _ result h hsome => ?_⟩
    rw [houtcome] at hsome
    cases hsome

theorem functionFits_of_outcome {result : Result} {h : Heap σ} (hargs : Accepted env args)
    (houtcome : outcome env f args w = some (result, h)) :
    FunctionFits env f args w reached limit ↔
      ArgumentsFit env args w.peer (w.stack.length + 1) limit ∧
        (prepared f args w).stack.length + 2 ≤ limit ∧ reached result h ≤ limit := by
  rw [length_prepared]
  constructor
  · exact fun hfits => ⟨hfits.arguments, hfits.call hargs, hfits.returned hargs result h houtcome⟩
  · rintro ⟨harguments, hcall, hreturned⟩
    refine ⟨harguments, fun _ => hcall, fun _ result' h' hsome => ?_⟩
    rw [houtcome] at hsome
    cases hsome
    exact hreturned

end Outcomes

variable (env) in
/-- The arguments and the call, with what comes after it. -/
theorem runsTo_arguments (f : Value) (args : List (Option JavaObject)) (n : Int) (w : World σ)
    (k : Int → FramedCode σ β) (k' : Int → Code σ β) (reached : Result → Heap σ → Nat)
    (hk : ∀ result h, outcome env f args w = some (result, h) →
      RunsTo (pcall env args.length n >>= k) (prepared f args w)
        (k' (status result) (called f args n w result h))
        (max ((prepared f args w).stack.length + 2) (reached result h))) :
    ∃ m, RunsTo (do pushAll env args; pcall env args.length n >>= k) (w.setStack (w.stack ++ [f]))
        ((do LuaObject.pushAll env args; LuaState.pcall env args.length n >>= k' : Code σ β)
          (w.setStack (w.stack ++ [f]))) m ∧
      ∀ limit, m ≤ limit ↔ FunctionFits env f args w reached limit := by
  let w₁ := w.setStack (w.stack ++ [f])
  obtain ⟨m, hpush, hfits⟩ := runs_pushAll env args w₁
  have hlength : w₁.stack.length = w.stack.length + 1 := List.length_append
  rw [hlength] at hfits
  by_cases hargs : Accepted env args
  · have hprepared : LuaObject.pushAll env args w₁ = .ok () (prepared f args w) :=
      pushAll_of_accepted hargs w₁
    have hpcall := pcall_run env f args n w
    rw [hprepared] at hpush
    rw [bind_of_ok hprepared]
    cases houtcome : outcome env f args w with
    | none =>
      rw [houtcome] at hpcall
      rw [bind_of_error hpcall]
      refine ⟨_, (hpush.bind (runs_pcall_error hpcall)).runsTo, fun limit => ?_⟩
      rw [Nat.max_le, hfits, functionFits_of_hangs hargs houtcome]
      rfl
    | some outcome =>
      obtain ⟨result, h⟩ := outcome
      rw [houtcome] at hpcall
      rw [bind_of_ok hpcall]
      refine ⟨_, hpush.bind_to (hk result h houtcome), fun limit => ?_⟩
      rw [Nat.max_le, Nat.max_le, hfits, functionFits_of_outcome hargs houtcome]
      rfl
  · obtain ⟨e, hdenied⟩ := pushAll_of_denied hargs w₁
    rw [hdenied] at hpush
    rw [bind_of_error hdenied]
    refine ⟨m, hpush.bind_error.runsTo, fun limit => ?_⟩
    rw [hfits, functionFits_of_denied hargs]
    rfl

/-! ### call -/

/-- What the end of `call` takes above the results or the error. -/
def endSlots (top : Nat) (nres : Int) (w : World σ) : Result → Nat
  | .ok _ => resultSlots top nres w
  | .error e => if Conversion.isObject w.lua e then 3 else 2

theorem endSlots_pos (top : Nat) (nres : Int) (w : World σ) (result : Result) :
    2 ≤ endSlots top nres w result := by
  have hslots := (conversionSlots_le w.lua (LuaState.valueAt w (-1))).1
  cases result with
  | ok vs =>
    change 2 ≤ resultSlots top nres w
    unfold resultSlots
    split <;> omega
  | error e =>
    change 2 ≤ if Conversion.isObject w.lua e then 3 else 2
    split <;> omega

variable (env) in
/-- The end of `call`. -/
def finish (err : Int) (top : Nat) (nres : Int) : FramedCode σ (List (Option JavaObject)) :=
  if err ≠ 0 then callError env err else getResults env top nres

theorem runs_finish (f : Value) (args : List (Option JavaObject)) (nres : Int) (top : Nat)
    (w : World σ) (result : Result) (h : Heap σ) :
    Runs (finish env (status result) top nres) (called f args nres w result h)
      (Calls.finish env (status result) top nres (called f args nres w result h))
      ((called f args nres w result h).stack.length +
        endSlots top nres (called f args nres w result h) result) := by
  cases result with
  | ok vs =>
    rw [finish_ok, finish, if_neg (by simp [status])]
    exact runs_getResults _ _ _
  | error e =>
    rw [finish_error, finish, if_pos (by simp [status, LUA_ERRRUN])]
    exact runs_callError LUA_ERRRUN rfl

variable (env) in
/-- The condition under which every push of `call` finds a free slot, those of the native methods
included. -/
structure CallFits (o : LuaObject) (args : List (Option JavaObject)) (nres : Int) (w : World σ)
    (limit : Nat) : Prop where
  object : w.stack.length + 3 ≤ limit
  function : callable (denoted o w) → FunctionFits env (denoted o w) args w (fun result h =>
    (called (denoted o w) args nres w result h).stack.length +
      endSlots w.stack.length nres (called (denoted o w) args nres w result h) result) limit

/-- The tests of the object come first. -/
theorem runsTo_tests {o : LuaObject} {args : List (Option JavaObject)}
    {k : Nat → FramedCode σ β} {n : Nat}
    (hrest : RunsTo ((if (!callable (denoted o w)) = true then
        lift (throwLuaException "Invalid object. Not a function, table or userdata .")
      else do
        let top ← asking LuaState.getTop
        push o
        pushAll env args
        return top) >>= k) w r n) :
    RunsTo (prepareCall env o args >>= k) w r (max (w.stack.length + 3) n) := by
  have hask : ∀ f : LuaType → Bool, Runs (withPushed (asking (f <$> LuaState.type (-1))) o) w
      (.ok (f (denoted o w).type) w) (w.stack.length + 3) := by
    intro f
    rw [← withPushed_type f o w]
    exact runs_look (still_type f (-1)).keeps o w
  rw [← not_callable_eq] at hrest
  unfold prepareCall
  rw [bind_assoc]
  simp only [bind_assoc] at hrest ⊢
  exact ((hask _).bind_to ((hask _).bind_to ((hask _).bind_to hrest))).of_eq (by omega)

variable (env) in
/-- On the frame `call` does what it does without one. -/
theorem runsTo_call (o : LuaObject) (args : List (Option JavaObject)) (nres : Int) (w : World σ) :
    ∃ n, RunsTo (call env o args nres) w (o.call env args nres w) n ∧
      ∀ limit, n ≤ limit ↔ CallFits env o args nres w limit := by
  have hworld : o.call env args nres w = _ := bind_congr_run _ (prepareCall_eq env o args w)
  rw [hworld]
  by_cases hcall : callable (denoted o w)
  · have hnot : ¬ (!callable (denoted o w)) = true := by simp [hcall]
    have htop : (LuaState.getTop : Code σ Nat) w = .ok w.stack.length w := rfl
    have hpush : (o.push : Code σ Unit) w = .ok () (w.setStack (w.stack ++ [denoted o w])) := rfl
    obtain ⟨n, hruns, hfits⟩ := runsTo_arguments env (denoted o w) args nres w
      (fun err => finish env err w.stack.length nres)
      (fun err => Calls.finish env err w.stack.length nres) (fun result h =>
        (called (denoted o w) args nres w result h).stack.length +
          endSlots w.stack.length nres (called (denoted o w) args nres w result h) result) (by
        intro result h houtcome
        have hpcall := pcall_run env (denoted o w) args nres w
        rw [houtcome] at hpcall
        refine runsTo_pcall hpcall (runs_finish _ args nres w.stack.length w result h) ?_
        exact Nat.lt_add_of_pos_right (Nat.lt_of_lt_of_le (by omega) (endSlots_pos _ _ _ result)))
    refine ⟨max (w.stack.length + 3) n, ?_, fun limit => ?_⟩
    · rw [if_neg hnot, bind_assoc, bind_of_ok htop, bind_assoc, bind_of_ok hpush, bind_assoc]
      refine (runsTo_tests (n := max (w.stack.length + 2) (max (w.stack.length + 2) n)) ?_).of_eq
        (by omega)
      rw [if_neg hnot]
      simp only [bind_assoc, pure_bind]
      exact (asked htop).bind_to ((runs_push o w).bind_to hruns)
    · rw [Nat.max_le, hfits]
      exact ⟨fun h => ⟨h.1, fun _ => h.2⟩, fun h => ⟨h.object, h.function hcall⟩⟩
  · have hnot : (!callable (denoted o w)) = true := by simpa using hcall
    refine ⟨w.stack.length + 3, ?_, fun limit => ?_⟩
    · refine (runsTo_tests (n := 0) ?_).of_eq (Nat.max_zero _)
      rw [if_pos hnot, if_pos hnot]
      exact (runs_lift (throwLuaException _) w).bind_error.runsTo
    · constructor
      · exact fun h => ⟨h, fun hyes => absurd hyes hcall⟩
      · exact fun h => h.object

/-! ### callFunctionEx -/

theorem keeps_getLuaObjects (n : Nat) : Keeps (Lua.getLuaObjects (Lua.state env) n) := by
  induction n with
  | zero =>
    rintro w a w' ⟨⟩
    exact Nat.le_refl _
  | succ n ih =>
    intro w a w' h
    obtain ⟨o, w₁, hfirst, h⟩ := bind_eq_ok_iff.mp h
    obtain ⟨os, w₂, hrest, h⟩ := bind_eq_ok_iff.mp h
    cases h
    exact (ih w₁ os w' hrest).trans (keeps_registerValue _ w o w₁ hfirst)

theorem runs_getLuaObjects (n : Nat) (w : World σ) :
    Runs (Lua.getLuaObjects (state env) (n + 1)) w (Lua.getLuaObjects (Lua.state env) (n + 1) w)
      (w.stack.length + 3) := by
  refine (runs_registerValue _ w).bind_within fun o w₁ h => ?_
  have hle := keeps_registerValue _ w o w₁ h
  refine Within.bind ?_ fun os w₂ _ => within_pure _ w₂ _
  cases n with
  | zero => exact within_pure [] w₁ _
  | succ n => exact (runs_getLuaObjects n w₁).within (by omega)

variable (env) in
/-- The end of `callFunctionEx` without an error. -/
theorem runs_objects (n : Nat) (w : World σ) :
    Runs (do let ret ← Lua.getLuaObjects (state env) n; pop n; return ret) w
      ((do let ret ← Lua.getLuaObjects (Lua.state env) n; LuaState.pop n; return ret :
        Code σ (List LuaObject)) w)
      (w.stack.length + if n = 0 then 2 else 3) := by
  cases n with
  | zero => exact (runs_pop 0 w).bind_within fun _ w₁ _ => within_pure [] w₁ _
  | succ n =>
    refine (runs_getLuaObjects n w).bind_within fun os w₁ h => ?_
    have hle := keeps_getLuaObjects (n + 1) w os w₁ h
    exact ((runs_pop (n + 1) w₁).within (by omega)).bind fun _ w₂ _ => within_pure os w₂ _

theorem finds_of_getGlobal {name : JString} {x : Unit}
    (h : LuaState.getGlobal env name w = .ok x w') : ∃ f h, Finds env name w f h := by
  obtain ⟨f, w₁, haccess, _⟩ := bind_eq_ok_iff.mp h
  unfold LuaState.access at haccess
  split at haccess
  · cases haccess
  · cases haccess
  · next v h hfinds => exact ⟨v, h, hfinds⟩

variable (env) in
theorem runs_getGlobal (name : JString) (w : World σ) :
    Runs (pushing (LuaState.getGlobal env name)) w (LuaState.getGlobal env name w)
      (w.stack.length + 2) := by
  refine runs_pushing _ fun w' h => ?_
  obtain ⟨f, heap, hfinds⟩ := finds_of_getGlobal h
  rw [hfinds.getGlobal] at h
  cases h
  change (w.stack ++ [f]).length ≤ _
  rw [List.length_append, List.length_singleton]
  omega

theorem pushAll_state (env : Env σ) (args : List (Option JavaObject)) :
    Lua.pushAll (state env) args = pushAll env args := by
  induction args with
  | nil => rfl
  | cons obj args ih =>
    rw [Lua.pushAll, pushAll, ih]
    rfl

/-- Where the end of `callFunctionEx` reaches, above a stack of so many values. Only results that
are not made to fit the frame are left alone. -/
def globalEnd (n : Int) (depth : Nat) : Result → Nat
  | .error _ => depth + 3
  | .ok _ =>
    if n = LUA_MULTRET then 0
    else if n < 0 then depth
    else depth + if n = 0 then 2 else 3

variable (env) in
structure GlobalCallFits (name : JString) (n : Int) (args : List (Option JavaObject)) (w : World σ)
    (limit : Nat) : Prop where
  lookup : w.stack.length + 2 ≤ limit
  function : ∀ f h, Finds env name w f h → FunctionFits env f args (w.setHeap h)
    (fun result h' => globalEnd n (called f args n (w.setHeap h) result h').stack.length result)
    limit

/-- The end of `callFunctionEx`. -/
def globalFinish {m : Type → Type} [Monad m] {O J : Type} (I : Interface m O J) (n res : Int) :
    m (List O) := do
  if res ≠ 0 then Lua.handleThrows I
  else if n < 0 then
    I.throwJava (.runtimeException "java.lang.IllegalArgumentException"
      (javaString "Illegal Capacity: " ++ javaString (ToString.toString n)))
  else
    let ret ← Lua.getLuaObjects I n.toNat
    I.pop n.toNat
    return ret

theorem callFunctionEx_eq {m : Type → Type} [Monad m] [LawfulMonad m] {O J : Type}
    (I : Interface m O J) (name : JString) (n : Int) (args : List J) :
    Lua.callFunctionEx I name n args = (do
      I.getGlobal name
      Lua.pushAll I args
      I.pcall args.length n >>= globalFinish I n) := by
  unfold Lua.callFunctionEx Lua.callGlobal
  simp only [bind_assoc]
  rfl

theorem runs_globalFinish_error (n : Int) (e : Value) (w : World σ) :
    Runs (globalFinish (state env) n (status (.error e))) w
      (globalFinish (Lua.state env) n (status (.error e)) w) (w.stack.length + 3) := by
  have hstatus : status (.error e) ≠ 0 := by simp [status, LUA_ERRRUN]
  unfold globalFinish
  rw [if_pos hstatus, if_pos hstatus]
  exact runs_handleThrows w

variable (env) in
theorem runs_globalFinish_ok (n : Int) (vs : List Value) (w : World σ) :
    Runs (globalFinish (state env) n (status (.ok vs))) w
      (globalFinish (Lua.state env) n (status (.ok vs)) w)
      (if n < 0 then 0 else w.stack.length + if n = 0 then 2 else 3) := by
  have hstatus : ¬ status (.ok vs) ≠ 0 := by simp [status]
  unfold globalFinish
  rw [if_neg hstatus, if_neg hstatus]
  by_cases hnegative : n < 0
  · rw [if_pos hnegative, if_pos hnegative, if_pos hnegative]
    exact runs_lift (throwJava _) w
  · have hzero : n.toNat = 0 ↔ n = 0 := by omega
    have hobjects := runs_objects env n.toNat w
    simp only [hzero] at hobjects
    rw [if_neg hnegative, if_neg hnegative, if_neg hnegative]
    exact hobjects

theorem runsTo_globalFinish {args : List (Option JavaObject)} {n : Int} {result : Result}
    (hop : LuaState.pcall env args.length n w = .ok (status result) w') :
    RunsTo (pcall env args.length n >>= globalFinish (state env) n) w
      (globalFinish (Lua.state env) n (status result) w')
      (max (w.stack.length + 2) (globalEnd n w'.stack.length result)) := by
  cases result with
  | error e =>
    exact runsTo_pcall hop (runs_globalFinish_error n e w') (Nat.lt_add_of_pos_right (by omega))
  | ok vs =>
    have hfinish := runs_globalFinish_ok env n vs w'
    rw [globalEnd]
    by_cases hmultret : n = LUA_MULTRET
    · subst hmultret
      exact runsTo_pcall_multret hop hfinish (.inl rfl)
    by_cases hnegative : n < 0
    · rw [if_pos hnegative] at hfinish
      rw [if_neg hmultret, if_pos hnegative]
      exact ((runs_pcall_fixed hmultret hop hfinish).of_eq (by omega)).runsTo
    · rw [if_neg hnegative] at hfinish
      rw [if_neg hmultret, if_neg hnegative]
      refine runsTo_pcall hop hfinish ?_
      split <;> omega

variable (env) in
/-- On the frame `callFunctionEx` does what it does without one. -/
theorem runsTo_callFunctionEx (name : JString) (n : Int) (args : List (Option JavaObject))
    (w : World σ) :
    ∃ m, RunsTo (Lua.callFunctionEx (state env) name n args) w
      (Lua.callFunctionEx (Lua.state env) name n args w) m ∧
      ∀ limit, m ≤ limit ↔ GlobalCallFits env name n args w limit := by
  have hglobal := runs_getGlobal env name w
  rw [callFunctionEx_eq, callFunctionEx_eq, pushAll_state, pushAll_eq]
  cases hrun : LuaState.getGlobal env name w with
  | error e w' =>
    have hworld : (Lua.state env).getGlobal name w = .error e w' := hrun
    rw [hrun] at hglobal
    rw [bind_of_error hworld]
    refine ⟨_, hglobal.bind_error.runsTo, fun limit => ?_⟩
    constructor
    · refine fun h => ⟨h, fun f h hfinds => ?_⟩
      rw [hfinds.getGlobal] at hrun
      cases hrun
    · exact fun h => h.lookup
  | ok x w' =>
    obtain ⟨f, h, hfinds⟩ := finds_of_getGlobal hrun
    have hworld : (Lua.state env).getGlobal name w = _ := hfinds.getGlobal
    rw [hfinds.getGlobal] at hglobal
    rw [bind_of_ok hworld]
    obtain ⟨m, hruns, hfits⟩ := runsTo_arguments env f args n (w.setHeap h)
      (globalFinish (state env) n) (globalFinish (Lua.state env) n) _ (fun result h' houtcome =>
        runsTo_globalFinish (by rw [pcall_run, houtcome]; rfl))
    refine ⟨_, hglobal.bind_to hruns, fun limit => ?_⟩
    rw [Nat.max_le, hfits]
    constructor
    · rintro ⟨hlookup, hfunction⟩
      refine ⟨hlookup, fun f' heap hother => ?_⟩
      rw [Finds, hfinds] at hother
      cases hother
      exact hfunction
    · exact fun hcall => ⟨hcall.lookup, hcall.function f h hfinds⟩

/-! ### How many arguments there is room for -/

/-- The methods do not ask for room, so what they push fits exactly under these conditions. -/
theorem calls_fit_iff (env : Env σ) (o : LuaObject) (args : List (Option JavaObject)) (nres : Int)
    (name : JString) (n : Int) (w : World σ) (limit : Nat) :
    (Gauge.Fits (call env o args nres) w limit ↔ CallFits env o args nres w limit) ∧
      (Gauge.Fits (Lua.callFunctionEx (state env) name n args) w limit ↔
        GlobalCallFits env name n args w limit) := by
  obtain ⟨m, hcall, hfits⟩ := runsTo_call env o args nres w
  obtain ⟨m', hglobal, hfits'⟩ := runsTo_callFunctionEx env name n args w
  exact ⟨(hcall.fits_iff limit).trans (hfits limit), (hglobal.fits_iff limit).trans (hfits' limit)⟩

/-- A frame that has just been entered has room for a call with few arguments. -/
theorem few_arguments_fit {args : List (Option JavaObject)} (h : args.length ≤ 16) (w : World σ) :
    ArgumentsFit env args w.peer (w.stack.length + 1) (w.stack.length + LUA_MINSTACK) ∧
      w.stack.length + 1 + own w.peer args + 2 ≤ w.stack.length + LUA_MINSTACK := by
  have hown : ∀ objs : List (Option JavaObject), own w.peer objs ≤ objs.length :=
    fun objs => List.countP_le_length
  have hall := hown args
  unfold LUA_MINSTACK
  constructor
  · intro before obj after hargs _ _
    have hlength := congrArg List.length hargs
    rw [List.length_append, List.length_cons] at hlength
    have hbefore := hown before
    unfold slotsFor
    split <;> omega
  · omega

theorem many_arguments_do_not_fit {f : Value} {args : List (Option JavaObject)}
    {reached : Result → Heap σ → Nat} (hargs : Accepted env args) (hmany : 17 < own w.peer args) :
    ¬ FunctionFits env f args w reached (w.stack.length + LUA_MINSTACK) := by
  intro h
  have hcall := h.call hargs
  unfold LUA_MINSTACK at hcall
  omega

/-- One function is registered, and every global is a function too. -/
def enteredWorld : World Unit :=
  ⟨⟨1, [], ⟨fun ref => if ref = 1 then .function 0 else .nil, 1⟩, []⟩, ()⟩

theorem eighteen_arguments_do_not_fit :
    ¬ Gauge.Fits (call (Env.plain (globalVm .ok) fun _ => []) ⟨1, 1⟩ (List.replicate 18 none) 0)
        enteredWorld (enteredWorld.stack.length + LUA_MINSTACK) ∧
      ¬ Gauge.Fits (Lua.callFunctionEx (state (Env.plain (globalVm .ok) fun _ => [])) "f" 0
        (List.replicate 18 none)) enteredWorld (enteredWorld.stack.length + LUA_MINSTACK) := by
  let env := Env.plain (globalVm .ok) fun _ => []
  have hargs : Accepted env (List.replicate 18 none) := by
    intro obj hobj
    rw [List.eq_of_mem_replicate hobj]
    rfl
  have hmany : 17 < own enteredWorld.peer (List.replicate 18 none) := by decide
  obtain ⟨m, hcall, hfits⟩ := runsTo_call env ⟨1, 1⟩ (List.replicate 18 none) 0 enteredWorld
  obtain ⟨m', hglobal, hfits'⟩ :=
    runsTo_callFunctionEx env "f" 0 (List.replicate 18 none) enteredWorld
  constructor
  · intro h
    have hroom := (hfits _).mp ((hcall.fits_iff _).mp h)
    exact many_arguments_do_not_fit hargs hmany (hroom.function rfl)
  · intro h
    have hroom := (hfits' _).mp ((hglobal.fits_iff _).mp h)
    exact many_arguments_do_not_fit (w := enteredWorld.setHeap enteredWorld.heap) hargs hmany
      (hroom.function (.function 0) enteredWorld.heap rfl)

end JLua.CallRoom
