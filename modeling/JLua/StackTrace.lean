import JLua.Calls
import JLua.Native

/-!
# What setExceptionStackTrace does to the stack of its caller

`setExceptionStackTrace` has four exits, which share one last `lua_pop`; `throwObj` reads its
argument again when it has returned.
-/

namespace JLua.StackTrace

open BinaryFloat Calls Conversion Metatables Native OutcomeRules
set_option autoImplicit false

variable {σ : Type}

/-- What the global `debug` holds: no table, a table without a traceback function, or one whose
traceback function returns `result`. -/
inductive Content where
  | notTable
  | noTraceback
  | returned (debug result : Value)

/-- `lua_isstring` -/
def isText (v : Value) : Bool := v.type = .string || v.type = .number

/-- The content, and the heap when it has been read and the traceback function has returned. -/
inductive Debug (env : Env σ) (h : Heap σ) : Content → Heap σ → Prop where
  | notTable {d : Value} {h₁ : Heap σ}
      (global : luaVGettable env.vm (env.vm.globals h) (.ofString "debug") h = some (.ok d, h₁))
      (hd : d.type ≠ .table) : Debug env h .notTable h₁
  | noTraceback {d f : Value} {h₁ h₂ : Heap σ}
      (global : luaVGettable env.vm (env.vm.globals h) (.ofString "debug") h = some (.ok d, h₁))
      (hd : d.type = .table)
      (field : luaVGettable env.vm d (.ofString "traceback") h₁ = some (.ok f, h₂))
      (hf : f.type ≠ .function) : Debug env h .noTraceback h₂
  | returned {d f : Value} {vs : List Value} {h₁ h₂ h₃ : Heap σ}
      (global : luaVGettable env.vm (env.vm.globals h) (.ofString "debug") h = some (.ok d, h₁))
      (hd : d.type = .table)
      (field : luaVGettable env.vm d (.ofString "traceback") h₁ = some (.ok f, h₂))
      (hf : f.type = .function)
      (call : env.vm.call f [.ofString "", .number (.ofInt _ 2)] h₂ = some (.ok vs, h₃)) :
      Debug env h (.returned d (vs.headD .nil)) h₃

/-- The stack that a caller gets back. -/
def Content.leaves (L : Stack) : Content → Stack
  | notTable | noTraceback => luaPop L 1
  | returned debug result => if isText result then L ++ [debug] else L

variable {env : Env σ} {B : Bridge σ} {w : World σ} {c : Content} {h : Heap σ}

theorem luaGetglobal_run {name : String} {v : Value}
    (hv : luaVGettable env.vm (env.vm.globals w.heap) (.ofString name) w.heap = some (.ok v, h)) :
    luaGetglobal env name w = .ok () ((w.setHeap h).setStack (w.stack ++ [v])) :=
  bind_of_ok (LuaState.access_run hv)

theorem luaGetfield_run {K : Stack} {t v : Value} {k : String} (hw : w.stack = K ++ [t])
    (hv : luaVGettable env.vm t (.ofString k) w.heap = some (.ok v, h)) :
    luaGetfield env (-1) k w = .ok () ((w.setHeap h).setStack (w.stack ++ [v])) := by
  rw [luaGetfield, get_bind, valueAt_top hw]
  exact bind_of_ok (LuaState.access_run hv)

theorem luaCall_run (nresults : Int) {K : Stack} {f : Value} {args vs : List Value}
    (hw : w.stack = K ++ f :: args) (hcall : env.vm.call f args w.heap = some (.ok vs, h)) :
    luaCall env args.length nresults w =
      .ok () ((w.setHeap h).setStack (K ++ adjust nresults vs)) := by
  have hbase : (K ++ f :: args).length - args.length - 1 = K.length := by
    simp only [List.length_append, List.length_cons]
    omega
  have hf : (K ++ f :: args)[K.length]?.getD .nil = f := by simp
  have hargs : (K ++ f :: args).drop (K.length + 1) = args := by simp
  simp only [luaCall, hw, hbase, hf, hargs, hcall]
  simp only [List.take_left]
  rfl

theorem isTable_run {K : Stack} {v : Value} (hw : w.stack = K ++ [v]) :
    (LuaState.isTable (-1) : Code σ Bool) w = .ok (decide (v.type = .table)) w := by
  rw [← luaType_top hw]
  rfl

theorem isFunction_run {K : Stack} {v : Value} (hw : w.stack = K ++ [v]) :
    (LuaState.isFunction (-1) : Code σ Bool) w = .ok (decide (v.type = .function)) w := by
  rw [← luaType_top hw]
  rfl

theorem isString_run {K : Stack} {v : Value} (hw : w.stack = K ++ [v]) :
    (LuaState.isString (-1) : Code σ Bool) w = .ok (isText v) w := by
  rw [isText, ← luaType_top hw]
  rfl

theorem luaPop_two (L : Stack) (v v' : Value) : luaPop (L ++ [v] ++ [v']) 2 = L := by
  simp [luaPop]

/-- Each exit of the search leaves another number of values for the last `lua_pop`. -/
theorem traceback_run (hc : Debug env w.heap c h) :
    ∃ str w', traceback env w = .ok str w' ∧ luaPop w'.stack 1 = c.leaves w.stack := by
  unfold traceback
  cases hc with
  | notTable global hd =>
    rw [bind_of_ok (luaGetglobal_run global), bind_of_ok (isTable_run rfl), if_pos (by simpa)]
    rw [bind_of_ok (pop_run rfl)]
    exact ⟨none, _, rfl, rfl⟩
  | @noTraceback d f h₁ _ global hd field hf =>
    have hfield := luaGetfield_run (w := (w.setHeap h₁).setStack (w.stack ++ [d])) rfl field
    rw [bind_of_ok (luaGetglobal_run global), bind_of_ok (isTable_run rfl), if_neg (by simpa)]
    rw [bind_of_ok hfield, bind_of_ok (isFunction_run rfl), if_pos (by simpa)]
    exact ⟨none, _, rfl, congrArg (luaPop · 1) (luaPop_two w.stack d f)⟩
  | @returned d f vs h₁ h₂ _ global hd field hf call =>
    let w₁ : World σ := (w.setHeap h₂).setStack (w.stack ++ [d] ++ [f])
    let w₂ : World σ := (w.setHeap h).setStack (w.stack ++ [d] ++ [vs.headD .nil])
    have hfield : luaGetfield env (-1) "traceback" ((w.setHeap h₁).setStack (w.stack ++ [d])) =
        .ok () w₁ := luaGetfield_run rfl field
    have hstring : (LuaState.onStack (luaPushstring · "") : Code σ Unit) w₁ =
        .ok () (w₁.setStack (w₁.stack ++ [.ofString ""])) := rfl
    have hnumber : (LuaState.pushNumber (.ofInt _ 2) : Code σ Unit)
        (w₁.setStack (w₁.stack ++ [.ofString ""])) =
        .ok () (w₁.setStack (w₁.stack ++ [.ofString ""] ++ [.number (.ofInt _ 2)])) := rfl
    have hcall : luaCall env 2 1
        (w₁.setStack (w₁.stack ++ [.ofString ""] ++ [.number (.ofInt _ 2)])) = .ok () w₂ := by
      have hargs : w₁.stack ++ [.ofString ""] ++ [.number (.ofInt _ 2)] =
          (w.stack ++ [d]) ++ f :: [.ofString "", .number (.ofInt _ 2)] := by
        simp [w₁]
      rw [hargs]
      have hrun := luaCall_run 1 (w := w₁.setStack _) (K := w.stack ++ [d]) rfl call
      rwa [adjust_one] at hrun
    rw [bind_of_ok (luaGetglobal_run global), bind_of_ok (isTable_run rfl), if_neg (by simpa)]
    rw [bind_of_ok hfield, bind_of_ok (isFunction_run rfl), if_neg (by simpa)]
    rw [bind_of_ok hstring, bind_of_ok hnumber, bind_of_ok hcall]
    rw [bind_of_ok (isString_run (w := w₂) (K := w.stack ++ [d]) rfl)]
    by_cases htext : isText (vs.headD .nil) = true
    · obtain ⟨str, S, hstr, hS⟩ := toString_run env (w := w₂) (K := w.stack ++ [d]) rfl
      rw [if_neg (by simp only [htext]; decide)]
      exact ⟨str, _, hstr, hS.trans (if_pos htext).symm⟩
    · rw [if_pos (by simpa using htext), bind_of_ok (pop_run (K := w.stack ++ [d]) rfl)]
      exact ⟨none, _, rfl, (luaPop_top w.stack d).trans (if_neg htext).symm⟩

theorem setExceptionStackTrace_run (hopened : Opened B w.heap) (hc : Debug env w.heap c h) :
    ∃ w', setExceptionStackTrace env B w = .ok () w' ∧ w'.stack = c.leaves w.stack := by
  obtain ⟨stateIndex, hindex⟩ := hopened.getLuaStateIndex
  obtain ⟨str, w₁, htraceback, hstack⟩ := traceback_run hc
  rw [setExceptionStackTrace, bind_of_ok hindex, bind_of_ok htraceback]
  exact ⟨_, rfl, hstack⟩

theorem throwObj_run {v : Value} (hopened : Opened B w.heap) (hc : Debug env w.heap c h)
    (hw : w.stack = [v]) :
    ∃ w', throwObj env B w = .error (.raises ((c.leaves [v])[0]?.getD .nil)) w' := by
  obtain ⟨stateIndex, hindex⟩ := hopened.getLuaStateIndex
  obtain ⟨w₁, hset, hstack⟩ := setExceptionStackTrace_run hopened hc
  have htop : (LuaState.getTop : Code σ Nat) w = .ok 1 w := by
    change EStateM.Result.ok (luaGettop w.stack) w = _
    rw [hw]
    rfl
  let w₂ := w₁.setStack (c.leaves [v] ++ [(c.leaves [v])[0]?.getD .nil])
  have hpush : (LuaState.pushValue 1 : Code σ Unit) w₁ = .ok () w₂ := by
    change EStateM.Result.ok () (w₁.setStack (luaPushvalue w₁.stack 1)) = _
    rw [hstack, hw]
    rfl
  rw [throwObj, bind_of_ok htop, if_neg (by decide), bind_of_ok hindex,
    bind_of_ok hopened.getEnvFromStateCheck, bind_of_ok hset, bind_of_ok hpush]
  refine ⟨w₂, ?_⟩
  unfold Native.luaError
  rw [get_bind, valueAt_top (w := w₂) (K := c.leaves [v]) rfl]
  rfl

variable (env B w) in
/-- `jlua.throw(v)` raises `v` itself. -/
def ThrowsArgument (v : Value) : Prop :=
  ∃ w', throwObj env B (w.setStack [v]) = .error (.raises v) w'

variable (env B w) in
/-- Whatever a C function has on its stack, one argument at least, is left as it is. -/
def KeepsStack : Prop :=
  ∀ L, L ≠ [] → ∃ w', setExceptionStackTrace env B (w.setStack L) = .ok () w' ∧ w'.stack = L

/-- An argument survives exactly if there is a traceback function: otherwise nil is raised. -/
theorem throwsArgument_iff (hopened : Opened B w.heap) (hc : Debug env w.heap c h) (v : Value) :
    ThrowsArgument env B w v ↔ (∃ debug result, c = .returned debug result) ∨ v = .nil := by
  obtain ⟨w', hrun⟩ := throwObj_run (w := w.setStack [v]) hopened hc rfl
  have hiff : ThrowsArgument env B w v ↔ (c.leaves [v])[0]?.getD .nil = v := by
    rw [ThrowsArgument, hrun]
    constructor
    · rintro ⟨w₁, h⟩
      injection h with hstop _
      injection hstop
    · intro h
      exact ⟨w', by rw [h]⟩
  rw [hiff]
  cases c with
  | notTable | noTraceback => simp [Content.leaves, luaPop, eq_comm]
  | returned d r =>
    by_cases htext : isText r = true <;> simp [Content.leaves, htext]

/-- The stack is balanced exactly if the traceback function returns no text: with a text `debug`
stays, and without the function a value of the caller goes. -/
theorem keepsStack_iff (hopened : Opened B w.heap) (hc : Debug env w.heap c h) :
    KeepsStack env B w ↔ ∃ debug result, c = .returned debug result ∧ isText result = false := by
  have hiff : KeepsStack env B w ↔ ∀ L, L ≠ [] → c.leaves L = L := by
    refine forall₂_congr fun L _ => ?_
    obtain ⟨w', hrun, hstack⟩ := setExceptionStackTrace_run (w := w.setStack L) hopened hc
    rw [hrun]
    constructor
    · rintro ⟨w₁, h, hL⟩
      cases h
      exact hstack.symm.trans hL
    · intro h
      exact ⟨w', rfl, hstack.trans h⟩
  rw [hiff]
  cases c with
  | notTable | noTraceback =>
    refine iff_of_false (fun h => ?_) (by simp)
    have hone := h [.nil] (by simp)
    simp [Content.leaves, luaPop] at hone
  | returned d r =>
    by_cases htext : isText r = true
    · refine iff_of_false (fun h => ?_) (by simp [htext])
      have hone := h [.nil] (by simp)
      simp [Content.leaves, htext] at hone
    · simp [Content.leaves, htext]

/-- In an opened state whose `debug` can be read, and whose traceback function returns, `throw`
raises its argument with every stack left alone exactly if the function returns no text. -/
theorem throws_and_keeps_iff (hopened : Opened B w.heap) (hc : Debug env w.heap c h) (v : Value) :
    (ThrowsArgument env B w v ∧ KeepsStack env B w) ↔
      ∃ debug result, c = .returned debug result ∧ isText result = false := by
  rw [throwsArgument_iff hopened hc, keepsStack_iff hopened hc]
  constructor
  · exact And.right
  · rintro ⟨debug, result, hc', htext⟩
    exact ⟨Or.inl ⟨debug, result, hc'⟩, debug, result, hc', htext⟩

/-! ### In a small world -/

/-- `debug` is a table with a function that returns nothing. -/
def silentVm : Vm (Heap Unit) where
  globals _ := .table 0
  rawget _ a _ := if a = 0 then .table 1 else .function 0
  rawset s _ _ _ := s
  gettmbyobj _ _ _ := .nil
  newtable s := (2, s)
  call _ _ s := some (.ok [], s)

theorem debug_silentVm :
    Debug (Env.plain silentVm fun _ => []) World.plain.heap (.returned (.table 1) .nil)
      World.plain.heap :=
  @Debug.returned _ _ _ (.table 1) (.function 0) [] _ _ _ rfl rfl rfl rfl rfl

theorem throws_and_keeps_iff_silent :
    (ThrowsArgument (Env.plain silentVm fun _ => []) .plain World.plain (.boolean true) ∧
        KeepsStack (Env.plain silentVm fun _ => []) .plain World.plain) ↔
      ∃ debug result, Content.returned (.table 1) .nil = .returned debug result ∧
        isText result = false :=
  throws_and_keeps_iff (opened_plain _) debug_silentVm (.boolean true)

/-- Without the library `debug` the argument has been popped when it is read, and `throw(true)`
raises nil. -/
theorem throw_raises_nil :
    (∃ w', throwObj (Env.plain .plain fun _ => []) .plain (World.plain.setStack [.boolean true]) =
      .error (.raises .nil) w') ∧
    ¬ ThrowsArgument (Env.plain .plain fun _ => []) .plain World.plain (.boolean true) := by
  refine ⟨⟨_, rfl⟩, ?_⟩
  rintro ⟨w', h⟩
  injection h with hstop _
  injection hstop with hvalue
  cases hvalue

end JLua.StackTrace
