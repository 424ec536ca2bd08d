import JLua.Delivery
import JLua.Pushing
import Mathlib.Data.List.Induction

/-!
# What LuaObject.call passes on and what it leaves

The function and the arguments are pushed above what is on the stack, and `lua_pcall` takes as many
values as there are arguments. A `LuaObject` of another state is an argument that is not there.
-/

namespace JLua.Calls

open Conversion Delivery OutcomeRules Pushing StackDiscipline
set_option autoImplicit false

variable {σ : Type}

/-! ### The results -/

/-- `toJavaObject` of a value on top, which is popped then. -/
def convert (host : Host) (L : State) (v : Value) : Option JavaObject × State :=
  let r := Conversion.toJavaObject host (L.push v) (-1)
  (r.1, { r.2 with stack := L.stack })

/-- The results are converted from the last one on. -/
def convertAll (host : Host) (L : State) : List Value → List (Option JavaObject) × State
  | [] => ([], L)
  | v :: vs =>
    let rest := convertAll host L vs
    let first := convert host rest.2 v
    (first.1 :: rest.1, first.2)

theorem toJavaObject_keeps (host : Host) (L : State) (idx : Int) :
    (Conversion.toJavaObject host L idx).2.stack = L.stack ∧
      (Conversion.toJavaObject host L idx).2.userdata = L.userdata ∧
      (Conversion.toJavaObject host L idx).2.peer = L.peer := by
  unfold Conversion.toJavaObject
  split
  · exact ⟨rfl, rfl, rfl⟩
  · exact ⟨rfl, rfl, rfl⟩
  · exact ⟨rfl, rfl, rfl⟩
  · exact ⟨rfl, rfl, rfl⟩
  · exact ⟨rfl, rfl, rfl⟩
  · exact ⟨rfl, rfl, rfl⟩
  · split <;> exact ⟨rfl, rfl, rfl⟩

theorem convert_eq (host : Host) (L : State) (v : Value) : convert host L v =
    match v with
    | .boolean b => (some (.boolean b), L)
    | .string bytes => (some (.string (host.newStringUTF (ModifiedUtf8.cString bytes))), L)
    | .number x => (some (.double x), L)
    | .nil | .thread _ => (none, L)
    | v =>
      match getObjectFromUserdata L v with
      | some obj => (some obj, L)
      | none => (getLuaObject L v).map some id := by
  have htop : index2adr (L.push v).stack (-1) = some v := index2adr_top _ _
  unfold convert Conversion.toJavaObject
  rw [htop]
  cases v with
  | userdata a =>
    simp only [getObjectFromUserdata, State.push]
    cases L.userdata[a]? with
    | none => rfl
    | some u => cases u <;> rfl
  | _ => rfl

theorem convert_keeps (host : Host) (L : State) (v : Value) :
    (convert host L v).2.stack = L.stack ∧ (convert host L v).2.userdata = L.userdata ∧
      (convert host L v).2.peer = L.peer :=
  ⟨rfl, (toJavaObject_keeps host _ _).2.1, (toJavaObject_keeps host _ _).2.2⟩

theorem convertAll_keeps (host : Host) (L : State) (vs : List Value) :
    (convertAll host L vs).2.stack = L.stack ∧ (convertAll host L vs).2.userdata = L.userdata ∧
      (convertAll host L vs).2.peer = L.peer := by
  induction vs with
  | nil => exact ⟨rfl, rfl, rfl⟩
  | cons v vs ih =>
    obtain ⟨hstack, huserdata, hpeer⟩ := convert_keeps host (convertAll host L vs).2 v
    exact ⟨hstack.trans ih.1, huserdata.trans ih.2.1, hpeer.trans ih.2.2⟩

theorem convertAll_concat (host : Host) (L : State) (vs : List Value) (v : Value) :
    convertAll host L (vs ++ [v]) =
      ((convertAll host (convert host L v).2 vs).1 ++ [(convert host L v).1],
        (convertAll host (convert host L v).2 vs).2) := by
  induction vs with
  | nil => rfl
  | cons u vs ih => simp only [List.cons_append, convertAll, ih]

theorem length_convertAll (host : Host) (L : State) (vs : List Value) :
    (convertAll host L vs).1.length = vs.length := by
  induction vs with
  | nil => rfl
  | cons v vs ih => simp only [convertAll, List.length_cons, ih]

/-- Each object is the conversion of its value, made when those after it have got their
references. -/
theorem getElem?_convertAll (host : Host) (L : State) {vs : List Value} {i : Nat} {v : Value}
    (hi : vs[i]? = some v) :
    (convertAll host L vs).1[i]? =
      some (convert host (convertAll host L (vs.drop (i + 1))).2 v).1 := by
  induction vs generalizing i with
  | nil => simp at hi
  | cons u vs ih =>
    cases i with
    | zero =>
      obtain rfl : u = v := by simpa using hi
      rfl
    | succ i => exact ih hi

/-- A conversion depends on the stack no further than on its top. -/
theorem convert_setStack (host : Host) (L : State) (S : Stack) (v : Value) :
    convert host { L with stack := S } v =
      ((convert host L v).1, { (convert host L v).2 with stack := S }) := by
  have htop : ∀ S : Stack, index2adr (({ L with stack := S } : State).push v).stack (-1) = some v :=
    fun S => index2adr_top S v
  unfold convert Conversion.toJavaObject
  rw [htop S, show index2adr (L.push v).stack (-1) = some v from htop L.stack]
  cases v with
  | userdata a =>
    simp only [getObjectFromUserdata, State.push]
    cases L.userdata[a]? with
    | none => rfl
    | some u => cases u <;> rfl
  | _ => rfl

theorem convertAll_setStack (host : Host) (L : State) (S : Stack) (vs : List Value) :
    convertAll host { L with stack := S } vs =
      ((convertAll host L vs).1, { (convertAll host L vs).2 with stack := S }) := by
  induction vs with
  | nil => rfl
  | cons v vs ih => simp only [convertAll, ih, convert_setStack]

theorem toJavaObject_run (env : Env σ) {S : Stack} {v : Value} {w : World σ}
    (hw : w.stack = S ++ [v]) :
    LuaState.toJavaObject env (-1) w = .ok (convert env.host w.lua v).1
      { w with lua := { (convert env.host w.lua v).2 with stack := w.stack } } := by
  let r := Conversion.toJavaObject env.host w.lua (-1)
  have hlua : ({ w.lua with stack := S } : State).push v = w.lua := by
    rw [State.push, ← hw]
    rfl
  have hconvert : convert env.host { w.lua with stack := S } v =
      (r.1, { r.2 with stack := S }) := by
    unfold convert
    rw [hlua]
  rw [convert_setStack] at hconvert
  obtain ⟨hobj, hstate⟩ := Prod.mk.inj hconvert
  have hstack : r.2.stack = w.stack := (toJavaObject_keeps env.host w.lua (-1)).1
  have hlua' : r.2 = { (convert env.host w.lua v).2 with stack := w.stack } := by
    calc r.2 = { ({ r.2 with stack := S } : State) with stack := w.stack } := by rw [← hstack]
      _ = { (convert env.host w.lua v).2 with stack := w.stack } := by rw [← hstate]
  rw [hobj, ← hlua']
  rfl

theorem popResults_append (env : Env σ) (vs : List Value) {K : Stack}
    (res : List (Option JavaObject)) (w : World σ) (hw : w.stack = K ++ vs) :
    LuaObject.popResults env vs.length res w =
      .ok ((convertAll env.host w.lua vs).1 ++ res)
        { w with lua := { (convertAll env.host w.lua vs).2 with stack := K } } := by
  induction vs using List.reverseRecOn generalizing res w with
  | nil =>
    rw [List.append_nil] at hw
    subst hw
    rfl
  | append_singleton vs v ih =>
    rw [← List.append_assoc] at hw
    have hpop : luaPop w.stack 1 = K ++ vs := by rw [hw, luaPop_top]
    rw [List.length_append, List.length_singleton, LuaObject.popResults,
      bind_of_ok (toJavaObject_run env hw)]
    let L : State := { (convert env.host w.lua v).2 with stack := K ++ vs }
    have hrest := ih ((convert env.host w.lua v).1 :: res) { w with lua := L } rfl
    have hpopped : (LuaState.pop 1 : Code σ Unit)
        { w with lua := { (convert env.host w.lua v).2 with stack := w.stack } } =
        .ok () { w with lua := L } :=
      congrArg (fun S => EStateM.Result.ok ()
        ({ w with lua := { (convert env.host w.lua v).2 with stack := S } } : World σ)) hpop
    rw [bind_of_ok hpopped, hrest, convertAll_concat]
    simp only [L, convertAll_setStack, List.append_assoc, List.cons_append, List.nil_append]

/-! ### The protected call -/

section Call
variable (env : Env σ)

def callable (v : Value) : Bool := v.type = .function || indexable v

/-- The state when the function and the arguments have been pushed. -/
def prepared (f : Value) (args : List (Option JavaObject)) (w : World σ) : World σ :=
  { w with lua := pushedAll (w.lua.push f) args }

/-- The values of the arguments, pushed above the function. -/
def argumentValues (f : Value) (args : List (Option JavaObject)) (w : World σ) : List Value :=
  images (w.lua.push f) args

theorem stack_prepared (f : Value) (args : List (Option JavaObject)) (w : World σ) :
    (prepared f args w).stack = w.stack ++ f :: argumentValues f args w := by
  change (pushedAll _ args).stack = _
  rw [stack_pushedAll, State.push, List.append_assoc]
  rfl

theorem length_argumentValues (f : Value) (args : List (Option JavaObject)) (w : World σ) :
    (argumentValues f args w).length + foreign w.peer args = args.length :=
  length_images _ args

/-- The test at the start of `call`. -/
theorem not_callable_eq (v : Value) :
    (!decide (v.type = .function) && !decide (v.type = .table) &&
      !(decide (v.type = .userdata) || decide (v.type = .lightuserdata))) = !callable v := by
  simp [callable, indexable, Bool.and_assoc]

theorem prepareCall_eq (o : LuaObject) (args : List (Option JavaObject)) (w : World σ) :
    o.prepareCall env args w =
      (if (!callable (denoted o w)) = true then
        throwLuaException "Invalid object. Not a function, table or userdata ."
      else do
        let top ← LuaState.getTop
        o.push
        LuaObject.pushAll env args
        return top : Code σ Nat) w := by
  unfold LuaObject.prepareCall LuaObject.isFunction LuaObject.isTable LuaObject.isUserdata
    LuaState.isFunction LuaState.isTable LuaState.isUserdata
  rw [bind_of_ok (withPushed_type _ o w), bind_of_ok (withPushed_type _ o w),
    bind_of_ok (withPushed_type _ o w), not_callable_eq]

/-- What the protected call comes to, in the state that it finds. It takes the function from below
as many values as there are arguments. -/
def outcome (f : Value) (args : List (Option JavaObject)) (w : World σ) :
    Option (Result × Heap σ) :=
  let S := (prepared f args w).stack
  let base := S.length - args.length - 1
  env.vm.call (S[base]?.getD .nil) (S.drop (base + 1)) (prepared f args w).heap

/-- What is below the function and the arguments taken. -/
def below (args : List (Option JavaObject)) (w : World σ) : Stack :=
  w.stack.take (w.stack.length - foreign w.peer args)

theorem take_prepared (f : Value) (args : List (Option JavaObject)) (w : World σ) :
    (prepared f args w).stack.take ((prepared f args w).stack.length - args.length - 1) =
      below args w := by
  have hlength := length_argumentValues f args w
  have hbase : (prepared f args w).stack.length - args.length - 1 =
      w.stack.length - foreign w.peer args := by
    rw [stack_prepared, List.length_append, List.length_cons]
    omega
  rw [hbase, stack_prepared, List.take_append_of_le_length (Nat.sub_le _ _)]
  rfl

theorem pcall_run (f : Value) (args : List (Option JavaObject)) (nres : Int) (w : World σ) :
    LuaState.pcall env args.length nres (prepared f args w) =
      match outcome env f args w with
      | none => .error .hangs (prepared f args w)
      | some (r, h) => .ok (status r)
        (((prepared f args w).setStack (below args w ++ returned nres r)).setHeap h) := by
  have hpcall : luaPcall env.vm.call (prepared f args w).stack args.length nres
      (prepared f args w).heap = (outcome env f args w).map fun r =>
        (status r.1, below args w ++ returned nres r.1, r.2) := by
    rw [← take_prepared f args w]
    rfl
  unfold LuaState.pcall
  rw [hpcall]
  cases outcome env f args w <;> rfl

variable {env} {o : LuaObject} {f : Value} {args : List (Option JavaObject)} {w : World σ}

theorem prepareCall_of_not_callable (h : ¬ callable (denoted o w)) : ∃ message,
    o.prepareCall env args w = .error (.throws (.luaException message)) w := by
  rw [prepareCall_eq, if_pos (by simpa using h)]
  exact ⟨_, rfl⟩

theorem prepareCall_of_accepted (h : callable (denoted o w)) (hargs : Accepted env args) :
    o.prepareCall env args w = .ok w.stack.length (prepared (denoted o w) args w) := by
  rw [prepareCall_eq, if_neg (by simp [h])]
  have hpush := pushAll_of_accepted hargs (w.setStack (w.stack ++ [denoted o w]))
  exact bind_of_ok hpush

/-- The function stays on the stack, with what has been pushed before the argument denied. -/
theorem prepareCall_of_denied (h : callable (denoted o w)) (hargs : ¬ Accepted env args) :
    ∃ e w', o.prepareCall env args w = .error (deniedWith e) w' ∧
      w.stack.length < w'.stack.length := by
  rw [prepareCall_eq, if_neg (by simp [h])]
  obtain ⟨e, hpush⟩ := pushAll_of_denied hargs (w.setStack (w.stack ++ [denoted o w]))
  have htop : (LuaState.getTop : Code σ Nat) w = .ok w.stack.length w := rfl
  have hfunction : (o.push : Code σ Unit) w = .ok () (w.setStack (w.stack ++ [denoted o w])) := rfl
  rw [bind_of_ok htop, bind_of_ok hfunction]
  refine ⟨e, prepared (denoted o w) (args.takeWhile (isAccepted env)) w, ?_, ?_⟩
  · exact bind_of_error hpush
  · rw [stack_prepared]
    simp

/-! ### After the call -/

/-- `toString` of the object returns. -/
def answersText (env : Env σ) (w : World σ) (obj : JavaObject) : Bool :=
  (env.toString obj w.rest).1.isOk

/-- The error on top is one that `call` pops: a text, or a Java object whose `toString` returns. -/
def popsError (env : Env σ) (w : World σ) (e : Value) : Bool :=
  e.type = .string || e.type = .number ||
    (getObjectFromUserdata w.lua e).any (answersText env w)

theorem valueAt_top {K : Stack} {v : Value} (hw : w.stack = K ++ [v]) :
    LuaState.valueAt w (-1) = v := by
  rw [LuaState.valueAt, hw, index2adr_top]
  rfl

/-- An object that is pushed as it is can be read from the top. -/
theorem pushOne_userdata {env : Env σ} {obj : JavaObject}
    (h : LuaState.pushObjectValue env (some obj) w =
      .ok () { w with lua := w.lua.pushUserdata obj }) :
    ∃ w', JLuaAPI.pushOne env (some obj) w = .ok 1 w' ∧
      getObjectFromUserdata w'.lua (LuaState.valueAt w' (-1)) = some obj := by
  let w' : World σ := { w with lua := w.lua.pushUserdata obj }
  have htop : LuaState.valueAt w' (-1) = .userdata w.lua.userdata.length :=
    valueAt_top (K := w.lua.stack) rfl
  have hlast : (w.lua.userdata ++ [.java obj])[w.lua.userdata.length]? = some (.java obj) := by
    simp
  have hheld : w'.lua.userdata[w.lua.userdata.length]? = some (.java obj) := hlast
  refine ⟨w', (bind_of_ok h).trans rfl, ?_⟩
  rw [htop, getObjectFromUserdata, hheld]

theorem luaType_top {K : Stack} {v : Value} (hw : w.stack = K ++ [v]) :
    luaType w.stack (-1) = v.type := by
  rw [luaType, hw, index2adr_top]
  rfl

theorem pop_run {K : Stack} {v : Value} (hw : w.stack = K ++ [v]) :
    (LuaState.pop 1 : Code σ Unit) w = .ok () (w.setStack K) := by
  have hpop : luaPop w.stack 1 = K := by rw [hw, luaPop_top]
  rw [← hpop]
  rfl

theorem luaPop_set_top (K : Stack) (v u : Value) :
    luaPop ((K ++ [v]).set (absIndex (K ++ [v]) (-1)) u) 1 = K := by
  have habs : absIndex (K ++ [v]) (-1) = K.length := by simp [absIndex]
  rw [habs, List.set_append_right _ _ (Nat.le_refl _), Nat.sub_self]
  exact luaPop_top K u

variable (env) in
/-- `lua_tolstring` changes a number on top into a string. -/
theorem toString_run {K : Stack} {v : Value} (hw : w.stack = K ++ [v]) :
    ∃ str S, LuaState.toString env (-1) w = .ok str (w.setStack S) ∧ luaPop S 1 = K := by
  have hpop : luaPop w.stack 1 = K := by rw [hw, luaPop_top]
  unfold LuaState.toString
  rw [get_bind, valueAt_top hw]
  cases v with
  | number x =>
    have hset := luaPop_set_top K (.number x) (.string (env.numberToString x))
    rw [← hw] at hset
    exact ⟨_, _, rfl, hset⟩
  | string s => exact ⟨_, w.stack, rfl, hpop⟩
  | _ => exact ⟨_, w.stack, rfl, hpop⟩

theorem getObject_run {o : LuaObject} {obj : JavaObject}
    (h : getObjectFromUserdata w.lua (denoted o w) = some obj) :
    (o.getObject : Code σ JavaObject) w = .ok obj w := by
  have hpush : (o.push : Code σ Unit) w = .ok () (w.setStack (w.stack ++ [denoted o w])) := rfl
  have hget : (LuaState.getObjectFromUserdata (-1) : Code σ JavaObject)
      (w.setStack (w.stack ++ [denoted o w])) =
      .ok obj (w.setStack (w.stack ++ [denoted o w])) := by
    have htop := valueAt_top (w := w.setStack (w.stack ++ [denoted o w])) rfl
    have hobj : getObjectFromUserdata (w.setStack (w.stack ++ [denoted o w])).lua (denoted o w) =
      some obj := h
    rw [LuaState.getObjectFromUserdata, get_bind, htop, hobj]
    rfl
  unfold LuaObject.getObject LuaObject.withPushed
  rw [bind_of_ok hpush, bind_of_ok hget, bind_of_ok (pop_run rfl)]
  rfl

/-- A new reference, and nothing else. -/
theorem registerValue_run {idx : Int} {v : Value} (hv : index2adr w.stack idx = some v) :
    LuaObject.registerValue idx w = .ok ⟨w.peer, (w.lua.registry.luaLRef v).1⟩
      (w.setHeap { w.heap with registry := (w.lua.registry.luaLRef v).2 }) := by
  have hpush : (LuaState.pushValue idx : Code σ Unit) w = .ok () (w.setStack (w.stack ++ [v])) := by
    change EStateM.Result.ok () (w.setStack (luaPushvalue w.stack idx)) = _
    rw [luaPushvalue, hv]
    rfl
  have hlref : (LuaState.Lref : Code σ Int) (w.setStack (w.stack ++ [v])) =
      .ok (w.lua.registry.luaLRef v).1
        (w.setHeap { w.heap with registry := (w.lua.registry.luaLRef v).2 }) := by
    have htop := valueAt_top (w := w.setStack (w.stack ++ [v])) rfl
    have hpop : luaPop (w.setStack (w.stack ++ [v])).stack 1 = w.stack := luaPop_top _ _
    simp only [LuaState.Lref, htop, hpop]
    rfl
  rw [LuaObject.registerValue, bind_of_ok hpush, bind_of_ok hlref]
  rfl

theorem ne_nil_of_isObject {L : State} {v : Value} (h : isObject L v = true) : v ≠ .nil := by
  rintro rfl
  cases h

variable (env) in
/-- The exception for an error value: a Java `Throwable` is thrown itself. -/
def Carries (L : State) (e : Value) (t : Thrown) : Prop :=
  ∀ obj, t = .throwable obj ↔ getObjectFromUserdata L e = some obj ∧ env.isThrowable obj

theorem carries_luaException {L : State} {e : Value} (message : Option JString)
    (h : ∀ obj, getObjectFromUserdata L e = some obj → ¬ env.isThrowable obj) :
    Carries env L e (.luaException message) := by
  intro obj
  refine iff_of_false (fun ht => by cases ht) ?_
  rintro ⟨hobj, hthrowable⟩
  exact h obj hobj hthrowable

variable (env) in
/-- The exception is the one that `toString` of the error throws. -/
def ThrownByText (w : World σ) (e : Value) (t : Thrown) : Prop :=
  ∃ obj s, getObjectFromUserdata w.lua e = some obj ∧ env.toString obj w.rest = (.error t, s)

variable (env) in
theorem library_toString (obj : JavaObject) (w : World σ) :
    (answersText env w obj ∧ ∃ str s, library (env.toString obj) w = .ok str ⟨w.lua, s⟩) ∨
      (¬ answersText env w obj ∧ ∃ t s, env.toString obj w.rest = (.error t, s) ∧
        library (env.toString obj) w = .error (.throws t) ⟨w.lua, s⟩) := by
  unfold answersText
  rcases hresult : env.toString obj w.rest with ⟨t | str, s⟩
  · exact Or.inr ⟨Bool.false_ne_true, t, s, rfl, library_throws hresult⟩
  · exact Or.inl ⟨rfl, str, s, library_run hresult⟩

variable (env) in
/-- The object on top is asked for its text before it is popped. -/
theorem callError_object {K : Stack} {e : Value} {obj : JavaObject} (err : Int) (α : Type)
    (hw : w.stack = K ++ [e]) (hget : getObjectFromUserdata w.lua e = some obj) :
    ∃ t w', (LuaObject.callError env err : Code σ α) w = .error (.throws t) w' ∧
      (answersText env w obj → w'.stack = K ∧ Carries env w.lua e t) ∧
      (¬ answersText env w obj → w'.stack = K ++ [e] ∧ ThrownByText env w e t) := by
  have hstring : (LuaState.isString (-1) : Code σ Bool) w = .ok false w := by
    have htype : (decide (luaType w.stack (-1) = .string) ||
        decide (luaType w.stack (-1) = .number)) = false := by
      rw [luaType_top hw]
      cases e with
      | string | number => cases hget
      | _ => rfl
    rw [← htype]
    rfl
  have hisObject : isObject w.lua e = true := by rw [isObject, hget]; rfl
  have hobject : (LuaState.isObject (-1) : Code σ Bool) w = .ok true w := by
    rw [← hisObject, ← valueAt_top hw]
    rfl
  have hindex : index2adr w.stack (-1) = some e := by rw [hw, index2adr_top]
  let w₁ := w.setHeap { w.heap with registry := (w.lua.registry.luaLRef e).2 }
  have hdenoted : denoted ⟨w.peer, (w.lua.registry.luaLRef e).1⟩ w₁ = e :=
    w.lua.registry.rawGetI_luaLRef (ne_nil_of_isObject hisObject)
  have hget₁ : getObjectFromUserdata w₁.lua
      (denoted ⟨w.peer, (w.lua.registry.luaLRef e).1⟩ w₁) = some obj := by
    rw [hdenoted]
    exact hget
  rw [LuaObject.callError, bind_of_ok hstring, if_neg Bool.false_ne_true, bind_of_ok hobject,
    if_pos rfl, bind_of_ok (registerValue_run hindex), bind_of_ok (getObject_run hget₁)]
  obtain ⟨hanswers, str, s, hrun⟩ | ⟨hanswers, t, s, htext, hrun⟩ := library_toString env obj w₁
  · have hpop : (LuaState.pop 1 : Code σ Unit) ⟨w₁.lua, s⟩ =
        .ok () ((⟨w₁.lua, s⟩ : World σ).setStack K) := pop_run hw
    rw [bind_of_ok hrun, bind_of_ok hpop]
    by_cases hthrowable : env.isThrowable obj = true
    · rw [if_pos hthrowable]
      refine ⟨.throwable obj, _, rfl, fun _ => ⟨rfl, fun obj' => ?_⟩,
        fun hno => absurd hanswers hno⟩
      rw [hget]
      constructor
      · rintro ⟨⟩
        exact ⟨rfl, hthrowable⟩
      · rintro ⟨⟨⟩, _⟩
        rfl
    · rw [if_neg hthrowable]
      refine ⟨_, _, rfl, fun _ => ⟨rfl, carries_luaException _ fun obj' hobj' => ?_⟩,
        fun hno => absurd hanswers hno⟩
      rw [hget] at hobj'
      cases hobj'
      exact hthrowable
  · rw [bind_of_error hrun]
    exact ⟨t, _, rfl, fun hyes => absurd hyes hanswers, fun _ => ⟨hw, obj, s, hget, htext⟩⟩

variable (env) in
/-- `callError` pops a text, and an object whose `toString` returns. -/
theorem callError_run {K : Stack} {e : Value} (err : Int) (α : Type) (hw : w.stack = K ++ [e]) :
    ∃ t w', (LuaObject.callError env err : Code σ α) w = .error (.throws t) w' ∧
      (w'.stack = if popsError env w e then K else K ++ [e]) ∧
      (popsError env w e → Carries env w.lua e t) ∧
      (¬ popsError env w e → isObject w.lua e → ThrownByText env w e t) := by
  cases hget : getObjectFromUserdata w.lua e with
  | some obj =>
    obtain ⟨t, w', hrun, hyes, hno⟩ := callError_object env err α hw hget
    have hpops : popsError env w e = answersText env w obj := by
      unfold popsError
      rw [hget, Option.any_some]
      cases e with
      | string | number => cases hget
      | _ => rfl
    refine ⟨t, w', hrun, ?_⟩
    rw [hpops]
    by_cases hanswers : answersText env w obj = true
    · rw [if_pos hanswers]
      exact ⟨(hyes hanswers).1, fun _ => (hyes hanswers).2, fun h => absurd hanswers h⟩
    · rw [if_neg hanswers]
      exact ⟨(hno hanswers).1, fun h => absurd h hanswers, fun _ _ => (hno hanswers).2⟩
  | none =>
    have hno : isObject w.lua e = false := by rw [isObject, hget]; rfl
    have hcarries : ∀ message, Carries env w.lua e (.luaException message) := by
      intro message
      apply carries_luaException
      intro obj hobj
      rw [hget] at hobj
      cases hobj
    have hstring : (LuaState.isString (-1) : Code σ Bool) w =
        .ok (decide (e.type = .string) || decide (e.type = .number)) w := by
      rw [← luaType_top hw]
      rfl
    have hobject : (LuaState.isObject (-1) : Code σ Bool) w = .ok false w := by
      rw [← hno, ← valueAt_top hw]
      rfl
    have hpops : popsError env w e = (decide (e.type = .string) || decide (e.type = .number)) := by
      rw [popsError, hget, Option.any_none, Bool.or_false]
    rw [LuaObject.callError, bind_of_ok hstring, hpops, hno]
    by_cases htext : (decide (e.type = .string) || decide (e.type = .number)) = true
    · rw [if_pos htext, if_pos htext]
      obtain ⟨str, S, hstr, hpop⟩ := toString_run env hw
      have hpopped : (LuaState.pop 1 : Code σ Unit) (w.setStack S) = .ok () (w.setStack K) := by
        rw [← hpop]
        rfl
      rw [bind_of_ok hstr, bind_of_ok hpopped]
      exact ⟨_, _, rfl, rfl, fun _ => hcarries _, fun h => absurd htext h⟩
    · rw [if_neg htext, if_neg htext, bind_of_ok hobject]
      exact ⟨_, w, rfl, hw, fun h => absurd h htext, fun _ h => absurd h Bool.false_ne_true⟩

variable (env) in
theorem getResults_run {K : Stack} {vs : List Value} {top : Nat} {nres : Int}
    (hw : w.stack = K ++ vs)
    (hcount : (if nres = LUA_MULTRET then (w.stack.length : Int) - top else nres) = vs.length)
    (hfound : (vs.length : Int) ≤ w.stack.length - top) :
    LuaObject.getResults env top nres w = .ok (convertAll env.host w.lua vs).1
      { w with lua := { (convertAll env.host w.lua vs).2 with stack := K } } := by
  have htop : (LuaState.getTop : Code σ Nat) w = .ok w.stack.length w := rfl
  rw [LuaObject.getResults, bind_of_ok htop]
  simp only [hcount]
  rw [if_neg (by omega), if_neg (by omega), Int.toNat_natCast, popResults_append env vs [] w hw,
    List.append_nil]

variable (env) in
theorem getResults_throws (w : World σ) (top : Nat) {nres n : Int}
    (hcount : (if nres = LUA_MULTRET then (w.stack.length : Int) - top else nres) = n)
    (hfound : (w.stack.length : Int) - top < n ∨ n < 0) :
    ∃ t, LuaObject.getResults env top nres w = .error (.throws t) w := by
  have htop : (LuaState.getTop : Code σ Nat) w = .ok w.stack.length w := rfl
  rw [LuaObject.getResults, bind_of_ok htop]
  simp only [hcount]
  by_cases hless : (w.stack.length : Int) - top < n
  · rw [if_pos hless]
    exact ⟨_, rfl⟩
  · rw [if_neg hless, if_pos (hfound.resolve_left hless)]
    exact ⟨_, rfl⟩

/-- The world that a protected call leaves. -/
def called (f : Value) (args : List (Option JavaObject)) (nres : Int) (w : World σ)
    (r : Result) (h : Heap σ) : World σ :=
  ((prepared f args w).setStack (below args w ++ returned nres r)).setHeap h

variable (env) in
/-- The end of `call`. -/
def finish (err : Int) (top : Nat) (nres : Int) : Code σ (List (Option JavaObject)) :=
  if err ≠ 0 then LuaObject.callError env err else LuaObject.getResults env top nres

theorem finish_ok (vs : List Value) (top : Nat) (nres : Int) :
    finish env (status (.ok vs)) top nres = LuaObject.getResults env top nres :=
  if_neg (by simp [status])

theorem finish_error (e : Value) (top : Nat) (nres : Int) :
    finish env (status (.error e)) top nres = LuaObject.callError env LUA_ERRRUN :=
  if_pos (by simp [status, LUA_ERRRUN])

theorem call_of_outcome (hcall : callable (denoted o w)) (hargs : Accepted env args) (nres : Int)
    {r : Result} {h : Heap σ} (houtcome : outcome env (denoted o w) args w = some (r, h)) :
    o.call env args nres w =
      finish env (status r) w.stack.length nres (called (denoted o w) args nres w r h) := by
  have hpcall := pcall_run env (denoted o w) args nres w
  rw [houtcome] at hpcall
  rw [LuaObject.call, bind_of_ok (prepareCall_of_accepted hcall hargs), bind_of_ok hpcall]
  rfl

theorem call_hangs (hcall : callable (denoted o w)) (hargs : Accepted env args) (nres : Int)
    (houtcome : outcome env (denoted o w) args w = none) :
    o.call env args nres w = .error .hangs (prepared (denoted o w) args w) := by
  have hpcall := pcall_run env (denoted o w) args nres w
  rw [houtcome] at hpcall
  rw [LuaObject.call, bind_of_ok (prepareCall_of_accepted hcall hargs)]
  exact bind_of_error hpcall

variable (env) in
/-- The function and the arguments are on the stack when they are called, and the stack is as it
was when `call` returns or throws. -/
structure KeepsStack (o : LuaObject) (args : List (Option JavaObject)) (nres : Int)
    (w : World σ) : Prop where
  enough : ∀ top w₁, o.prepareCall env args w = .ok top w₁ → args.length < w₁.stack.length
  same : Ends (o.call env args nres) w (fun _ w' => w'.stack = w.stack)
    (IfThrown fun w' => w'.stack = w.stack)

/-- A state whose references all stand for one function. -/
def functionWorld : World Unit := ⟨⟨1, [.boolean true], ⟨fun _ => .function 0, 1⟩, []⟩, ()⟩

/-- Every key holds one function, which does what is given. -/
def globalVm (result : List Value → Result) : Metatables.Vm (Heap Unit) :=
  { Metatables.Vm.plain with
    rawget := fun _ _ _ => .function 0
    call := fun _ args h => some (result args, h) }

theorem convert_nil (host : Host) (L : State) : (convert host L .nil).1 = none := by
  rw [convert_eq]

theorem getElem?_adjust (nres : Int) (vs : List Value) {i : Nat}
    (hi : i < (adjust nres vs).length) : (adjust nres vs)[i]? = some (vs[i]?.getD .nil) := by
  unfold adjust at hi ⊢
  by_cases hnegative : nres < 0
  · rw [if_pos hnegative] at hi ⊢
    rw [List.getElem?_eq_getElem hi]
    rfl
  · rw [if_neg hnegative] at hi ⊢
    rw [List.length_append, List.length_take, List.length_replicate] at hi
    by_cases hle : i < vs.length
    · rw [List.getElem?_append_left (by rw [List.length_take]; omega),
        List.getElem?_take_of_lt (by omega), List.getElem?_eq_getElem hle]
      rfl
    · rw [List.getElem?_append_right (by rw [List.length_take]; omega),
        List.getElem?_replicate_of_lt (by rw [List.length_take]; omega),
        List.getElem?_eq_none (by omega)]
      rfl

/-- The objects that `call` returns for the values `rs`, which are converted from the state `L`. -/
structure Converted (host : Host) (L : State) (nres : Int) (rs : List Value)
    (res : List (Option JavaObject)) : Prop where
  length : res.length = if nres = LUA_MULTRET then rs.length else nres.toNat
  /-- Those after it have been converted before. -/
  value : ∀ i v, i < res.length → rs[i]? = some v →
    ∃ L', L' = (convertAll host L ((adjust nres rs).drop (i + 1))).2 ∧
      res[i]? = some (Conversion.toJavaObject host (L'.push v) (-1)).1
  padding : ∀ i, rs.length ≤ i → i < res.length → res[i]? = some none

theorem converted_adjust (host : Host) (L : State) {nres : Int}
    (hnres : 0 ≤ nres ∨ nres = LUA_MULTRET) (rs : List Value) :
    Converted host L nres rs (convertAll host L (adjust nres rs)).1 := by
  have hlength := length_convertAll host L (adjust nres rs)
  constructor
  · rw [hlength]
    by_cases hm : nres = LUA_MULTRET
    · rw [if_pos hm, hm, adjust_multret]
    · rw [if_neg hm, length_adjust (hnres.resolve_right hm)]
  · intro i v hi hv
    have hvalue := getElem?_adjust nres rs (hlength ▸ hi)
    rw [hv] at hvalue
    exact ⟨_, rfl, getElem?_convertAll host L hvalue⟩
  · intro i hle hi
    have hvalue := getElem?_adjust nres rs (hlength ▸ hi)
    rw [List.getElem?_eq_none hle] at hvalue
    rw [getElem?_convertAll host L hvalue, Option.getD_none, convert_nil]

theorem below_of_own (hk : foreign w.peer args = 0) : below args w = w.stack := by
  rw [below, hk]
  exact List.take_length

variable (env) in
/-- The end of `call` when nothing has been taken from below. -/
theorem finish_of_below {f : Value} (hbelow : below args w = w.stack) {nres : Int}
    (hnres : 0 ≤ nres ∨ nres = LUA_MULTRET) (rs : List Value) (h : Heap σ) :
    finish env (status (.ok rs)) w.stack.length nres (called f args nres w (.ok rs) h) =
      .ok (convertAll env.host (w.setHeap h).lua (adjust nres rs)).1
        ⟨(convertAll env.host (w.setHeap h).lua (adjust nres rs)).2, h.rest⟩ := by
  have hw : (called f args nres w (.ok rs) h).stack = w.stack ++ adjust nres rs := by
    rw [← hbelow]
    rfl
  have hlua : (called f args nres w (.ok rs) h).lua =
      { (w.setHeap h).lua with stack := w.stack ++ adjust nres rs } := by
    rw [← hw, called, prepared, World.setHeap, World.setStack]
    simp only [pushedAll_peer]
    rfl
  have hcount : (if nres = LUA_MULTRET then
      ((called f args nres w (.ok rs) h).stack.length : Int) - w.stack.length else nres) =
      (adjust nres rs).length := by
    by_cases hm : nres = LUA_MULTRET
    · rw [if_pos hm, hw, List.length_append]
      omega
    · have hpos := hnres.resolve_right hm
      rw [if_neg hm, length_adjust hpos]
      omega
  have hrun := getResults_run env hw hcount (by rw [hw, List.length_append]; omega)
  have hstack : (convertAll env.host (w.setHeap h).lua (adjust nres rs)).2.stack = w.stack :=
    (convertAll_keeps env.host (w.setHeap h).lua (adjust nres rs)).1
  rw [hlua, convertAll_setStack] at hrun
  rw [finish_ok, hrun]
  apply congrArg (EStateM.Result.ok _)
  rw [← hstack]
  rfl

/-- A function is called with the values that are pushed for the arguments, and its results are
returned. Whether the stack has room for them all is left to `CallRoom`. -/
theorem call_transports {vs rs : List Value} {L : State} {h : Heap σ} {nres : Int}
    (hf : (denoted o w).type = .function)
    (hpush : PushedAs env.host (w.lua.push (denoted o w)) args vs L)
    (hnres : 0 ≤ nres ∨ nres = LUA_MULTRET)
    (hcall : env.vm.call (denoted o w) vs ⟨L.registry, L.userdata, w.rest⟩ = some (.ok rs, h)) :
    ∃ res w', o.call env args nres w = .ok res w' ∧ w'.stack = w.stack ∧
      Converted env.host (w.setHeap h).lua nres rs res := by
  obtain ⟨hargs, hforeign, rfl, rfl⟩ := hpush.spec
  have hk : foreign w.peer args = 0 := hforeign
  have hcallable : callable (denoted o w) := by simp [callable, hf]
  have hlength := length_argumentValues (denoted o w) args w
  have houtcome : outcome env (denoted o w) args w = some (.ok rs, h) := by
    have hbase : (prepared (denoted o w) args w).stack.length - args.length - 1 =
        w.stack.length := by
      rw [stack_prepared, List.length_append, List.length_cons]
      omega
    simp only [outcome]
    rw [hbase, stack_prepared, List.getElem?_append_right (Nat.le_refl _), Nat.sub_self,
      List.drop_append, List.drop_of_length_le (Nat.le_succ _), Nat.add_sub_cancel_left]
    exact hcall
  have hstack := (convertAll_keeps env.host (w.setHeap h).lua (adjust nres rs)).1
  rw [call_of_outcome hcallable hargs nres houtcome, finish_of_below env (below_of_own hk) hnres]
  exact ⟨_, _, rfl, hstack, converted_adjust _ _ hnres _⟩

/-- Functions that return what they are given. -/
def echoVm : Metatables.Vm (Heap Unit) :=
  { Metatables.Vm.plain with call := fun _ args h => some (.ok args, h) }

theorem call_transports_echo : ∃ res w',
    (⟨1, 0⟩ : LuaObject).call (Env.plain echoVm fun _ => [])
        [some (.boolean true), none] 3 functionWorld = .ok res w' ∧
      w'.stack = functionWorld.stack ∧
      Converted plainHost (functionWorld.setHeap functionWorld.heap).lua 3 [.boolean true, .nil]
        res :=
  call_transports rfl (.cons rfl rfl (.cons rfl rfl (.nil _))) (Or.inl (by decide)) rfl

end Call

end JLua.Calls
