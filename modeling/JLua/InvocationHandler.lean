import JLua.Accessors

/-!
# The handler of a proxy

A proxy hands each call of a method to the function that its table has under the name of the
method. What the function returns has to be something that the method can return.
-/

namespace JLua

open Accessors Calls Conversion Delivery Metatables OutcomeRules Pushing StackDiscipline
set_option autoImplicit false

variable {σ : Type}

structure LuaInvocationHandler where
  obj : Option LuaObject

namespace LuaInvocationHandler

def isVoid (retType : JavaClass) : Bool := retType = .boxed .void || retType = .primitive .void

def converted (C : ClassTable) (retType : JavaClass) : Option JavaObject → Option JavaObject
  | some (.double db) => convertLuaNumber C db retType
  | ret => ret

/-- The end of `invoke`, with the first of the results of `call`. -/
def callMethod (env : Env σ) (func : LuaObject) (retType : JavaClass)
    (args : List (Option JavaObject)) : Code σ (Option JavaObject) :=
  if isVoid retType then do
    let _ ← func.call env args 0
    return none
  else do
    match ← func.call env args 1 with
    | ret :: _ => return converted env.host.classes retType ret
    | [] => throwJava (.runtimeException "java.lang.ArrayIndexOutOfBoundsException" "0")

/-- `args` that are `null` are no arguments. -/
def invoke (env : Env σ) (handler : LuaInvocationHandler) (method : Method)
    (args : Option (List (Option JavaObject))) : Code σ (Option JavaObject) :=
  match handler.obj with
  | none => return none
  | some obj => do
    let func ← obj.getField env (some method.name)
    if ← func.isNil then return none
    else callMethod env func method.returnType (some obj.toJava :: args.getD [])

/-! ### The field that is looked up -/

section Field
variable {env : Env σ} {o : LuaObject} {name : JString} {w : World σ}

variable (env name) in
theorem getField_eq (o : LuaObject) (w : World σ) : o.getField env (some name) w =
    (if (!indexable (denoted o w)) = true then
      throwLuaException "Object parent should be a table or userdata ."
    else do
      o.push
      LuaState.pushString (some name)
      LuaState.getTable env (-2)
      LuaState.remove (-2)
      let field ← LuaObject.registerValue (-1)
      LuaState.pop 1
      return field : Code σ LuaObject) w := by
  unfold LuaObject.getField LuaObject.ofString LuaObject.ofParent LuaObject.isTable
    LuaObject.isUserdata LuaState.isTable LuaState.isUserdata
  rw [bind_of_ok (withPushed_type _ o w), bind_of_ok (withPushed_type _ o w), not_indexable_eq]

variable (env name) in
theorem getField_refused (h : ¬ indexable (denoted o w)) : ∃ message,
    o.getField env (some name) w = .error (.throws (.luaException (some message))) w := by
  rw [getField_eq, if_pos (by simpa using h)]
  exact ⟨_, rfl⟩

variable (env) in
/-- `lua_gettable` with the table below the key. -/
theorem getTable_run {K : Stack} {t key : Value} (hw : w.stack = K ++ [t] ++ [key]) :
    LuaState.getTable env (-2) w =
      match luaVGettable env.vm t key w.heap with
      | none => .error .hangs w
      | some (.error e, h) => .error (.raises e) (w.setHeap h)
      | some (.ok v, h) => .ok () ((w.setHeap h).setStack (K ++ [t] ++ [v])) := by
  have htop : LuaState.valueAt w (-1) = key := valueAt_top hw
  have hbelow : LuaState.valueAt w (-2) = t := by
    rw [LuaState.valueAt, hw]
    exact congrArg (·.getD .nil) (index2adr_second K t key)
  rw [LuaState.getTable, get_bind, htop, hbelow]
  cases hlooked : luaVGettable env.vm t key w.heap with
  | none =>
    apply bind_of_error
    rw [LuaState.access, hlooked]
  | some r =>
    obtain ⟨result, h⟩ := r
    cases result with
    | error e =>
      apply bind_of_error
      rw [LuaState.access, hlooked]
    | ok v =>
      have hpop : luaPop w.stack 1 ++ [v] = K ++ [t] ++ [v] := by rw [hw, luaPop_top]
      apply (bind_of_ok (LuaState.access_run hlooked)).trans
      exact congrArg (fun S => EStateM.Result.ok () ((w.setHeap h).setStack S)) hpop

variable (env) in
theorem getField_run (h : indexable (denoted o w)) : o.getField env (some name) w =
    match luaVGettable env.vm (denoted o w) (LuaState.luaString name) w.heap with
    | none => .error .hangs
        (w.setStack (w.stack ++ [denoted o w] ++ [LuaState.luaString name]))
    | some (.error e, h) => .error (.raises e)
        ((w.setStack (w.stack ++ [denoted o w] ++ [LuaState.luaString name])).setHeap h)
    | some (.ok f, h) => .ok ⟨w.peer, (h.registry.luaLRef f).1⟩ (registered f (w.setHeap h)) := by
  let w₁ := w.setStack (w.stack ++ [denoted o w] ++ [LuaState.luaString name])
  have hparent : (o.push : Code σ Unit) w = .ok () (w.setStack (w.stack ++ [denoted o w])) := rfl
  have hname : (LuaState.pushString (some name) : Code σ Unit)
      (w.setStack (w.stack ++ [denoted o w])) = .ok () w₁ := rfl
  have hget := getTable_run env (w := w₁) rfl
  have hheap : w₁.heap = w.heap := rfl
  rw [hheap] at hget
  rw [getField_eq, if_neg (by simpa using h), bind_of_ok hparent, bind_of_ok hname]
  cases hlooked : luaVGettable env.vm (denoted o w) (LuaState.luaString name) w.heap with
  | none =>
    rw [hlooked] at hget
    exact bind_of_error hget
  | some r =>
    obtain ⟨result, h⟩ := r
    rw [hlooked] at hget
    cases result with
    | error e => exact bind_of_error hget
    | ok f =>
      have hremove : (LuaState.remove (-2) : Code σ Unit)
          ((w₁.setHeap h).setStack (w.stack ++ [denoted o w] ++ [f])) = .ok ()
          ((w.setHeap h).setStack (w.stack ++ [f])) := by
        have hrest : luaRemove (w.stack ++ [denoted o w] ++ [f]) (-2) = w.stack ++ [f] := by
          rw [List.append_assoc]
          exact luaRemove_second w.stack (denoted o w) f
        exact congrArg (fun S => EStateM.Result.ok () ((w.setHeap h).setStack S)) hrest
      rw [bind_of_ok hget, bind_of_ok hremove]
      exact getLuaObject_run rfl

variable (env) in
/-- The field with this name is the value. -/
def Looks (o : LuaObject) (name : JString) (w : World σ) (f : Value) (h : Heap σ) : Prop :=
  luaVGettable env.vm (denoted o w) (LuaState.luaString name) w.heap = some (.ok f, h)

theorem getField_eq_ok_iff {field : LuaObject} {w' : World σ} :
    o.getField env (some name) w = .ok field w' ↔ indexable (denoted o w) ∧ ∃ f h,
      Looks env o name w f h ∧ field = ⟨w.peer, (h.registry.luaLRef f).1⟩ ∧
        w' = registered f (w.setHeap h) := by
  by_cases hi : indexable (denoted o w) = true
  case neg =>
    obtain ⟨message, hrefused⟩ := getField_refused env name hi
    rw [hrefused]
    exact iff_of_false nofun fun h => hi h.1
  rw [getField_run env hi, and_iff_right hi]
  unfold Looks
  cases luaVGettable env.vm (denoted o w) (LuaState.luaString name) w.heap with
  | none => exact iff_of_false nofun (by rintro ⟨f, h, hlooks, _⟩; cases hlooks)
  | some r =>
    obtain ⟨result, h⟩ := r
    cases result with
    | error e => exact iff_of_false nofun (by rintro ⟨f, h, hlooks, _⟩; cases hlooks)
    | ok f =>
      constructor
      · rintro ⟨⟩
        exact ⟨f, h, rfl, rfl, rfl⟩
      · rintro ⟨f', h', ⟨⟩, rfl, rfl⟩
        rfl

end Field

/-! ### The call -/

section Call
variable {env : Env σ} {o : LuaObject} {f : Value} {args : List (Option JavaObject)} {w : World σ}

theorem below_eq_stack_iff : below args w = w.stack ↔ foreign w.peer args = 0 ∨ w.stack = [] := by
  constructor
  · intro h
    have hlength := congrArg List.length h
    rw [below, List.length_take] at hlength
    by_cases hempty : w.stack = []
    · exact Or.inr hempty
    · have hpos := List.length_pos_of_ne_nil hempty
      omega
  · rintro (h | h)
    · exact below_of_own h
    · rw [below, h, List.take_nil]

/-- A fixed number of results is there unless values from below have been taken. -/
theorem finish_eq_ok_iff {nres : Int} (hn : 0 ≤ nres) {r : Result} {h : Heap σ}
    {res : List (Option JavaObject)} :
    (∃ w', finish env (status r) w.stack.length nres (called f args nres w r h) = .ok res w') ↔
      (foreign w.peer args = 0 ∨ w.stack = []) ∧ ∃ rs, r = .ok rs ∧
        res = (convertAll env.host (w.setHeap h).lua (adjust nres rs)).1 := by
  cases r with
  | error e =>
    have hw : (called f args nres w (.error e) h).stack = below args w ++ [e] := rfl
    obtain ⟨t, w', hrun, _⟩ := callError_run env LUA_ERRRUN (List (Option JavaObject)) hw
    rw [finish_error, hrun]
    apply iff_of_false
    · rintro ⟨_, h⟩
      cases h
    · rintro ⟨_, rs, h, _⟩
      cases h
  | ok rs =>
    have hstack : below args w = w.stack ↔ foreign w.peer args = 0 ∨ w.stack = [] :=
      below_eq_stack_iff
    rw [← hstack]
    by_cases hbelow : below args w = w.stack
    · rw [finish_of_below env hbelow (Or.inl hn), and_iff_right hbelow]
      constructor
      · rintro ⟨_, ⟨⟩⟩
        exact ⟨rs, rfl, rfl⟩
      · rintro ⟨_, ⟨⟩, rfl⟩
        exact ⟨_, rfl⟩
    · have hm : nres ≠ LUA_MULTRET := by
        simp only [LUA_MULTRET]
        omega
      have hless : (below args w).length < w.stack.length := by
        by_contra hnot
        apply hbelow
        rw [below, List.length_take] at hnot
        exact List.take_of_length_le (by omega)
      have hlength : (called f args nres w (.ok rs) h).stack.length =
          (below args w).length + nres.toNat := by
        rw [← length_adjust hn rs, ← List.length_append]
        rfl
      obtain ⟨t, hrun⟩ := getResults_throws env (called f args nres w (.ok rs) h)
        w.stack.length (if_neg hm) (Or.inl (by omega))
      rw [finish_ok, hrun]
      exact iff_of_false (by rintro ⟨_, ⟨⟩⟩) fun h => hbelow h.1

theorem call_eq_ok_iff {nres : Int} (hn : 0 ≤ nres) {res : List (Option JavaObject)} :
    (∃ w', o.call env args nres w = .ok res w') ↔ callable (denoted o w) ∧ Accepted env args ∧
      (foreign w.peer args = 0 ∨ w.stack = []) ∧
        ∃ rs h, outcome env (denoted o w) args w = some (.ok rs, h) ∧
          res = (convertAll env.host (w.setHeap h).lua (adjust nres rs)).1 := by
  by_cases hcall : callable (denoted o w) = true
  case neg =>
    obtain ⟨message, hrefused⟩ : ∃ message, o.prepareCall env args w =
      .error (.throws (.luaException message)) w := prepareCall_of_not_callable hcall
    rw [LuaObject.call, bind_of_error hrefused]
    exact iff_of_false (by rintro ⟨_, ⟨⟩⟩) fun h => hcall h.1
  rw [and_iff_right hcall]
  by_cases hargs : Accepted env args
  case neg =>
    obtain ⟨e, w', hdenied, _⟩ := prepareCall_of_denied hcall hargs
    rw [LuaObject.call, bind_of_error hdenied]
    exact iff_of_false (by rintro ⟨_, ⟨⟩⟩) fun h => hargs h.1
  rw [and_iff_right hargs]
  cases houtcome : outcome env (denoted o w) args w with
  | none =>
    rw [call_hangs hcall hargs nres houtcome]
    exact iff_of_false (by rintro ⟨_, ⟨⟩⟩) (by rintro ⟨_, _, _, ⟨⟩, _⟩)
  | some result =>
    obtain ⟨r, h⟩ := result
    rw [call_of_outcome hcall hargs nres houtcome, finish_eq_ok_iff hn]
    refine and_congr_right fun _ => ⟨?_, ?_⟩
    · rintro ⟨rs, rfl, rfl⟩
      exact ⟨rs, h, rfl, rfl⟩
    · rintro ⟨rs, _, ⟨⟩, rfl⟩
      exact ⟨rs, rfl, rfl⟩

end Call

/-! ### What a method can return -/

/-- Nothing for `void`, a box for a primitive type, and otherwise an instance; or `null` for want of
a value. -/
def Admissible (C : ClassTable) (retType : JavaClass) (absent : Prop) :
    Option JavaObject → Prop
  | none => isVoid retType ∨ retType.isPrimitive = false ∧ absent
  | some obj => isVoid retType = false ∧
    match retType with
    | .primitive p => obj.unboxed = some p
    | c => C.isAssignableFrom c obj.getClass

/-- The class of the object for a value, if there is one. -/
def objectClass (L : State) : Value → Option JavaClass
  | .nil | .thread _ => none
  | .boolean _ => some (.boxed .boolean)
  | .number _ => some (.boxed .double)
  | .string _ => some .string
  | v => some (((getObjectFromUserdata L v).map JavaObject.getClass).getD .luaObject)

def isNumeric (p : Primitive) : Bool :=
  p ∈ [.byte, .short, .int, .long, .float, .double]

/-- A number is converted for a primitive type of numbers, and taken for any supertype of `Number`.
For other types the class itself counts. -/
def takes (C : ClassTable) (retType c : JavaClass) : Bool :=
  match retType with
  | .primitive p => if c = .boxed .double then isNumeric p else c = .boxed p
  | _ => C.isAssignableFrom retType (if c = .boxed .double then .number else c)

/-- What is returned without a value, and for a value. -/
def received (host : Host) (L : State) : Option Value → Option JavaObject
  | none => none
  | some v => (convert host L v).1

theorem unboxed_eq_some_iff {obj : JavaObject} {p : Primitive} :
    obj.unboxed = some p ↔ obj.getClass = .boxed p := by
  cases obj <;> simp [JavaObject.unboxed, JavaObject.getClass]

theorem objectClass_convert (host : Host) (L : State) (v : Value) :
    (convert host L v).1.map JavaObject.getClass = objectClass L v := by
  rw [convert_eq]
  cases v with
  | userdata a =>
    cases hobj : getObjectFromUserdata L (.userdata a) with
    | none =>
      simp only [objectClass, hobj]
      rfl
    | some obj =>
      simp only [objectClass, hobj]
      rfl
  | _ => rfl

theorem isAssignableFrom_double {C : ClassTable} {c : JavaClass}
    (h : C.isAssignableFrom c .number) : C.isAssignableFrom c (.boxed .double) := by
  simp only [ClassTable.isAssignableFrom, ClassTable.supers, Bool.or_eq_true, decide_eq_true_eq,
    List.contains_iff_mem, List.mem_cons, List.not_mem_nil, or_false] at h ⊢
  tauto

theorem convertLuaNumber_of_class {C : ClassTable} {c : JavaClass} (hc : c.isPrimitive = false)
    (db : Double) : convertLuaNumber C db c =
      if C.isAssignableFrom c .number then some (.double db) else none := by
  unfold convertLuaNumber
  rw [hc, if_neg (by simp)]
  by_cases hnumber : C.isAssignableFrom c .number = true
  · rw [if_pos hnumber, if_pos (isAssignableFrom_double hnumber), if_pos hnumber]
  · rw [if_neg hnumber, if_neg hnumber]

theorem convertLuaNumber_of_primitive (C : ClassTable) (p : Primitive) (db : Double) :
    (convertLuaNumber C db (.primitive p)).bind JavaObject.unboxed =
      if isNumeric p then some p else none := by
  cases p <;> rfl

section Converted
variable {C : ClassTable} {retType : JavaClass} {absent : Prop}

theorem admissible_none (hvoid : isVoid retType = false) :
    Admissible C retType absent none ↔ retType.isPrimitive = false ∧ absent := by
  simp [Admissible, hvoid]

theorem admissible_primitive {p : Primitive} (hvoid : isVoid (.primitive p) = false)
    (obj : JavaObject) :
    Admissible C (.primitive p) absent (some obj) ↔ obj.unboxed = some p := by
  simp [Admissible, hvoid]

theorem admissible_class (hvoid : isVoid retType = false) (hc : retType.isPrimitive = false)
    (obj : JavaObject) : Admissible C retType absent (some obj) ↔
      C.isAssignableFrom retType obj.getClass := by
  cases retType with
  | primitive p => cases hc
  | _ => simp [Admissible, hvoid]

theorem takes_class (hc : retType.isPrimitive = false) (c : JavaClass) : takes C retType c =
    C.isAssignableFrom retType (if c = .boxed .double then .number else c) := by
  cases retType with
  | primitive p => cases hc
  | _ => rfl

theorem converted_of_ne {obj : JavaObject} (h : obj.getClass ≠ .boxed .double) :
    converted C retType (some obj) = some obj := by
  cases obj with
  | double db => exact absurd rfl h
  | _ => rfl

theorem admissible_number (hvoid : isVoid retType = false) (hpresent : ¬ absent) (db : Double) :
    Admissible C retType absent (convertLuaNumber C db retType) ↔
      takes C retType (.boxed .double) := by
  cases hc : retType.isPrimitive with
  | false =>
    rw [convertLuaNumber_of_class hc, takes_class hc, if_pos rfl]
    by_cases hnumber : C.isAssignableFrom retType .number = true
    · rw [if_pos hnumber, admissible_class hvoid hc]
      exact iff_of_true (isAssignableFrom_double hnumber) hnumber
    · rw [if_neg hnumber, admissible_none hvoid]
      exact iff_of_false (fun h => hpresent h.2) hnumber
  | true =>
    cases retType with
    | primitive p =>
      have hnumber := convertLuaNumber_of_primitive C p db
      have htakes : takes C (.primitive p) (.boxed .double) = isNumeric p := rfl
      rw [htakes]
      cases hret : convertLuaNumber C db (.primitive p) with
      | none =>
        rw [hret] at hnumber
        rw [admissible_none hvoid]
        refine iff_of_false (fun h => hpresent h.2) fun h => ?_
        rw [if_pos h] at hnumber
        cases hnumber
      | some ret =>
        rw [hret, Option.bind_some] at hnumber
        rw [admissible_primitive hvoid, hnumber]
        simp
    | _ => cases hc

/-- An object can be returned exactly if its class is taken. -/
theorem admissible_converted (hvoid : isVoid retType = false) (hpresent : ¬ absent)
    (obj : JavaObject) : Admissible C retType absent (converted C retType (some obj)) ↔
      takes C retType obj.getClass := by
  by_cases hdouble : obj.getClass = .boxed .double
  · obtain ⟨db, rfl⟩ : ∃ db, obj = .double db := by
      cases obj with
      | double db => exact ⟨db, rfl⟩
      | _ => cases hdouble
    exact admissible_number hvoid hpresent db
  · rw [converted_of_ne hdouble]
    cases hc : retType.isPrimitive with
    | false => rw [admissible_class hvoid hc, takes_class hc, if_neg hdouble]
    | true =>
      cases retType with
      | primitive p =>
        rw [admissible_primitive hvoid, unboxed_eq_some_iff, takes, if_neg hdouble]
        simp
      | _ => cases hc

end Converted

/-! ### Calls of a method -/

section Invoke
variable (env : Env σ) (o : LuaObject) (method : Method)
  (args : Option (List (Option JavaObject))) (w : World σ)

/-- What Lua answers to the call of a method, and the state then: nothing is under the name, or a
function returns. -/
inductive Answers : Option Value → State → Prop
  | missing {h : Heap σ} (ht : indexable (denoted o w))
      (hlooks : Looks env o method.name w .nil h) :
      Answers none (registered .nil (w.setHeap h)).lua
  | returned {f : Value} {h h' : Heap σ} {rs : List Value} (ht : indexable (denoted o w))
      (hlooks : Looks env o method.name w f h) (hf : callable f)
      (hargs : Accepted env (some o.toJava :: args.getD []))
      (hall : foreign w.peer (some o.toJava :: args.getD []) = 0 ∨ w.stack = [])
      (houtcome : outcome env f (some o.toJava :: args.getD []) (registered f (w.setHeap h)) =
        some (.ok rs, h')) :
      Answers (some (rs.headD .nil)) ((registered f (w.setHeap h)).setHeap h').lua

/-- The table has no such function, or it returns nil. -/
def Absent : Prop := ∃ L, Answers env o method args w none L ∨
  Answers env o method args w (some .nil) L

/-- The method returns what it can return, if it returns. -/
def ReturnsAdmissible : Prop := ∀ ret w', invoke env ⟨some o⟩ method args w = .ok ret w' →
  Admissible env.host.classes method.returnType (Absent env o method args w) ret

variable {env o method args w}

theorem Answers.unique {a a' : Option Value} {L L' : State} (h : Answers env o method args w a L)
    (h' : Answers env o method args w a' L') : a' = a ∧ L' = L := by
  cases h with
  | missing ht hlooks =>
    cases h' with
    | missing ht' hlooks' =>
      obtain ⟨⟩ := hlooks.symm.trans hlooks'
      exact ⟨rfl, rfl⟩
    | returned ht' hlooks' hf =>
      obtain ⟨⟩ := hlooks.symm.trans hlooks'
      cases hf
  | returned ht hlooks hf hargs hall houtcome =>
    cases h' with
    | missing ht' hlooks' =>
      obtain ⟨⟩ := hlooks.symm.trans hlooks'
      cases hf
    | returned ht' hlooks' hf' hargs' hall' houtcome' =>
      obtain ⟨⟩ := hlooks.symm.trans hlooks'
      obtain ⟨⟩ := houtcome.symm.trans houtcome'
      exact ⟨rfl, rfl⟩

theorem denoted_field (hkeeps : KeepsOrder env.vm) (hordered : Ordered w.heap) {f : Value}
    {name : JString} {h : Heap σ} (hlooks : Looks env o name w f h) :
    denoted ⟨w.peer, (h.registry.luaLRef f).1⟩ (registered f (w.setHeap h)) = f := by
  have hordered' : Ordered (w.setHeap h).heap := luaVGettable_keeps hkeeps hlooks hordered
  exact denoted_registered hordered' w.peer

theorem isNil_field (hkeeps : KeepsOrder env.vm) (hordered : Ordered w.heap) {f : Value}
    {name : JString} {h : Heap σ} (hlooks : Looks env o name w f h) :
    (LuaObject.isNil ⟨w.peer, (h.registry.luaLRef f).1⟩ : Code σ Bool)
      (registered f (w.setHeap h)) = .ok (decide (f.type = .nil)) (registered f (w.setHeap h)) := by
  have hrun := withPushed_type (fun t : LuaType => decide (t = .nil))
    ⟨w.peer, (h.registry.luaLRef f).1⟩ (registered f (w.setHeap h))
  rw [denoted_field hkeeps hordered hlooks] at hrun
  exact hrun

theorem type_eq_nil_iff {v : Value} : v.type = .nil ↔ v = .nil := by
  cases v <;> simp [Value.type]

theorem callMethod_eq_ok_iff {func : LuaObject} {retType : JavaClass}
    {args : List (Option JavaObject)} {ret : Option JavaObject} :
    (∃ w', callMethod env func retType args w = .ok ret w') ↔
      callable (denoted func w) ∧ Accepted env args ∧ (foreign w.peer args = 0 ∨ w.stack = []) ∧
        ∃ rs h, outcome env (denoted func w) args w = some (.ok rs, h) ∧
          ret = if isVoid retType then none else converted env.host.classes retType
            (received env.host (w.setHeap h).lua (some (rs.headD .nil))) := by
  unfold callMethod
  by_cases hvoid : isVoid retType = true
  · simp only [if_pos hvoid]
    constructor
    · rintro ⟨w', hrun⟩
      obtain ⟨res, w₁, hres, hret⟩ := bind_eq_ok_iff.mp hrun
      obtain ⟨hf, hargs, hall, rs, h, houtcome, _⟩ :=
        (call_eq_ok_iff (Int.le_refl 0)).mp ⟨w₁, hres⟩
      cases hret
      exact ⟨hf, hargs, hall, rs, h, houtcome, rfl⟩
    · rintro ⟨hf, hargs, hall, rs, h, houtcome, rfl⟩
      obtain ⟨w₁, hres⟩ :=
        (call_eq_ok_iff (Int.le_refl 0)).mpr ⟨hf, hargs, hall, rs, h, houtcome, rfl⟩
      exact ⟨w₁, bind_of_ok hres⟩
  · simp only [if_neg hvoid]
    constructor
    · rintro ⟨w', hrun⟩
      obtain ⟨res, w₁, hres, hret⟩ := bind_eq_ok_iff.mp hrun
      obtain ⟨hf, hargs, hall, rs, h, houtcome, rfl⟩ :=
        (call_eq_ok_iff (Int.zero_le_ofNat 1)).mp ⟨w₁, hres⟩
      rw [adjust_one] at hret
      cases hret
      exact ⟨hf, hargs, hall, rs, h, houtcome, rfl⟩
    · rintro ⟨hf, hargs, hall, rs, h, houtcome, rfl⟩
      obtain ⟨w₁, hres⟩ :=
        (call_eq_ok_iff (Int.zero_le_ofNat 1)).mpr ⟨hf, hargs, hall, rs, h, houtcome, rfl⟩
      rw [adjust_one] at hres
      exact ⟨w₁, bind_of_ok hres⟩

/-- `invoke` returns exactly what Lua answers, converted. -/
theorem invoke_eq_ok_iff (hkeeps : KeepsOrder env.vm) (hordered : Ordered w.heap)
    {ret : Option JavaObject} : (∃ w', invoke env ⟨some o⟩ method args w = .ok ret w') ↔
      ∃ a L, Answers env o method args w a L ∧ ret = if isVoid method.returnType then none
        else converted env.host.classes method.returnType (received env.host L a) := by
  unfold invoke
  constructor
  · rintro ⟨w', hrun⟩
    obtain ⟨field, w₁, hfield, hrest⟩ := bind_eq_ok_iff.mp hrun
    obtain ⟨ht, f, h, hlooks, rfl, rfl⟩ := getField_eq_ok_iff.mp hfield
    rw [bind_of_ok (isNil_field hkeeps hordered hlooks)] at hrest
    by_cases hf : f = .nil
    · subst hf
      cases hrest
      exact ⟨none, _, .missing ht hlooks, (ite_self none).symm⟩
    · rw [if_neg (by simpa [type_eq_nil_iff] using hf)] at hrest
      obtain ⟨hcall, hargs, hall, rs, h', houtcome, hret⟩ := callMethod_eq_ok_iff.mp ⟨w', hrest⟩
      rw [denoted_field hkeeps hordered hlooks] at hcall houtcome
      exact ⟨_, _, .returned ht hlooks hcall hargs hall houtcome, hret⟩
  · rintro ⟨a, L, hanswer, rfl⟩
    cases hanswer with
    | @missing h ht hlooks =>
      have hfield := getField_eq_ok_iff.mpr ⟨ht, _, _, hlooks, rfl, rfl⟩
      refine ⟨registered .nil (w.setHeap h), (bind_of_ok hfield).trans ?_⟩
      rw [bind_of_ok (isNil_field hkeeps hordered hlooks), if_pos (by rfl)]
      exact congrArg (fun ret => EStateM.Result.ok ret _) (ite_self none).symm
    | @returned f h h' rs ht hlooks hcall hargs hall houtcome =>
      have hfield := getField_eq_ok_iff.mpr ⟨ht, _, _, hlooks, rfl, rfl⟩
      have hf : f ≠ .nil := by
        rintro rfl
        cases hcall
      have hmethod : ∃ w', callMethod env ⟨w.peer, (h.registry.luaLRef f).1⟩ method.returnType
          (some o.toJava :: args.getD []) (registered f (w.setHeap h)) =
          .ok (if isVoid method.returnType then none
            else converted env.host.classes method.returnType (received env.host
              ((registered f (w.setHeap h)).setHeap h').lua (some (rs.headD .nil)))) w' := by
        rw [callMethod_eq_ok_iff, denoted_field hkeeps hordered hlooks]
        exact ⟨hcall, hargs, hall, rs, h', houtcome, rfl⟩
      obtain ⟨w', hrest⟩ := hmethod
      refine ⟨w', (bind_of_ok hfield).trans ?_⟩
      rw [bind_of_ok (isNil_field hkeeps hordered hlooks),
        if_neg (by simpa [type_eq_nil_iff] using hf)]
      exact hrest

/-- The answer suits the type: no value for a type that is not primitive, or a value whose object
the type takes. -/
def Suits (C : ClassTable) (retType : JavaClass) (L : State) : Option Value → Prop
  | none | some .nil => retType.isPrimitive = false
  | some v => ∃ c, objectClass L v = some c ∧ takes C retType c

theorem admissible_received {C : ClassTable} (host : Host) {retType : JavaClass}
    (hvoid : isVoid retType = false) (L : State) (a : Option Value) :
    Admissible C retType (a = none ∨ a = some .nil) (converted C retType (received host L a)) ↔
      Suits C retType L a := by
  cases a with
  | none => exact (admissible_none hvoid).trans (and_iff_left (Or.inl rfl))
  | some v =>
    have hclass := objectClass_convert host L v
    by_cases hv : v = .nil
    · subst hv
      have hnull : received host L (some .nil) = none := convert_nil host L
      rw [hnull]
      exact (admissible_none hvoid).trans (and_iff_left (Or.inr rfl))
    · have hpresent : ¬ (some v = none ∨ some v = some .nil) := by simpa using hv
      have hsuits : Suits C retType L (some v) ↔
          ∃ c, objectClass L v = some c ∧ takes C retType c := by
        cases v with
        | nil => exact absurd rfl hv
        | _ => rfl
      rw [hsuits, ← hclass, received]
      cases (convert host L v).1 with
      | none =>
        have hnull : converted C retType none = none := rfl
        rw [hnull, admissible_none hvoid]
        simpa using fun _ => hv
      | some obj =>
        rw [admissible_converted hvoid hpresent]
        simp

/-- A method returns what it can return exactly if it is `void` or the answer of Lua suits. -/
theorem returnsAdmissible_iff (hkeeps : KeepsOrder env.vm) (hordered : Ordered w.heap) :
    ReturnsAdmissible env o method args w ↔ isVoid method.returnType ∨
      ∀ a L, Answers env o method args w a L →
        Suits env.host.classes method.returnType L a := by
  have hall : ReturnsAdmissible env o method args w ↔ ∀ a L, Answers env o method args w a L →
      Admissible env.host.classes method.returnType (Absent env o method args w)
        (if isVoid method.returnType then none
          else converted env.host.classes method.returnType (received env.host L a)) := by
    constructor
    · intro hreturns a L hanswer
      obtain ⟨w', hrun⟩ := (invoke_eq_ok_iff hkeeps hordered).mpr ⟨a, L, hanswer, rfl⟩
      exact hreturns _ w' hrun
    · intro hanswers ret w' hrun
      obtain ⟨a, L, hanswer, rfl⟩ := (invoke_eq_ok_iff hkeeps hordered).mp ⟨w', hrun⟩
      exact hanswers a L hanswer
  rw [hall]
  cases hvoid : isVoid method.returnType with
  | true =>
    refine iff_of_true (fun a L _ => ?_) (Or.inl rfl)
    rw [if_pos rfl]
    exact Or.inl hvoid
  | false =>
    rw [or_iff_right (by simp)]
    refine forall₃_congr fun a L hanswer => ?_
    have habsent : Absent env o method args w ↔ a = none ∨ a = some .nil := by
      constructor
      · rintro ⟨L', hnone | hnil⟩
        · exact Or.inl (hnone.unique hanswer).1
        · exact Or.inr (hnil.unique hanswer).1
      · rintro (rfl | rfl)
        · exact ⟨L, Or.inl hanswer⟩
        · exact ⟨L, Or.inr hanswer⟩
    rw [if_neg (by simp), habsent]
    exact admissible_received env.host hvoid L a

end Invoke

/-- A table whose fields are all the function that returns 42. -/
def answerEnv : Env Unit :=
  Env.plain (globalVm fun _ => .ok [.number (.ofInt _ 42)]) fun _ => []

def tableWorld : World Unit :=
  ⟨⟨1, [], ⟨fun i => if i = 1 then .table 0 else .nil, 1⟩, []⟩, ()⟩

def answerMethod (retType : JavaClass) : Method := ⟨"answer", [], retType, .declared 1, false⟩

theorem keepsOrder_globalVm (result : List Value → Result) : KeepsOrder (globalVm result) := by
  rintro f vs h r h' ⟨⟩ hordered
  exact hordered

theorem ordered_tableWorld : Ordered tableWorld.heap := ⟨[], rfl, List.nodup_nil, by simp, rfl⟩

theorem answers_answer (retType : JavaClass) : ∃ L, Answers answerEnv ⟨1, 1⟩
    (answerMethod retType) none tableWorld (some (.number (.ofInt _ 42))) L := by
  have hlooks : Looks answerEnv ⟨1, 1⟩ (answerMethod retType).name tableWorld (.function 0)
    tableWorld.heap := rfl
  have hargs : Accepted answerEnv (some (LuaObject.toJava ⟨1, 1⟩) :: Option.getD none []) := by
    simp [Accepted, denial, LuaObject.toJava]
  exact ⟨_, .returned rfl hlooks rfl hargs (Or.inl rfl) rfl⟩

theorem returnsAdmissible_iff_double :
    ReturnsAdmissible answerEnv ⟨1, 1⟩ (answerMethod (.primitive .double)) none tableWorld := by
  apply (returnsAdmissible_iff (keepsOrder_globalVm _) ordered_tableWorld).mpr
  refine Or.inr fun a L h => ?_
  obtain ⟨L', hanswer⟩ := answers_answer (.primitive .double)
  obtain ⟨rfl, rfl⟩ := hanswer.unique h
  exact ⟨_, rfl, rfl⟩

/-- A method that returns a `String` returns `null` for a number. -/
theorem number_lost :
    ¬ ReturnsAdmissible answerEnv ⟨1, 1⟩ (answerMethod .string) none tableWorld := by
  intro hreturns
  obtain ⟨L, hanswer⟩ := answers_answer .string
  obtain ⟨w', hrun⟩ := (invoke_eq_ok_iff (keepsOrder_globalVm _) ordered_tableWorld).mpr
    ⟨_, L, hanswer, rfl⟩
  have hnull := hreturns _ w' hrun
  have hreceived : received answerEnv.host L (some (.number (.ofInt _ 42))) =
    some (.double (.ofInt _ 42)) := congrArg Prod.fst (convert_eq _ L _)
  rw [hreceived] at hnull
  obtain ⟨_, L', hnone | hnil⟩ := (admissible_none rfl).mp hnull
  · cases (hnone.unique hanswer).1
  · cases (hnil.unique hanswer).1

end LuaInvocationHandler
end JLua
