import JLua.GlobalCalls
import JLua.InvocationHandler

/-!
# Fields of global tables

Java writes a field of a table through an object for the table, and reads it through the name of
the table. The key is pushed both times. A key that becomes a new userdata is another key each
time it is pushed.
-/

namespace JLua.TableFields

open Accessors Calls Conversion Delivery GlobalCalls LuaInvocationHandler Metatables OutcomeRules
  Pushing StackDiscipline
set_option autoImplicit false

variable {σ : Type}

/-! ### Tables -/

/-- Tables without their handlers: an assignment changes one field of one table. A table without a
metatable has no handlers, and neither references nor userdata are kept in tables. -/
structure RawTables (vm : Vm (Heap σ)) (metatable : σ → Nat → Option Nat) : Prop where
  gettmbyobj : ∀ h a event, metatable h.rest a = none → vm.gettmbyobj h (.table a) event = .nil
  metatable_rawset : ∀ h a k v, metatable (vm.rawset h a k v).rest = metatable h.rest
  registry_rawset : ∀ h a k v, (vm.rawset h a k v).registry = h.registry
  userdata_rawset : ∀ h a k v, (vm.rawset h a k v).userdata = h.userdata
  globals_rawset : ∀ h a k v, vm.globals (vm.rawset h a k v) = vm.globals h
  rawget_rawset : ∀ h a k v b j, k ≠ .nil → k ≠ .number .nan →
    vm.rawget (vm.rawset h a k v) b j = if b = a ∧ k.rawEqual j then v else vm.rawget h b j
  rawget_congr : ∀ h h', h'.rest = h.rest → vm.rawget h' = vm.rawget h
  globals_congr : ∀ h h', h'.rest = h.rest → vm.globals h' = vm.globals h

variable {env : Env σ} {metatable : σ → Nat → Option Nat}

theorem tagLoop_done {τ : Type} {overrun : String} {round : Value → Round τ}
    {callTM : Value → Value → Access τ} {s s' : τ} {n : Nat} {t v : Value}
    (h : round t = .done v s') : tagLoop overrun round callTM s (n + 1) t = some (.ok v, s') := by
  rw [tagLoop, h]

theorem luaVGettable_field {h : Heap σ} {a : Nat} {k : Value}
    (hfield : env.vm.rawget h a k ≠ .nil ∨ env.vm.gettmbyobj h (.table a) .index = .nil) :
    luaVGettable env.vm (.table a) k h = some (.ok (env.vm.rawget h a k), h) := by
  have hround : getRound env.vm h k (.table a) = .done (env.vm.rawget h a k) h := if_pos hfield
  exact tagLoop_done (n := 99) hround

theorem luaVSettable_field {h : Heap σ} {a : Nat} {k : Value} (v : Value) (hnil : k ≠ .nil)
    (hnan : k ≠ .number .nan) (hplain : env.vm.gettmbyobj h (.table a) .newindex = .nil) :
    luaVSettable env.vm (.table a) k v h = some (.ok .nil, env.vm.rawset h a k v) := by
  have hround : setRound env.vm h k v (.table a) = .done .nil (env.vm.rawset h a k v) := by
    rw [setRound, if_neg hnil, if_neg hnan]
    exact if_pos (.inr hplain)
  exact tagLoop_done (n := 99) hround

variable (env metatable) in
/-- The name is that of the table `a` among the global variables, which are in the table `g`. The
table has no metatable, and no field under a userdata that is still to come. -/
structure Bound (name : JString) (g a : Nat) (w : World σ) : Prop where
  globals : env.vm.globals w.heap = .table g
  entry : env.vm.rawget w.heap g (LuaState.luaString name) = .table a
  plain : metatable w.rest a = none
  fresh : ∀ n, w.lua.userdata.length ≤ n → env.vm.rawget w.heap a (.userdata n) = .nil

variable {name : JString} {g a : Nat} {w : World σ} {k v : Option JavaObject}

theorem Bound.finds (h : Bound env metatable name g a w) :
    Finds env name w (.table a) w.heap := by
  have hentry : env.vm.rawget w.heap g (LuaState.luaString name) ≠ .nil := by
    rw [h.entry]
    nofun
  unfold Finds
  rw [h.globals, luaVGettable_field (.inl hentry), h.entry]

/-! ### The write -/

/-- An object that is pushed as one value: nothing denies it, and it is no object of another
state. -/
structure Pushable (env : Env σ) (peer : Nat) (obj : Option JavaObject) : Prop where
  accepted : denial env.host obj = none
  own : isOwn peer obj

def afterPush (w : World σ) (obj : Option JavaObject) : World σ :=
  { w with lua := pushed w.lua obj }

theorem Pushable.run {obj : Option JavaObject} (h : Pushable env w.peer obj) :
    LuaState.pushObjectValue env obj w = .ok () (afterPush w obj) := by
  have hpush := pushObjectValue_run env obj w
  rw [h.accepted] at hpush
  exact hpush

theorem Pushable.stack {obj : Option JavaObject} (h : Pushable env w.peer obj) :
    (afterPush w obj).stack = w.stack ++ [image w.lua obj] :=
  (stack_pushed w.lua obj).trans (congrArg (w.stack ++ ·) (if_pos h.own))

theorem peer_afterPush (w : World σ) (obj : Option JavaObject) :
    (afterPush w obj).peer = w.peer := pushed_peer w.lua obj

theorem setTable_run {K : Stack} {t key val u : Value} {h : Heap σ}
    (hw : w.stack = K ++ [t] ++ [key] ++ [val])
    (hset : luaVSettable env.vm t key val w.heap = some (.ok u, h)) :
    LuaState.setTable env (-3) w = .ok () ((w.setHeap h).setStack (K ++ [t])) := by
  have ht : LuaState.valueAt w (-3) = t := by
    rw [LuaState.valueAt, hw]
    simp [index2adr, absIndex]
  have hkey : LuaState.valueAt w (-2) = key := by
    rw [LuaState.valueAt, hw]
    exact congrArg (·.getD .nil) (index2adr_second (K ++ [t]) key val)
  have hpop : luaPop w.stack 2 = K ++ [t] := by
    rw [hw, List.append_assoc]
    exact luaPop_append_length _ [key, val]
  rw [LuaState.setTable, get_bind, ht, hkey, valueAt_top hw]
  apply (bind_of_ok (LuaState.access_run hset)).trans
  exact congrArg (fun S => EStateM.Result.ok () ((w.setHeap h).setStack S)) hpop

/-- The state of the world before the assignment, with the table, the key and the value pushed. -/
def assigning (a : Nat) (k v : Option JavaObject) (w : World σ) : World σ :=
  afterPush (afterPush (w.setStack (w.stack ++ [.table a])) k) v

theorem setTableField_run (laws : RawTables env.vm metatable) {table : LuaObject}
    (htable : denoted table w = .table a) (hpeer : table.peer = w.peer)
    (hplain : metatable w.rest a = none) (hk : Pushable env w.peer k)
    (hv : Pushable env w.peer v) (hnil : image w.lua k ≠ .nil)
    (hnan : image w.lua k ≠ .number .nan) :
    Lua.setTableField (Lua.state env) table k v w = .ok ()
      (((assigning a k v w).setHeap (env.vm.rawset (assigning a k v w).heap a (image w.lua k)
        (image (pushed w.lua k) v))).setStack w.stack) := by
  let w₀ := w.setStack (w.stack ++ [.table a])
  let wₖ := afterPush w₀ k
  have hisTable : (Lua.state env).objectIsTable table w = .ok true w := by
    have htype := withPushed_type (fun t : LuaType => decide (t = .table)) table w
    rw [htable] at htype
    exact htype
  have hpush : (Lua.state env).pushObjectValue ((Lua.state env).object table) w = .ok () w₀ := by
    have hrun := pushObject_run env hpeer
    rw [htable] at hrun
    exact hrun
  have hkey : (Lua.state env).pushObjectValue k w₀ = .ok () wₖ := Pushable.run (w := w₀) hk
  have hvₖ : Pushable env wₖ.peer v := by
    rw [peer_afterPush]
    exact hv
  have hvalue : (Lua.state env).pushObjectValue v wₖ = .ok () (assigning a k v w) := hvₖ.run
  have hstack : (assigning a k v w).stack = w.stack ++ [.table a] ++ [image w.lua k] ++
      [image (pushed w.lua k) v] := by
    have himage : image wₖ.lua v = image (pushed w.lua k) v := by
      apply image_congr
      · exact (pushed_registry w₀.lua k).trans (pushed_registry w.lua k).symm
      · exact (userdata_pushed w₀.lua k).trans (userdata_pushed w.lua k).symm
    have hsame := hvₖ.stack
    rw [himage, Pushable.stack (w := w₀) hk] at hsame
    exact hsame
  have hset : luaVSettable env.vm (.table a) (image w.lua k) (image (pushed w.lua k) v)
      (assigning a k v w).heap = some (.ok .nil, env.vm.rawset (assigning a k v w).heap a
        (image w.lua k) (image (pushed w.lua k) v)) :=
    luaVSettable_field _ hnil hnan (laws.gettmbyobj _ a .newindex hplain)
  rw [Lua.setTableField, bind_of_ok hisTable]
  apply (bind_of_ok hpush).trans
  apply (bind_of_ok hkey).trans
  apply (bind_of_ok hvalue).trans
  apply (bind_of_ok (setTable_run hstack hset)).trans
  exact pop_run rfl

/-! ### The read -/

/-- The world with the table and the key pushed. -/
def reading (a : Nat) (k : Option JavaObject) (w : World σ) : World σ :=
  afterPush (w.setStack (w.stack ++ [.table a])) k

theorem getGlobalTableField_run (laws : RawTables env.vm metatable)
    (hfinds : Finds env name w (.table a) w.heap) (hplain : metatable w.rest a = none)
    (hk : Pushable env w.peer k) :
    Lua.getGlobalTableField (Lua.state env) name k w =
      .ok ⟨w.peer, (w.lua.registry.luaLRef (env.vm.rawget w.heap a (image w.lua k))).1⟩
        ((registered (env.vm.rawget w.heap a (image w.lua k)) (reading a k w)).setStack
          w.stack) := by
  let w₀ := w.setStack (w.stack ++ [.table a])
  let x := env.vm.rawget w.heap a (image w.lua k)
  have hglobal : (Lua.state env).getGlobal name w = .ok () w₀ := hfinds.getGlobal
  have hisTable : (Lua.state env).isTable (-1) w₀ = .ok true w₀ := by
    have htype := luaType_top (w := w₀) (v := .table a) rfl
    exact congrArg (fun t => EStateM.Result.ok (decide (t = .table)) w₀) htype
  have hkey : (Lua.state env).pushObjectValue k w₀ = .ok () (reading a k w) :=
    Pushable.run (w := w₀) hk
  have hstack : (reading a k w).stack = w.stack ++ [.table a] ++ [image w.lua k] :=
    Pushable.stack (w := w₀) hk
  have hrest : env.vm.rawget (reading a k w).heap = env.vm.rawget w.heap :=
    laws.rawget_congr _ _ rfl
  have hget : (Lua.state env).getTable (-2) (reading a k w) =
      .ok () ((reading a k w).setStack (w.stack ++ [.table a] ++ [x])) := by
    have hrun := getTable_run env hstack
    rw [luaVGettable_field (.inr (laws.gettmbyobj _ a .index hplain)), hrest] at hrun
    exact hrun
  let w₂ := (reading a k w).setStack (w.stack ++ [.table a] ++ [x])
  have hindex : index2adr w₂.stack (-1) = some x := index2adr_top _ _
  have hregister : (Lua.state env).getLuaObject (-1) w₂ =
      .ok ⟨w₂.peer, (w₂.lua.registry.luaLRef x).1⟩ (registered x w₂) := registerValue_run hindex
  have hregistry : w₂.lua.registry = w.lua.registry := pushed_registry w₀.lua k
  have hpeer : w₂.peer = w.peer := peer_afterPush w₀ k
  have hpop : (Lua.state env).pop 2 (registered x w₂) =
      .ok () ((registered x w₂).setStack w.stack) := by
    have hrest : luaPop (registered x w₂).stack 2 = w.stack := by
      have happend : (registered x w₂).stack = w.stack ++ [.table a, x] :=
        List.append_assoc w.stack [.table a] [x]
      rw [happend]
      exact luaPop_append_length _ [.table a, x]
    exact congrArg (fun S => EStateM.Result.ok () ((registered x w₂).setStack S)) hrest
  rw [hregistry, hpeer] at hregister
  rw [Lua.getGlobalTableField, bind_of_ok hglobal, bind_of_ok hisTable]
  apply (bind_of_ok hkey).trans
  apply (bind_of_ok hget).trans
  apply (bind_of_ok hregister).trans
  apply (bind_of_ok hpop).trans
  rfl

/-! ### The write before the read -/

/-- A key becomes the same value each time, or a new userdata. -/
theorem image_cases (obj : Option JavaObject) :
    (held obj = [] ∧ ∀ L L' : State, L'.registry = L.registry → image L' obj = image L obj) ∨
      held obj ≠ [] ∧ ∀ L : State, image L obj = .userdata L.userdata.length := by
  cases obj with
  | none => exact .inl ⟨rfl, fun _ _ _ => rfl⟩
  | some o =>
    cases o with
    | luaObject peer ref =>
      refine .inl ⟨rfl, fun L L' hregistry => ?_⟩
      change L'.registry.rawGetI ref = L.registry.rawGetI ref
      rw [hregistry]
    | boolean | byte | short | integer | long | float | double | otherNumber | string =>
      exact .inl ⟨rfl, fun _ _ _ => rfl⟩
    | _ => exact .inr ⟨nofun, fun _ => rfl⟩

theorem ordered_registered {u : Value} (h : Ordered w.heap) : Ordered (registered u w).heap := by
  obtain ⟨free, hsound⟩ := h
  obtain ⟨free', hsound', _⟩ := hsound.luaLRef u
  exact ⟨free', hsound'⟩

/-- What the key is when it is pushed for the write, and what the value is. -/
def keyOf (a : Nat) (k : Option JavaObject) (w : World σ) : Value :=
  image (registered (.table a) w).lua k

def valueOf (a : Nat) (k v : Option JavaObject) (w : World σ) : Value :=
  image (pushed (registered (.table a) w).lua k) v

variable (env) in
/-- `setTableField(getGlobal(name), key, value)` -/
def setGlobalTableField (name : JString) (key value : Option JavaObject) : Code σ Unit := do
  let table ← Lua.getGlobal (Lua.state env) name
  Lua.setTableField (Lua.state env) table key value

/-- The world after the write. -/
def written (env : Env σ) (a : Nat) (k v : Option JavaObject) (w : World σ) : World σ :=
  let w₁ := assigning a k v (registered (.table a) w)
  (w₁.setHeap (env.vm.rawset w₁.heap a (keyOf a k w) (valueOf a k v w))).setStack w.stack

theorem setGlobalTableField_run (laws : RawTables env.vm metatable)
    (h : Bound env metatable name g a w) (hk : Pushable env w.peer k) (hv : Pushable env w.peer v)
    (hnil : keyOf a k w ≠ .nil) (hnan : keyOf a k w ≠ .number .nan) :
    setGlobalTableField env name k v w = .ok () (written env a k v w) := by
  have hglobal : Lua.getGlobal (Lua.state env) name w =
      .ok ⟨w.peer, (w.lua.registry.luaLRef (.table a)).1⟩ (registered (.table a) w) :=
    (bind_of_ok h.finds.getGlobal).trans (getLuaObject_run rfl)
  have htable : denoted ⟨w.peer, (w.lua.registry.luaLRef (.table a)).1⟩
      (registered (.table a) w) = .table a := w.lua.registry.rawGetI_luaLRef nofun
  rw [setGlobalTableField, bind_of_ok hglobal]
  exact setTableField_run laws (w := registered (.table a) w) htable rfl h.plain hk hv hnil hnan

@[simp] theorem peer_written : (written env a k v w).peer = w.peer :=
  (pushed_peer _ v).trans (pushed_peer _ k)

section Written
variable (laws : RawTables env.vm metatable)
include laws

theorem rawget_written (hnil : keyOf a k w ≠ .nil) (hnan : keyOf a k w ≠ .number .nan) (b : Nat)
    (j : Value) : env.vm.rawget (written env a k v w).heap b j =
      if b = a ∧ (keyOf a k w).rawEqual j then valueOf a k v w else env.vm.rawget w.heap b j := by
  let h := (assigning a k v (registered (.table a) w)).heap
  have hbefore : env.vm.rawget h = env.vm.rawget w.heap := laws.rawget_congr _ _ rfl
  have hafter : env.vm.rawget (written env a k v w).heap =
      env.vm.rawget (env.vm.rawset h a (keyOf a k w) (valueOf a k v w)) :=
    laws.rawget_congr _ _ rfl
  rw [hafter, laws.rawget_rawset _ _ _ _ _ _ hnil hnan, hbefore]

theorem registry_written : (written env a k v w).lua.registry =
    (registered (.table a) w).lua.registry := by
  apply (laws.registry_rawset _ _ _ _).trans
  exact (pushed_registry _ v).trans (pushed_registry _ k)

theorem userdata_written (hk : isOwn w.peer k) (hv : isOwn w.peer v) :
    (written env a k v w).lua.userdata = w.lua.userdata ++ held k ++ held v := by
  let w₀ := (registered (.table a) w).setStack (w.stack ++ [.table a])
  have hfirst : (afterPush w₀ k).lua.userdata = w.lua.userdata ++ held k := by
    have hpushed := userdata_pushed w₀.lua k
    rw [if_pos (show isOwn w₀.lua.peer k from hk)] at hpushed
    exact hpushed
  have hpeer : isOwn (afterPush w₀ k).lua.peer v := by
    rw [show (afterPush w₀ k).lua.peer = w.peer from peer_afterPush w₀ k]
    exact hv
  have hsecond := userdata_pushed (afterPush w₀ k).lua v
  rw [if_pos hpeer, hfirst] at hsecond
  exact (laws.userdata_rawset _ _ _ _).trans hsecond

/-- The name still stands for the table, unless it has been assigned another value. -/
theorem finds_written (h : Bound env metatable name g a w) (hnil : keyOf a k w ≠ .nil)
    (hnan : keyOf a k w ≠ .number .nan)
    (hname : g = a → (keyOf a k w).rawEqual (LuaState.luaString name) = false) :
    Finds env name (written env a k v w) (.table a) (written env a k v w).heap := by
  have hglobals : env.vm.globals (written env a k v w).heap = .table g := by
    let h₁ := (assigning a k v (registered (.table a) w)).heap
    have hafter : env.vm.globals (written env a k v w).heap =
        env.vm.globals (env.vm.rawset h₁ a (keyOf a k w) (valueOf a k v w)) :=
      laws.globals_congr _ _ rfl
    have hbefore : env.vm.globals h₁ = env.vm.globals w.heap := laws.globals_congr _ _ rfl
    rw [hafter, laws.globals_rawset, hbefore, h.globals]
  have hentry : env.vm.rawget (written env a k v w).heap g (LuaState.luaString name) =
      .table a := by
    rw [rawget_written laws hnil hnan, if_neg, h.entry]
    rintro ⟨hg, hequal⟩
    rw [hname hg] at hequal
    cases hequal
  unfold Finds
  rw [hglobals, luaVGettable_field (.inl (by rw [hentry]; nofun)), hentry]

/-- Pushed again, the key is the same value, or one under which the table has nothing. -/
theorem key_again (h : Bound env metatable name g a w) (hk : isOwn w.peer k) (hv : isOwn w.peer v)
    (hnil : keyOf a k w ≠ .nil) (hnan : keyOf a k w ≠ .number .nan) :
    (held k = [] ∧ image (written env a k v w).lua k = keyOf a k w) ∨
      held k ≠ [] ∧ (keyOf a k w).rawEqual (image (written env a k v w).lua k) = false ∧
        env.vm.rawget (written env a k v w).heap a (image (written env a k v w).lua k) = .nil := by
  let w₁ := written env a k v w
  rcases image_cases k with ⟨hheld, hsame⟩ | ⟨hheld, hfresh⟩
  · exact .inl ⟨hheld, hsame _ _ (registry_written laws)⟩
  · refine .inr ⟨hheld, ?_⟩
    have hkey : keyOf a k w = .userdata w.lua.userdata.length := hfresh _
    have hagain := hfresh w₁.lua
    have hlater : w.lua.userdata.length < w₁.lua.userdata.length := by
      rw [userdata_written laws hk hv, List.length_append, List.length_append]
      have hpos := List.length_pos_of_ne_nil hheld
      omega
    have hne : (keyOf a k w).rawEqual (image w₁.lua k) = false := by
      rw [hkey, hagain]
      simp only [Value.rawEqual, Value.userdata.injEq, decide_eq_false_iff_not]
      omega
    have hother : ¬ (a = a ∧ (keyOf a k w).rawEqual (image w₁.lua k) = true) := by simp [hne]
    refine ⟨hne, ?_⟩
    change env.vm.rawget w₁.heap a (image w₁.lua k) = .nil
    rw [rawget_written laws hnil hnan, if_neg hother, hagain]
    exact h.fresh _ hlater.le

variable (a k v) in
theorem ordered_reading (hordered : Ordered w.heap) :
    Ordered (reading a k (written env a k v w)).heap := by
  obtain ⟨free, hsound⟩ := ordered_registered (u := .table a) hordered
  have hregistry : (reading a k (written env a k v w)).lua.registry =
      (registered (.table a) w).lua.registry :=
    (pushed_registry _ k).trans (registry_written laws)
  refine ⟨free, ?_⟩
  rw [show (reading a k (written env a k v w)).heap.registry = _ from hregistry]
  exact hsound

end Written

variable (env name a k v w) in
/-- A write and then a read through the same key. The read finds the value if the key becomes the
same value again, and otherwise nothing; no other field of any table is changed. -/
structure ReadAfterWrite (w₁ w₂ : World σ) (o : LuaObject) : Prop where
  writes : setGlobalTableField env name k v w = .ok () w₁
  reads : Lua.getGlobalTableField (Lua.state env) name k w₁ = .ok o w₂
  finds : denoted o w₂ = if held k = [] then valueOf a k v w else .nil
  field : env.vm.rawget w₁.heap a (keyOf a k w) = valueOf a k v w
  frame : ∀ b j, b ≠ a ∨ (keyOf a k w).rawEqual j = false →
    env.vm.rawget w₁.heap b j = env.vm.rawget w.heap b j
  sameKey : (keyOf a k w).rawEqual (image w₁.lua k) ↔ held k = []

theorem read_after_write (laws : RawTables env.vm metatable) (hordered : Ordered w.heap)
    (h : Bound env metatable name g a w) (hk : Pushable env w.peer k) (hv : Pushable env w.peer v)
    (hnil : keyOf a k w ≠ .nil) (hnan : keyOf a k w ≠ .number .nan)
    (hname : g = a → (keyOf a k w).rawEqual (LuaState.luaString name) = false) :
    ∃ w₁ w₂ o, ReadAfterWrite env name a w k v w₁ w₂ o := by
  let w₁ := written env a k v w
  let x := env.vm.rawget w₁.heap a (image w₁.lua k)
  have hplain : metatable w₁.rest a = none := by
    have hmetatable : metatable w₁.rest = metatable w.rest := laws.metatable_rawset _ _ _ _
    rw [hmetatable]
    exact h.plain
  have hk₁ : Pushable env w₁.peer k := by
    rw [peer_written]
    exact hk
  have hread := getGlobalTableField_run laws (finds_written laws h hnil hnan hname) hplain hk₁
  have hself : (keyOf a k w).rawEqual (keyOf a k w) = true :=
    (Value.rawEqual_self_iff _).mpr hnan
  have hcases := key_again laws (v := v) h hk.own hv.own hnil hnan
  refine ⟨w₁, _, _, setGlobalTableField_run laws h hk hv hnil hnan, hread, ?_, ?_, ?_, ?_⟩
  · have hdenoted := denoted_registered (v := x) (ordered_reading a k v laws hordered) w₁.peer
    have hregistry : (reading a k w₁).lua.registry = w₁.lua.registry := pushed_registry _ k
    rw [hregistry] at hdenoted
    apply hdenoted.trans
    change env.vm.rawget w₁.heap a (image w₁.lua k) = _
    rcases hcases with ⟨hheld, hsame⟩ | ⟨hheld, _, hnone⟩
    · rw [if_pos hheld, hsame, rawget_written laws hnil hnan, if_pos ⟨rfl, hself⟩]
    · rw [if_neg hheld, hnone]
  · rw [rawget_written laws hnil hnan, if_pos ⟨rfl, hself⟩]
  · intro b j hj
    rw [rawget_written laws hnil hnan, if_neg]
    rintro ⟨hb, hequal⟩
    rcases hj with hj | hj
    · exact hj hb
    · rw [hj] at hequal
      cases hequal
  · rcases hcases with ⟨hheld, hsame⟩ | ⟨hheld, hne, _⟩
    · rw [hsame]
      exact iff_of_true hself hheld
    · rw [hne]
      exact iff_of_false Bool.false_ne_true hheld

/-! ### Keys in a small world -/

/-- Every table is a function from keys to values, and none has a metatable. -/
def tablesVm : Vm (Heap (Nat → Value → Value)) where
  globals _ := .table 0
  rawget h a k := h.rest a k
  rawset h a k v :=
    { h with rest := fun b j => if b = a ∧ k.rawEqual j then v else h.rest b j }
  gettmbyobj _ _ _ := .nil
  newtable h := (2, h)
  call _ _ h := some (.ok [], h)

theorem rawTables_tablesVm : RawTables tablesVm fun _ _ => none where
  gettmbyobj _ _ _ _ := rfl
  metatable_rawset _ _ _ _ := rfl
  registry_rawset _ _ _ _ := rfl
  userdata_rawset _ _ _ _ := rfl
  globals_rawset _ _ _ _ := rfl
  rawget_rawset _ _ _ _ _ _ _ _ := rfl
  rawget_congr _ _ hrest := congrArg (fun t a k => t a k) hrest
  globals_congr _ _ _ := rfl

def tablesEnv : Env (Nat → Value → Value) := .plain tablesVm fun _ => []

/-- Every global variable is the table 1, which has no field. -/
def tablesWorld : World (Nat → Value → Value) :=
  ⟨⟨1, [], ⟨fun _ => .nil, 0⟩, []⟩, fun a _ => if a = 0 then .table 1 else .nil⟩

theorem bound_tablesWorld (name : JString) :
    Bound tablesEnv (fun _ _ => none) name 0 1 tablesWorld where
  globals := rfl
  entry := rfl
  plain := rfl
  fresh _ _ := rfl

theorem ordered_tablesWorld : Ordered tablesWorld.heap :=
  ⟨[], rfl, List.nodup_nil, by simp, rfl⟩

theorem read_after_write_boolean : ∃ w₁ w₂ o, ReadAfterWrite tablesEnv [] 1 tablesWorld
    (some (.boolean true)) (some (.string [])) w₁ w₂ o :=
  read_after_write rawTables_tablesVm ordered_tablesWorld (bound_tablesWorld []) ⟨rfl, rfl⟩
    ⟨rfl, rfl⟩ nofun nofun nofun

/-- A plain object that is written as a key is not found again. -/
theorem object_key_reads_nil : ∃ w₁ w₂ o,
    setGlobalTableField tablesEnv [] (some (.object 1 0)) (some (.boolean true)) tablesWorld =
      .ok () w₁ ∧
    Lua.getGlobalTableField (Lua.state tablesEnv) [] (some (.object 1 0)) w₁ = .ok o w₂ ∧
    denoted o w₂ = .nil ∧ valueOf 1 (some (.object 1 0)) (some (.boolean true)) tablesWorld =
      .boolean true := by
  refine ⟨_, _, _, rfl, rfl, rfl, rfl⟩

end JLua.TableFields
