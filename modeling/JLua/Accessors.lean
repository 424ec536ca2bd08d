import JLua.Calls
import JLua.References

/-!
# What the accessors leave on the stack

An accessor pushes the object it belongs to and pops it again. A helper that pushes objects from
outside gives back what it has pushed only if they are all there.
-/

namespace JLua.Accessors

open Calls Conversion Delivery Metatables OutcomeRules Pushing StackDiscipline
set_option autoImplicit false

variable {σ α β : Type}

/-! ### Looking at an object -/

/-- Code that returns and changes nothing. -/
def Silent (c : Code σ α) : Prop := ∀ w, ∃ a, c w = .ok a w

theorem Silent.bind {c : Code σ α} {f : α → Code σ β} (hc : Silent c) (hf : ∀ a, Silent (f a)) :
    Silent (c >>= f) := by
  intro w
  obtain ⟨a, ha⟩ := hc w
  obtain ⟨b, hb⟩ := hf a w
  exact ⟨b, (bind_of_ok ha).trans hb⟩

theorem silent_pure (a : α) : Silent (pure a : Code σ α) := fun _ => ⟨a, rfl⟩

theorem silent_ite {p : Prop} [Decidable p] {c d : Code σ α} (hc : Silent c) (hd : Silent d) :
    Silent (if p then c else d) := by
  split
  · exact hc
  · exact hd

/-- What a look does to the copy on top is popped with it. -/
theorem withPushed_run {look : Code σ α} {o : LuaObject} {w : World σ} {a : α} {S : Stack}
    (hlook : look (w.setStack (w.stack ++ [denoted o w])) = .ok a (w.setStack S))
    (hpop : luaPop S 1 = w.stack) : o.withPushed look w = .ok a w := by
  have hpush : (o.push : Code σ Unit) w = .ok () (w.setStack (w.stack ++ [denoted o w])) := rfl
  have hpopped : (LuaState.pop 1 : Code σ Unit) (w.setStack S) = .ok () w := by
    change EStateM.Result.ok () (w.setStack (luaPop S 1)) = _
    rw [hpop]
    rfl
  rw [LuaObject.withPushed, bind_of_ok hpush, bind_of_ok hlook, bind_of_ok hpopped]
  rfl

theorem withPushed_ask (f : World σ → α) (o : LuaObject) (w : World σ) :
    o.withPushed (LuaState.ask f) w = .ok (f (w.setStack (w.stack ++ [denoted o w]))) w :=
  withPushed_run rfl (luaPop_top _ _)

theorem silent_ask (f : World σ → α) (o : LuaObject) : Silent (o.withPushed (LuaState.ask f)) :=
  fun w => ⟨_, withPushed_ask f o w⟩

theorem silent_type (f : LuaType → α) (o : LuaObject) :
    Silent (o.withPushed (f <$> LuaState.type (-1) : Code σ α)) :=
  fun w => ⟨_, withPushed_type f o w⟩

variable (env : Env σ)

theorem silent_getString (o : LuaObject) : Silent (o.getString env) := by
  intro w
  obtain ⟨str, S, hstr, hpop⟩ := toString_run env
    (w := w.setStack (w.stack ++ [denoted o w])) (K := w.stack) rfl
  exact ⟨str, withPushed_run hstr hpop⟩

theorem isJavaObject_run (o : LuaObject) (w : World σ) :
    (o.isJavaObject : Code σ Bool) w = .ok (isObject w.lua (denoted o w)) w := by
  have htop := valueAt_top (w := w.setStack (w.stack ++ [denoted o w])) rfl
  refine (withPushed_ask _ o w).trans ?_
  rw [htop]
  rfl

variable {env} in
/-- A Java object is asked for its own text. -/
theorem text_of_object {o : LuaObject} {w : World σ} {obj : JavaObject}
    (hget : getObjectFromUserdata w.lua (denoted o w) = some obj) :
    o.text env w = library (env.toString obj) w := by
  obtain ⟨a, ha⟩ : ∃ a, denoted o w = .userdata a := by
    cases hv : denoted o w with
    | userdata a => exact ⟨a, rfl⟩
    | _ =>
      rw [hv] at hget
      cases hget
  have hnil : o.isNil w = .ok false w := (withPushed_type _ o w).trans (by rw [ha]; rfl)
  have hboolean : o.isBoolean w = .ok false w := (withPushed_type _ o w).trans (by rw [ha]; rfl)
  have hstring : o.isString w = .ok false w := (withPushed_type _ o w).trans (by rw [ha]; rfl)
  have hfunction : o.isFunction w = .ok false w := (withPushed_type _ o w).trans (by rw [ha]; rfl)
  have hnumber : o.isNumber env w = .ok false w := by
    refine (withPushed_ask _ o w).trans ?_
    rw [valueAt_top rfl, ha]
  have hobject : (o.isJavaObject : Code σ Bool) w = .ok true w :=
    (isJavaObject_run o w).trans (by rw [isObject, hget]; rfl)
  unfold LuaObject.text
  apply (bind_of_ok hnil).trans
  apply (bind_of_ok hboolean).trans
  apply (bind_of_ok hnumber).trans
  apply (bind_of_ok hstring).trans
  apply (bind_of_ok hfunction).trans
  apply (bind_of_ok hobject).trans
  exact bind_of_ok (getObject_run hget)

/-- A test on the way to an answer, which changes nothing. -/
theorem silent_test {test : Code σ Bool} {c d : Code σ α} {w : World σ} (htest : Silent test)
    (hc : Silent c) (hd : ∃ a, d w = .ok a w) :
    ∃ a, (test >>= fun b => if b = true then c else d) w = .ok a w := by
  obtain ⟨b, hb⟩ := htest w
  rw [bind_of_ok hb]
  split
  · exact hc w
  · exact hd

/-- `getObject` is only asked when there is an object. -/
theorem text_of_none {o : LuaObject} {w : World σ}
    (hget : getObjectFromUserdata w.lua (denoted o w) = none) :
    ∃ message, o.text env w = .ok message w := by
  have hobject : (o.isJavaObject : Code σ Bool) w = .ok false w :=
    (isJavaObject_run o w).trans (by rw [isObject, hget]; rfl)
  unfold LuaObject.text
  apply silent_test (silent_type _ o) (silent_pure _)
  apply silent_test (silent_type _ o) ((silent_ask _ o).bind fun b => silent_pure _)
  apply silent_test (silent_ask _ o) ((silent_ask _ o).bind fun x => silent_pure _)
  apply silent_test (silent_type _ o) (silent_getString env o)
  apply silent_test (silent_type _ o) (silent_pure _)
  rw [bind_of_ok hobject, if_neg Bool.false_ne_true]
  apply silent_test (silent_type _ o) (silent_pure _)
  apply silent_test (silent_type _ o) (silent_pure _)
  apply silent_test (silent_ask _ o) (silent_pure _)
  exact silent_pure _ w

theorem toString_of_none {o : LuaObject} {w : World σ}
    (hget : getObjectFromUserdata w.lua (denoted o w) = none) :
    ∃ message, o.toString env w = .ok message w := by
  obtain ⟨message, hmessage⟩ := text_of_none env hget
  exact ⟨message, catching_of_ok hmessage⟩

/-! ### Taking what has been pushed -/

/-- The stack is `K` when the code returns and when it throws a `LuaException`. -/
def Leaves (K : Stack) (c : Code σ α) (w : World σ) : Prop :=
  Ends c w (fun _ w' => w'.stack = K) fun stop w' => env.isLuaException stop → w'.stack = K

/-- Takes `n` values off the stack, and throws nothing. -/
def Consumes (n : Nat) (c : Code σ α) : Prop :=
  ∀ w, Ends c w (fun _ w' => w'.stack = luaPop w.stack n) fun stop _ => ∀ t, stop ≠ .throws t

def ComesBack (c : Code σ α) (w : World σ) : Prop := ∃ a w', c w = .ok a w'

/-- The world after objects have been pushed. -/
def given (objs : List (Option JavaObject)) (w : World σ) : World σ :=
  { w with lua := pushedAll w.lua objs }

/-- The objects for `c`, which are pushed above the values `gs`, leave the stack `K`: all of them
are pushed here, or `c` does not come back; or one is denied with nothing above `K`. -/
def Provided (objs : List (Option JavaObject)) (K gs : Stack) (c : Code σ α) (w : World σ) :
    Prop :=
  (Accepted env objs ∧ foreign w.peer objs ≤ K.length ∧
      (foreign w.peer objs = 0 ∨ ¬ ComesBack c (given objs w))) ∨
    (¬ Accepted env objs ∧ gs = [] ∧
      ∀ obj ∈ objs.takeWhile (isAccepted env), ¬ Own w.peer obj)

variable {env}

theorem isLuaException_throws {stop : Stop} (h : env.isLuaException stop) :
    ∃ t, stop = .throws t := by
  cases stop with
  | throws t => exact ⟨t, rfl⟩
  | _ => cases h

theorem Consumes.leaves_iff {K : Stack} {n : Nat} {c : Code σ α} (hc : Consumes n c)
    {w : World σ} : Leaves env K c w ↔ ComesBack c w → luaPop w.stack n = K := by
  have hw := hc w
  unfold Leaves ComesBack
  unfold Ends at hw ⊢
  cases hrun : c w with
  | ok a w' =>
    simp only [hrun] at hw ⊢
    rw [hw]
    constructor
    · intro hK _
      exact hK
    · intro hK
      exact hK ⟨a, w', rfl⟩
  | error stop w' =>
    simp only [hrun] at hw ⊢
    constructor
    · rintro _ ⟨a, w₁, hcb⟩
      cases hcb
    · intro _ hexception
      obtain ⟨t, ht⟩ := isLuaException_throws hexception
      exact absurd ht (hw t)

theorem luaPop_eq_iff {K S : Stack} {n k : Nat} (hK : K <+: S)
    (hlength : S.length + k = K.length + n) (hk : k ≤ K.length) : luaPop S n = K ↔ k = 0 := by
  obtain ⟨rest, rfl⟩ := hK
  rw [List.length_append] at hlength
  have hpop : luaPop (K ++ rest) n = K.take (K.length - k) := by
    rw [luaPop, List.length_append, List.take_append_of_le_length (by omega)]
    congr 1
    omega
  rw [hpop]
  constructor
  · intro h
    have hlength' := congrArg List.length h
    rw [List.length_take] at hlength'
    omega
  · rintro rfl
    exact List.take_length

theorem stack_given (objs : List (Option JavaObject)) (w : World σ) :
    (given objs w).stack = w.stack ++ images w.lua objs := stack_pushedAll w.lua objs

section Consumed
variable {K gs : Stack} {c : Code σ α} {w : World σ} {n : Nat} {objs : List (Option JavaObject)}
  (hw : w.stack = K ++ gs)
include hw

variable (env) in
theorem consumed_of_accepted (hn : gs.length + objs.length = n) (hc : Consumes n c)
    (hobjs : Accepted env objs) :
    (Leaves env K (LuaObject.pushAll env objs >>= fun _ => c) w ∧
        ∀ w', LuaObject.pushAll env objs w = .ok () w' → n ≤ w'.stack.length) ↔
      foreign w.peer objs ≤ K.length ∧
        (foreign w.peer objs = 0 ∨ ¬ ComesBack c (given objs w)) := by
  have hlength : (given objs w).stack.length + foreign w.peer objs =
      K.length + n := by
    have himages := length_images w.lua objs
    rw [stack_given, hw, List.length_append, List.length_append]
    change _ + foreign w.lua.peer objs = _
    omega
  have hprefix : K <+: (given objs w).stack := by
    rw [stack_given, hw, List.append_assoc]
    exact List.prefix_append _ _
  have hpush : LuaObject.pushAll env objs w = .ok () (given objs w) :=
    pushAll_of_accepted hobjs w
  have hleaves : Leaves env K (LuaObject.pushAll env objs >>= fun _ => c) w ↔
      Leaves env K c (given objs w) := by
    unfold Leaves
    rw [ends_bind, ends_of_ok hpush]
  have henough : (∀ w', LuaObject.pushAll env objs w = .ok () w' →
      n ≤ w'.stack.length) ↔ foreign w.peer objs ≤ K.length := by
    rw [hpush]
    constructor
    · intro h
      have hle := h _ rfl
      omega
    · rintro hk w' ⟨⟩
      omega
  rw [hleaves, henough, hc.leaves_iff]
  constructor
  · rintro ⟨hpop, hk⟩
    refine ⟨hk, ?_⟩
    by_cases hback : ComesBack c (given objs w)
    · exact Or.inl ((luaPop_eq_iff hprefix hlength hk).mp (hpop hback))
    · exact Or.inr hback
  · rintro ⟨hk, hzero | hback⟩
    · exact ⟨fun _ => (luaPop_eq_iff hprefix hlength hk).mpr hzero, hk⟩
    · exact ⟨fun h => absurd h hback, hk⟩

variable (env) in
theorem consumed_of_denied (hobjs : ¬ Accepted env objs) :
    (Leaves env K (LuaObject.pushAll env objs >>= fun _ => c) w ∧
        ∀ w', LuaObject.pushAll env objs w = .ok () w' → n ≤ w'.stack.length) ↔
      K ++ gs ++ images w.lua (objs.takeWhile (isAccepted env)) = K := by
  obtain ⟨e, hpush⟩ := pushAll_of_denied hobjs w
  have hleaves : Leaves env K (LuaObject.pushAll env objs >>= fun _ => c) w ↔
      (given (objs.takeWhile (isAccepted env)) w).stack = K := by
    unfold Leaves
    rw [ends_bind, ends_of_error hpush]
    constructor
    · intro h
      exact h rfl
    · intro h _
      exact h
  have henough : ∀ w', LuaObject.pushAll env objs w = .ok () w' →
      n ≤ w'.stack.length := by
    intro w' h
    cases hpush.symm.trans h
  rw [hleaves, and_iff_left henough, stack_given, hw]

variable (env objs) in
theorem consumed_iff (hn : gs.length + objs.length = n) (hc : Consumes n c) :
    (Leaves env K (LuaObject.pushAll env objs >>= fun _ => c) w ∧
        ∀ w', LuaObject.pushAll env objs w = .ok () w' → n ≤ w'.stack.length) ↔
      Provided env objs K gs c w := by
  unfold Provided
  by_cases hobjs : Accepted env objs
  · rw [consumed_of_accepted env hw hn hc hobjs]
    simp [hobjs]
  · rw [consumed_of_denied env hw hobjs, List.append_assoc, List.append_right_eq_self,
      List.append_eq_nil_iff, images_eq_nil_iff]
    simp only [hobjs, false_and, false_or, not_false_eq_true, true_and]
    rfl

end Consumed

theorem consumes_setTable :
    Consumes 3 (LuaState.setTable env (-3) >>= fun _ => LuaState.pop 1) := by
  intro w
  simp only [LuaState.setTable, LuaState.pop, ends_bind, ends_get, LuaState.ends_onStack]
  apply (quiet_access _ w).mono
  · intro v w' hw'
    rw [World.stack_setStack, World.stack_setStack, hw'.1]
    simp [luaPop, List.take_take]
    omega
  · exact fun _ _ => id

theorem luaPop_replaced (L : Stack) (v : Value) : luaPop (luaPop L 1 ++ [v]) 2 = luaPop L 2 := by
  have hlength : (L.take (L.length - 1)).length = L.length - 1 := by
    rw [List.length_take]
    omega
  unfold luaPop
  rw [List.length_append, hlength, List.length_singleton,
    List.take_append_of_le_length (by omega), List.take_take]
  congr 1
  omega

variable (env) in
theorem consumes_getTable : Consumes 2 (do
    LuaState.getTable env (-2)
    let ret ← LuaObject.registerValue (-1)
    LuaState.pop 2
    return ret) := by
  intro w
  simp only [LuaState.getTable, LuaState.pop, ends_bind, ends_get, LuaState.ends_onStack, ends_pure]
  apply (quiet_access _ w).mono
  · intro v w' hw'
    apply (registerValue_spec _ _).mono
    · intro o w'' hw''
      rw [World.stack_setStack, hw''.1.1, World.stack_setStack, hw'.1]
      exact luaPop_replaced _ _
    · exact fun _ _ => id
  · exact fun _ _ => id

theorem consumes_setGlobal (name : JString) : Consumes 1 (LuaState.setGlobal env name) := by
  intro w
  simp only [LuaState.setGlobal, LuaState.pop, ends_bind, ends_get, LuaState.ends_onStack]
  apply (quiet_access _ w).mono
  · intro v w' hw'
    rw [World.stack_setStack, hw'.1]
  · exact fun _ _ => id

/-! ### Values that are registered -/

/-- The world with a new reference to the value. -/
def registered (v : Value) (w : World σ) : World σ :=
  w.setHeap { w.heap with registry := (w.lua.registry.luaLRef v).2 }

@[simp] theorem stack_registered (v : Value) (w : World σ) :
    (registered v w).stack = w.stack := rfl

/-- The free list of the registry is in order. -/
def Ordered (h : Heap σ) : Prop := ∃ free, h.registry.Sound free

/-- Functions leave the references in order. -/
def KeepsOrder (vm : Vm (Heap σ)) : Prop :=
  ∀ f vs h r h', vm.call f vs h = some (r, h') → Ordered h → Ordered h'

theorem denoted_registered {v : Value} {w : World σ} (h : Ordered w.heap) (peer : Nat) :
    denoted ⟨peer, (w.lua.registry.luaLRef v).1⟩ (registered v w) = v := by
  obtain ⟨free, hsound⟩ := h
  obtain ⟨_, _, _, hvalue, _⟩ := hsound.luaLRef v
  exact hvalue

/-- `getLuaObject(-1)` and `pop(1)`, at the end of many helpers. -/
theorem getLuaObject_run {K : Stack} {v : Value} {w : World σ} (hw : w.stack = K ++ [v]) :
    ((do
      let ret ← LuaObject.registerValue (-1)
      LuaState.pop 1
      return ret : Code σ LuaObject)) w =
      .ok ⟨w.peer, (w.lua.registry.luaLRef v).1⟩ ((registered v w).setStack K) := by
  have hindex : index2adr w.stack (-1) = some v := by rw [hw, index2adr_top]
  rw [bind_of_ok (registerValue_run hindex)]
  exact bind_of_ok (pop_run (w := registered v w) hw)

theorem getLuaObject_bind {K : Stack} {v : Value} {w : World σ} (f : LuaObject → Code σ α)
    (hw : w.stack = K ++ [v]) :
    (LuaObject.registerValue (-1) >>= fun ret => LuaState.pop 1 >>= fun _ => f ret) w =
      f ⟨w.peer, (w.lua.registry.luaLRef v).1⟩ ((registered v w).setStack K) := by
  have hrun := bind_of_ok (f := f) (getLuaObject_run hw)
  simpa only [bind_assoc, pure_bind] using hrun

variable (env) in
theorem pcall_append {K : Stack} {f : Value} {w : World σ} (vs : List Value) (nres : Int)
    (hw : w.stack = K ++ f :: vs) :
    LuaState.pcall env vs.length nres w =
      match env.vm.call f vs w.heap with
      | none => .error .hangs w
      | some (r, h) => .ok (status r) ((w.setStack (K ++ returned nres r)).setHeap h) := by
  have hpcall := luaPcall_append env.vm.call K f vs nres w.heap
  rw [← hw] at hpcall
  unfold LuaState.pcall
  rw [hpcall]
  cases env.vm.call f vs w.heap <;> rfl

theorem leaves_of_neutral {c : Code σ α} (h : StackNeutral c) (w : World σ) :
    Leaves env w.stack c w :=
  (h w).mono (fun _ _ hs => hs.1) fun _ _ hs hexception =>
    (hs (isLuaException_throws hexception)).1

theorem Silent.leaves {c : Code σ α} (h : Silent c) (w : World σ) : Leaves env w.stack c w := by
  obtain ⟨a, ha⟩ := h w
  exact (ends_of_ok ha).mpr rfl

theorem leaves_map {K : Stack} {c : Code σ α} {f : α → β} {w : World σ} :
    Leaves env K (f <$> c) w ↔ Leaves env K c w := ends_map

theorem leaves_bind {K : Stack} {c : Code σ α} {f : α → Code σ β} {w : World σ} :
    Leaves env K (c >>= f) w ↔ Ends c w (fun a w' => Leaves env K (f a) w')
      fun stop w' => env.isLuaException stop → w'.stack = K := ends_bind

theorem leaves_of_ok {K : Stack} {c : Code σ α} {f : α → Code σ β} {w w' : World σ} {a : α}
    (h : c w = .ok a w') : Leaves env K (c >>= f) w ↔ Leaves env K (f a) w' :=
  leaves_bind.trans (ends_of_ok h)

theorem leaves_createTable (w : World σ) :
    Leaves env w.stack (Lua.createTable (Lua.state env)) w := by
  obtain ⟨K, hK⟩ : ∃ v, LuaState.newTable env w =
      .ok () ((w.setHeap (env.vm.newtable w.heap).2).setStack (w.stack ++ [v])) := ⟨_, rfl⟩
  exact (leaves_of_ok hK).mpr ((ends_of_ok (getLuaObject_run rfl)).mpr rfl)

variable (env) in
theorem getGlobal_run (name : JString) (w : World σ) :
    (∃ v h, LuaState.getGlobal env name w =
        .ok () ((w.setHeap h).setStack (w.stack ++ [v]))) ∨
      ∃ stop w', LuaState.getGlobal env name w = .error stop w' ∧ ∀ t, stop ≠ .throws t := by
  unfold LuaState.getGlobal LuaState.access
  simp only [bind, EStateM.bind]
  rcases luaVGettable env.vm (env.vm.globals w.heap) (LuaState.luaString name) w.heap with
    _ | ⟨e | v, h⟩
  · exact Or.inr ⟨_, _, rfl, by simp⟩
  · exact Or.inr ⟨_, _, rfl, by simp⟩
  · exact Or.inl ⟨v, h, rfl⟩

theorem not_isLuaException {stop : Stop} (h : ∀ t, stop ≠ .throws t) :
    ¬ env.isLuaException stop := by
  intro hexception
  obtain ⟨t, ht⟩ := isLuaException_throws hexception
  exact h t ht

theorem leaves_getGlobal (name : JString) (w : World σ) :
    Leaves env w.stack (Lua.getGlobal (Lua.state env) name) w := by
  rcases getGlobal_run env name w with ⟨v, h, hrun⟩ | ⟨stop, w', hrun, hstop⟩
  · apply (leaves_of_ok hrun).mpr
    exact (ends_of_ok (getLuaObject_run rfl)).mpr rfl
  · apply leaves_bind.mpr
    apply (ends_of_error hrun).mpr
    exact fun h => absurd h (not_isLuaException hstop)

variable (env) in
/-- Copying from nowhere does not come back. -/
theorem toByteArray_run (strlen : Value → Heap σ → Nat) {K : Stack} {v : Value} {w : World σ}
    (hw : w.stack = K ++ [v]) :
    (∃ bytes S, LuaState.toByteArray env strlen (-1) w = .ok bytes (w.setStack S) ∧
        luaPop S 1 = K) ∨ LuaState.toByteArray env strlen (-1) w = .error .hangs w := by
  have hpop : luaPop w.stack 1 = K := by rw [hw, luaPop_top]
  have hnothing : (∃ bytes S, (if strlen v w.heap = 0 then return [] else throw .hangs :
      Code σ (List UInt8)) w = .ok bytes (w.setStack S) ∧ luaPop S 1 = K) ∨
      (if strlen v w.heap = 0 then return [] else throw .hangs : Code σ (List UInt8)) w =
        .error .hangs w := by
    by_cases hlen : strlen v w.heap = 0
    · rw [if_pos hlen]
      exact Or.inl ⟨[], w.stack, rfl, hpop⟩
    · rw [if_neg hlen]
      exact Or.inr rfl
  unfold LuaState.toByteArray
  rw [get_bind, valueAt_top hw]
  cases v with
  | string s => exact Or.inl ⟨s, w.stack, rfl, hpop⟩
  | number x =>
    have hset := luaPop_set_top K (.number x) (.string (env.numberToString x))
    rw [← hw] at hset
    exact Or.inl ⟨_, _, rfl, hset⟩
  | _ => exact hnothing

theorem leaves_getByteArray (strlen : Value → Heap σ → Nat) (o : LuaObject) (w : World σ) :
    Leaves env w.stack (o.getByteArray env strlen) w := by
  let w₁ := w.setStack (w.stack ++ [denoted o w])
  have hpush : (o.push : Code σ Unit) w = .ok () w₁ := rfl
  rcases toByteArray_run env strlen (w := w₁) (K := w.stack) rfl with
    ⟨bytes, S, hbytes, hpop⟩ | hhangs
  · exact (ends_of_ok (withPushed_run hbytes hpop)).mpr rfl
  · have hrun : o.getByteArray env strlen w = .error .hangs w₁ :=
      (bind_of_ok hpush).trans (bind_of_error hhangs)
    apply (ends_of_error hrun).mpr
    intro hexception
    cases hexception

/-- Without a Java object, `getObject` throws an `Exception` that is no `LuaException`. -/
theorem getObject_run_of_none {o : LuaObject} {w : World σ}
    (h : getObjectFromUserdata w.lua (denoted o w) = none) :
    (o.getObject : Code σ JavaObject) w =
      .error (.throws (.runtimeException "java.lang.Exception" "Index is not a java object"))
        (w.setStack (w.stack ++ [denoted o w])) := by
  let w₁ := w.setStack (w.stack ++ [denoted o w])
  have hpush : (o.push : Code σ Unit) w = .ok () w₁ := rfl
  have htop : LuaState.valueAt w₁ (-1) = denoted o w := valueAt_top rfl
  have hnone : getObjectFromUserdata w₁.lua (denoted o w) = none := h
  have hget : (LuaState.getObjectFromUserdata (-1) : Code σ JavaObject) w₁ =
      .error (.throws (.runtimeException "java.lang.Exception" "Index is not a java object"))
        w₁ := by
    rw [LuaState.getObjectFromUserdata, get_bind, htop, hnone]
    rfl
  exact (bind_of_ok hpush).trans (bind_of_error hget)

theorem leaves_getObject (o : LuaObject) (w : World σ) :
    Leaves env w.stack (o.getObject : Code σ JavaObject) w := by
  cases hget : getObjectFromUserdata w.lua (denoted o w) with
  | some obj => exact (ends_of_ok (getObject_run hget)).mpr rfl
  | none =>
    apply (ends_of_error (getObject_run_of_none hget)).mpr
    intro hexception
    cases hexception

/-- What an object says for itself does not touch the stack, whether it answers or throws. -/
theorem leaves_toString (o : LuaObject) (w : World σ) : Leaves env w.stack (o.toString env) w := by
  cases hget : getObjectFromUserdata w.lua (denoted o w) with
  | none =>
    obtain ⟨message, hmessage⟩ := toString_of_none env hget
    exact (ends_of_ok hmessage).mpr rfl
  | some obj =>
    have htext : Ends (o.text env) w (fun _ w' => w'.stack = w.stack)
        fun _ w' => w'.stack = w.stack := by
      unfold Ends
      rw [text_of_object hget]
      exact stack_library
    apply ends_catching.mpr
    apply htext.mono fun _ _ => id
    intro stop w' hw'
    split
    · exact hw'
    · exact fun _ => hw'

/-! ### Helpers that push objects from outside -/

section Elsewhere
variable (env) (isTableElsewhere : LuaObject → Bool)

/-- An object of another state is asked there whether it is a table. -/
def stateAmong : Interface (Code σ) LuaObject (Option JavaObject) :=
  { Lua.state env with
    objectIsTable := fun o => do
      if o.peer = (← get).peer then o.isTable
      else return isTableElsewhere o }

def isTableAt (o : LuaObject) (w : World σ) : Bool :=
  if o.peer = w.peer then (denoted o w).type = .table else isTableElsewhere o

variable {env}

variable (env) in
theorem objectIsTable_run (o : LuaObject) (w : World σ) :
    (stateAmong env isTableElsewhere).objectIsTable o w =
      .ok (isTableAt isTableElsewhere o w) w := by
  unfold isTableAt
  simp only [stateAmong, get_bind]
  split
  · exact withPushed_type _ o w
  · rfl

variable (env) in
/-- What is left of `n` values when an operation comes to its access. -/
structure Neutral (c : Code σ α) (untilAccess : Code σ Unit) (n : Nat) (w : World σ) : Prop where
  leaves : Leaves env w.stack c w
  operands : ∀ w', untilAccess w = .ok () w' → n ≤ w'.stack.length

theorem neutral_iff {c : Code σ α} {untilAccess : Code σ Unit} {n : Nat} {w : World σ} :
    Neutral env c untilAccess n w ↔
      Leaves env w.stack c w ∧ ∀ w', untilAccess w = .ok () w' → n ≤ w'.stack.length :=
  ⟨fun h => ⟨h.leaves, h.operands⟩, fun h => ⟨h.1, h.2⟩⟩

theorem neutral_map {c : Code σ α} {f : α → β} {untilAccess : Code σ Unit} {n : Nat}
    {w : World σ} : Neutral env (f <$> c) untilAccess n w ↔ Neutral env c untilAccess n w := by
  rw [neutral_iff, neutral_iff, leaves_map]

theorem pushAll_one (obj : Option JavaObject) (f : Unit → Code σ α) :
    (LuaObject.pushAll env [obj] >>= f) = (LuaState.pushObjectValue env obj >>= f) := by
  simp only [LuaObject.pushAll, bind_assoc, pure_bind]

theorem neutral_registerGlobal_iff {name : JString} {obj : Option JavaObject} {w : World σ} :
    Neutral env (Lua.registerGlobal (Lua.state env) name obj) (LuaObject.pushAll env [obj]) 1 w ↔
      Provided env [obj] w.stack [] (LuaState.setGlobal env name) w := by
  have hrun : Lua.registerGlobal (Lua.state env) name obj =
      LuaObject.pushAll env [obj] >>= fun _ => LuaState.setGlobal env name :=
    (pushAll_one obj _).symm
  rw [hrun, ← consumed_iff env [obj] (List.append_nil _).symm rfl (consumes_setGlobal name)]
  exact neutral_iff

variable (env) in
/-- `setTableField` up to its access. -/
def pushField (table : LuaObject) (key value : Option JavaObject) : Code σ Unit := do
  if !(← (stateAmong env isTableElsewhere).objectIsTable table) then
    throwJava (.luaException (some "First parameter is not a table"))
  else LuaObject.pushAll env [some table.toJava, key, value]

theorem neutral_setTableField_iff {table : LuaObject} {key value : Option JavaObject}
    {w : World σ} :
    Neutral env (Lua.setTableField (stateAmong env isTableElsewhere) table key value)
        (pushField env isTableElsewhere table key value) 3 w ↔
      (isTableAt isTableElsewhere table w →
        Provided env [some table.toJava, key, value] w.stack []
          (LuaState.setTable env (-3) >>= fun _ => LuaState.pop 1) w) := by
  have hisTable := objectIsTable_run env isTableElsewhere table w
  rw [neutral_iff, Lua.setTableField, pushField]
  apply (and_congr (leaves_of_ok hisTable)
    (forall_congr' fun w' => by rw [bind_of_ok hisTable])).trans
  by_cases htable : isTableAt isTableElsewhere table w = true
  · have hpush := pushAll_bind env (some table.toJava) key value fun _ =>
      LuaState.setTable env (-3) >>= fun _ => LuaState.pop 1
    rw [if_neg (by simp [htable]), if_neg (by simp [htable])]
    simp only [htable, true_imp_iff]
    rw [← consumed_iff env [_, key, value] (List.append_nil _).symm rfl consumes_setTable, hpush]
    rfl
  · rw [if_pos (by simp [htable]), if_pos (by simp [htable])]
    apply iff_of_true
    · refine ⟨fun _ => rfl, fun w' h => ?_⟩
      cases h
    · intro h
      exact absurd h htable

variable (env) in
/-- `getGlobalTableField` up to its access. -/
def pushTableKey (tableName : JString) (key : Option JavaObject) : Code σ Unit := do
  LuaState.getGlobal env tableName
  if !(← LuaState.isTable (-1)) then
    LuaState.pop 1
    throwJava (.luaException (some (tableName ++ javaString " is not a table")))
  else LuaObject.pushAll env [key]

theorem neutral_getGlobalTableField_iff {tableName : JString} {key : Option JavaObject}
    {w : World σ} :
    Neutral env (Lua.getGlobalTableField (Lua.state env) tableName key)
        (pushTableKey env tableName key) 2 w ↔
      ∀ w₁, LuaState.getGlobal env tableName w = .ok () w₁ → luaType w₁.stack (-1) = .table →
        Provided env [key] w.stack [LuaState.valueAt w₁ (-1)] (do
          LuaState.getTable env (-2)
          let ret ← LuaObject.registerValue (-1)
          LuaState.pop 2
          return ret) w₁ := by
  rw [neutral_iff]
  rcases getGlobal_run env tableName w with ⟨v, h, hrun⟩ | ⟨stop, w', hrun, hstop⟩
  · let w₁ := (w.setHeap h).setStack (w.stack ++ [v])
    have htop : LuaState.valueAt w₁ (-1) = v := valueAt_top rfl
    have htype : (LuaState.isTable (-1) : Code σ Bool) w₁ =
      .ok (decide (luaType w₁.stack (-1) = .table)) w₁ := rfl
    have hall : (∀ w', pushTableKey env tableName key w = .ok () w' →
        2 ≤ w'.stack.length) ↔ _ := forall_congr' fun w' => by
      rw [pushTableKey, bind_of_ok hrun, bind_of_ok htype]
    apply (and_congr ((leaves_of_ok hrun).trans (leaves_of_ok htype)) hall).trans
    simp only [hrun, EStateM.Result.ok.injEq, true_and, forall_eq']
    by_cases htable : luaType w₁.stack (-1) = .table
    · rw [if_neg (by simp [htable]), if_neg (by simp [htable]), htop]
      have hiff := consumed_iff env (w := w₁) [key] rfl rfl (consumes_getTable env)
      rw [pushAll_one] at hiff
      exact hiff.trans ⟨fun h _ => h, fun h => h htable⟩
    · rw [if_pos (by simp [htable]), if_pos (by simp [htable])]
      apply iff_of_true
      · refine ⟨?_, fun w' h => ?_⟩
        · apply (leaves_of_ok (pop_run rfl)).mpr
          exact fun _ => rfl
        · cases h
      · intro h
        exact absurd h htable
  · apply iff_of_true
    · refine ⟨?_, fun w' h => ?_⟩
      · apply leaves_bind.mpr
        apply (ends_of_error hrun).mpr
        exact fun h => absurd h (not_isLuaException hstop)
      · cases (bind_of_error hrun).symm.trans h
    · intro w₁ h
      cases hrun.symm.trans h

end Elsewhere

/-- An object that is made for a value belongs to the state at work. -/
theorem own_getGlobalTableField (tableName : JString) (key : Option JavaObject) (w : World σ) :
    Ends (Lua.getGlobalTableField (Lua.state env) tableName key) w (fun o w' => o.peer = w'.peer)
      fun _ _ => True := by
  have hanything : ∀ {β : Type} (c : Code σ β) (w : World σ),
      Ends c w (fun _ _ => True) fun _ _ => True := fun c w => by
    rw [ends_iff]
    exact ⟨fun _ _ _ => trivial, fun _ _ _ => trivial⟩
  unfold Lua.getGlobalTableField
  apply ends_bind.mpr
  apply (hanything _ w).mono ?_ fun _ _ => id
  intro _ w₁ _
  apply ends_bind.mpr
  apply (hanything _ w₁).mono ?_ fun _ _ => id
  intro table w₂ _
  split
  · exact trivial
  · apply ends_bind.mpr
    apply (hanything _ w₂).mono ?_ fun _ _ => id
    intro _ w₃ _
    apply ends_bind.mpr
    apply (hanything _ w₃).mono ?_ fun _ _ => id
    intro _ w₄ _
    apply ends_bind.mpr
    apply (registerValue_spec (-1) w₄).mono
    · intro o w₅ ho
      exact ho.2.trans ho.1.2.symm
    · exact fun _ _ _ => trivial

theorem denial_toJava (host : Host) (o : LuaObject) : denial host (some o.toJava) = none := rfl

variable (env) in
theorem pushObject_run {o : LuaObject} {w : World σ} (hown : o.peer = w.peer) :
    LuaState.pushObjectValue env (some o.toJava) w =
      .ok () (w.setStack (w.stack ++ [denoted o w])) := by
  have hpush := pushObjectValue_run env (some o.toJava) w
  have hpushed : pushed w.lua (some o.toJava) = w.lua.push (denoted o w) := by
    rw [LuaObject.toJava, hown]
    exact pushed_luaObject w.lua o.ref
  rw [denial_toJava, hpushed] at hpush
  exact hpush

/-- What `getTraceback` makes of the text or the error on top. -/
theorem leaves_answer {K : Stack} {v : Value} {w : World σ} (err : Int)
    (hw : w.stack = K ++ [v]) :
    Leaves env K (if err ≠ 0 then do
        let exp ← LuaObject.registerValue (-1)
        LuaState.pop 1
        let message ← exp.toString env
        throwJava (.luaException message)
      else do
        let ret ← LuaObject.registerValue (-1)
        LuaState.pop 1
        if ← ret.isString then ret.getString env
        else return none : Code σ (Option JString)) w := by
  let o : LuaObject := ⟨w.peer, (w.lua.registry.luaLRef v).1⟩
  let w₁ := (registered v w).setStack K
  by_cases herr : err ≠ 0
  · rw [if_pos herr]
    have hrun := getLuaObject_bind (fun exp => exp.toString env >>= fun message =>
      throwJava (.luaException message) : LuaObject → Code σ (Option JString)) hw
    have hthrown : Leaves env K (o.toString env >>= fun message =>
        throwJava (.luaException message) : Code σ (Option JString)) w₁ :=
      leaves_bind.mpr ((leaves_toString o w₁).mono (fun _ _ hw' _ => hw') fun _ _ => id)
    unfold Leaves Ends at hthrown ⊢
    rw [hrun]
    exact hthrown
  · rw [if_neg herr]
    have hanswer : Silent (o.isString >>= fun string =>
        if string = true then o.getString env else return none) :=
      (silent_type _ o).bind fun string => silent_ite (silent_getString env o) (silent_pure _)
    obtain ⟨text, htext⟩ := hanswer w₁
    have hrun := (getLuaObject_bind (fun ret => ret.isString >>= fun string =>
      if string = true then ret.getString env else return none) hw).trans htext
    exact (ends_of_ok hrun).mpr rfl

/-- The function is an object of the state itself, so it is there when it is called. -/
theorem leaves_getTraceback (w : World σ) : Leaves env w.stack (Lua.getTraceback env) w := by
  have hfield : Neutral env (Lua.getGlobalTableField (Lua.state env) "debug"
      (some (.string "traceback")))
      (pushTableKey env "debug" (some (.string "traceback"))) 2 w := by
    apply neutral_getGlobalTableField_iff.mpr
    intro w₁ _ _
    exact Or.inl ⟨by simp [Accepted, denial], Nat.zero_le _, Or.inl rfl⟩
  apply leaves_bind.mpr
  apply (hfield.leaves.and (own_getGlobalTableField "debug" _ w)).mono
  · rintro o w₁ ⟨hw₁, hown⟩
    rw [← hw₁]
    let w₂ := w₁.setStack (w₁.stack ++ [denoted o w₁])
    apply (leaves_of_ok (pushObject_run env hown)).mpr
    have hpcall : LuaState.pcall env 0 1 w₂ = match env.vm.call (denoted o w₁) [] w₁.heap with
      | none => .error .hangs w₂
      | some (r, h) => .ok (status r) ((w₂.setStack (w₁.stack ++ returned 1 r)).setHeap h) :=
      pcall_append env [] 1 rfl
    cases hresult : env.vm.call (denoted o w₁) [] w₁.heap with
    | none =>
      rw [hresult] at hpcall
      apply leaves_bind.mpr
      apply (ends_of_error hpcall).mpr
      intro hexception
      cases hexception
    | some result =>
      obtain ⟨r, h⟩ := result
      rw [hresult] at hpcall
      apply (leaves_of_ok hpcall).mpr
      obtain ⟨v, hv⟩ : ∃ v, returned 1 r = [v] := by
        cases r with
        | error e => exact ⟨e, rfl⟩
        | ok vs => exact ⟨_, adjust_one vs⟩
      exact leaves_answer _ (congrArg (w₁.stack ++ ·) hv)
  · intro stop w₁ h hexception
    exact h.1 hexception

/-! ### All of them -/

inductive Accessor where
  | isNil
  | isBoolean
  | isNumber
  | isString
  | isFunction
  | isJavaObject
  | isJavaFunction
  | isTable
  | isUserdata
  | type
  | getBoolean
  | getNumber
  | getString
  | getByteArray
  | getObject
  | toString

def Accessor.run (env : Env σ) (strlen : Value → Heap σ → Nat) (o : LuaObject) :
    Accessor → Code σ Unit
  | isNil => (fun _ => ()) <$> o.isNil
  | isBoolean => (fun _ => ()) <$> o.isBoolean
  | isNumber => (fun _ => ()) <$> o.isNumber env
  | isString => (fun _ => ()) <$> o.isString
  | isFunction => (fun _ => ()) <$> o.isFunction
  | isJavaObject => (fun _ => ()) <$> o.isJavaObject
  | isJavaFunction => (fun _ => ()) <$> o.isJavaFunction
  | isTable => (fun _ => ()) <$> o.isTable
  | isUserdata => (fun _ => ()) <$> o.isUserdata
  | type => (fun _ => ()) <$> o.type
  | getBoolean => (fun _ => ()) <$> o.getBoolean
  | getNumber => (fun _ => ()) <$> o.getNumber env
  | getString => (fun _ => ()) <$> o.getString env
  | getByteArray => (fun _ => ()) <$> o.getByteArray env strlen
  | getObject => (fun _ => ()) <$> o.getObject
  | toString => (fun _ => ()) <$> o.toString env

theorem leaves_accessor (strlen : Value → Heap σ → Nat) (o : LuaObject) (a : Accessor)
    (w : World σ) : Leaves env w.stack (a.run env strlen o) w := by
  cases a with
  | isNil | isBoolean | isString | isFunction | isTable | isUserdata =>
    exact leaves_map.mpr ((silent_type _ o).leaves w)
  | isNumber | isJavaObject | isJavaFunction | type | getBoolean | getNumber =>
    exact leaves_map.mpr ((silent_ask _ o).leaves w)
  | getString => exact leaves_map.mpr ((silent_getString env o).leaves w)
  | getByteArray => exact leaves_map.mpr (leaves_getByteArray strlen o w)
  | getObject => exact leaves_map.mpr (leaves_getObject o w)
  | toString => exact leaves_map.mpr (leaves_toString o w)

inductive Operation where
  | accessor (o : LuaObject) (a : Accessor)
  | getField (o : LuaObject) (field : Option JString)
  | ofString (parent : LuaObject) (name : Option JString)
  | ofNumber (parent : LuaObject) (name : Double)
  | ofLuaObject (parent name : LuaObject)
  | setTableField (table : LuaObject) (key value : Option JavaObject)
  | createTable
  | getGlobal (name : JString)
  | getGlobalTableField (tableName : JString) (key : Option JavaObject)
  | registerGlobal (name : JString) (obj : Option JavaObject)
  | getTraceback

namespace Operation
variable (env) (strlen : Value → Heap σ → Nat) (isTableElsewhere : LuaObject → Bool)

def run : Operation → Code σ Unit
  | accessor o a => a.run env strlen o
  | getField o field => (fun _ => ()) <$> o.getField env field
  | ofString parent name => (fun _ => ()) <$> LuaObject.ofString env parent name
  | ofNumber parent name => (fun _ => ()) <$> LuaObject.ofNumber env parent name
  | ofLuaObject parent name => (fun _ => ()) <$> LuaObject.ofLuaObject env parent name
  | setTableField table key value =>
    Lua.setTableField (stateAmong env isTableElsewhere) table key value
  | createTable => (fun _ => ()) <$> Lua.createTable (Lua.state env)
  | getGlobal name => (fun _ => ()) <$> Lua.getGlobal (Lua.state env) name
  | getGlobalTableField tableName key =>
    (fun _ => ()) <$> Lua.getGlobalTableField (Lua.state env) tableName key
  | registerGlobal name obj => Lua.registerGlobal (Lua.state env) name obj
  | getTraceback => (fun _ => ()) <$> Lua.getTraceback env

/-- The operation up to an access to what it has pushed, and how many values the access and what
follows it take. -/
def untilAccess : Operation → Code σ Unit × Nat
  | setTableField table key value => (pushField env isTableElsewhere table key value, 3)
  | getGlobalTableField tableName key => (pushTableKey env tableName key, 2)
  | registerGlobal _ obj => (LuaObject.pushAll env [obj], 1)
  | _ => (pure (), 0)

/-- What is pushed from outside is all there, or what it is for does not come back. -/
def Fits : Operation → World σ → Prop
  | setTableField table key value, w => isTableAt isTableElsewhere table w →
    Provided env [some table.toJava, key, value] w.stack []
      (LuaState.setTable env (-3) >>= fun _ => LuaState.pop 1) w
  | getGlobalTableField tableName key, w => ∀ w₁, LuaState.getGlobal env tableName w = .ok () w₁ →
    luaType w₁.stack (-1) = .table →
    Provided env [key] w.stack [LuaState.valueAt w₁ (-1)] (do
      LuaState.getTable env (-2)
      let ret ← LuaObject.registerValue (-1)
      LuaState.pop 2
      return ret) w₁
  | registerGlobal name obj, w => Provided env [obj] w.stack [] (LuaState.setGlobal env name) w
  | _, _ => True

variable {env} in
theorem neutral_of_leaves {c : Code σ Unit} {w : World σ} (h : Leaves env w.stack c w) :
    Neutral env c (pure ()) 0 w := ⟨h, fun _ _ => Nat.zero_le _⟩

theorem neutral_run_iff (op : Operation) (w : World σ) :
    Neutral env (op.run env strlen isTableElsewhere) (op.untilAccess env isTableElsewhere).1
        (op.untilAccess env isTableElsewhere).2 w ↔ op.Fits env isTableElsewhere w := by
  cases op with
  | accessor o a => exact iff_of_true (neutral_of_leaves (leaves_accessor strlen o a w)) trivial
  | getField o field =>
    apply iff_of_true (neutral_of_leaves (leaves_map.mpr ?_)) trivial
    exact leaves_of_neutral (neutral_getField env o field) w
  | ofString parent name =>
    apply iff_of_true (neutral_of_leaves (leaves_map.mpr ?_)) trivial
    exact leaves_of_neutral (neutral_ofParent env parent fun _ => rfl) w
  | ofNumber parent name =>
    apply iff_of_true (neutral_of_leaves (leaves_map.mpr ?_)) trivial
    exact leaves_of_neutral (neutral_ofParent env parent fun _ => rfl) w
  | ofLuaObject parent name =>
    apply iff_of_true (neutral_of_leaves (leaves_map.mpr ?_)) trivial
    apply leaves_of_neutral
    exact neutral_ite (neutral_throw _) (neutral_ofParent env parent fun _ => rfl)
  | setTableField table key value => exact neutral_setTableField_iff isTableElsewhere
  | createTable =>
    exact iff_of_true (neutral_of_leaves (leaves_map.mpr (leaves_createTable w))) trivial
  | getGlobal name =>
    exact iff_of_true (neutral_of_leaves (leaves_map.mpr (leaves_getGlobal name w))) trivial
  | getGlobalTableField tableName key =>
    exact neutral_map.trans neutral_getGlobalTableField_iff
  | registerGlobal name obj => exact neutral_registerGlobal_iff
  | getTraceback =>
    exact iff_of_true (neutral_of_leaves (leaves_map.mpr (leaves_getTraceback w))) trivial

/-- A program that lets no object of its own classes through. -/
def checkedEnv : Env Unit :=
  let env := Env.plain .plain fun _ => []
  { env with
    host := { env.host with
      objectChecker := some fun
        | .object _ _ => false
        | _ => true } }

/-- `setTableField(table, key, null)` with a key that is denied leaves the table on the stack. -/
theorem denied_key_leaves_table :
    ¬ Neutral checkedEnv (run checkedEnv (fun _ _ => 0) (fun _ => false)
      (.setTableField ⟨1, 1⟩ (some (.object 1 0)) none))
      (untilAccess checkedEnv (fun _ => false) (.setTableField ⟨1, 1⟩ (some (.object 1 0)) none)).1
      3 demoWorld := by
  intro h
  have hleft : [Value.table 1] = [] := h.leaves rfl
  cases hleft

end Operation

end JLua.Accessors
