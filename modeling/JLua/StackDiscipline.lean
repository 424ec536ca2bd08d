import JLua.JLuaAPI

/-!
# The stack discipline of the callbacks

A callback that returns `n` leaves `n` new values on the stack, and one that throws leaves none.
Everything it does on the way gives back what it pushes.
-/

namespace JLua.StackDiscipline

open Conversion JLuaAPI Metatables OutcomeRules
set_option autoImplicit false

variable {σ α β : Type}

def Same (w w' : World σ) : Prop := w'.stack = w.stack ∧ w'.peer = w.peer

theorem Same.refl (w : World σ) : Same w w := ⟨rfl, rfl⟩

theorem Same.trans {w w₁ w₂ : World σ} (h : Same w w₁) (h' : Same w₁ w₂) : Same w w₂ :=
  ⟨h'.1.trans h.1, h'.2.trans h.2⟩

/-- A Lua error leaves the Java code behind, so only exceptions matter. -/
def IfThrown (P : World σ → Prop) (stop : Stop) (w : World σ) : Prop :=
  (∃ t, stop = .throws t) → P w

/-- The code leaves the stack as it was, when it returns and when it throws. -/
def StackNeutral (c : Code σ α) : Prop := ∀ w, Ends c w (fun _ => Same w) (IfThrown (Same w))

def Quiet (c : Code σ α) : Prop :=
  ∀ w, Ends c w (fun _ => Same w) fun stop _ => ∀ t, stop ≠ .throws t

theorem Quiet.neutral {c : Code σ α} (h : Quiet c) : StackNeutral c := fun w =>
  (h w).mono (fun _ _ => id) fun _ _ hstop hthrow => by
    obtain ⟨t, ht⟩ := hthrow
    exact absurd ht (hstop t)

theorem neutral_pure (a : α) : StackNeutral (pure a : Code σ α) := Same.refl

theorem neutral_throw (stop : Stop) : StackNeutral (throw stop : Code σ α) :=
  fun w _ => Same.refl w

theorem quiet_ask (f : World σ → α) : Quiet (LuaState.ask f) := Same.refl

theorem Quiet.map {c : Code σ α} (h : Quiet c) (f : α → β) : Quiet (f <$> c) := fun w =>
  ends_map.mpr (h w)

theorem StackNeutral.after {c : Code σ α} (h : StackNeutral c) {w w' : World σ} (hw : Same w w') :
    Ends c w' (fun _ => Same w) (IfThrown (Same w)) :=
  (h w').mono (fun _ _ hs => hw.trans hs) fun _ _ hs hthrow => hw.trans (hs hthrow)

theorem StackNeutral.bind {c : Code σ α} {f : α → Code σ β} (hc : StackNeutral c)
    (hf : ∀ a, StackNeutral (f a)) : StackNeutral (c >>= f) := fun w =>
  ends_bind.mpr ((hc w).mono (fun a _ hs => (hf a).after hs) fun _ _ => id)

theorem StackNeutral.map {c : Code σ α} (h : StackNeutral c) (f : α → β) :
    StackNeutral (f <$> c) := fun w => ends_map.mpr (h w)

theorem StackNeutral.catching {c : Code σ α} {kind : Stop → Bool} {handler : Stop → Code σ α}
    (hc : StackNeutral c) (hkind : ∀ stop, kind stop → ∃ t, stop = .throws t)
    (hh : ∀ stop, StackNeutral (handler stop)) : StackNeutral (catching c kind handler) := fun w =>
  ends_catching.mpr ((hc w).mono (fun _ _ => id) fun stop w' hs => by
    split
    · next hk => exact (hh stop).after (hs (hkind stop hk))
    · exact hs)

theorem neutral_ite {p : Prop} [Decidable p] {c d : Code σ α} (hc : StackNeutral c)
    (hd : StackNeutral d) : StackNeutral (if p then c else d) := by
  split
  · exact hc
  · exact hd

/-! ### LuaObject -/

theorem registerValue_spec (idx : Int) (w : World σ) :
    Ends (LuaObject.registerValue idx) w (fun o w' => Same w w' ∧ o.peer = w.peer)
      fun stop _ => ∀ t, stop ≠ .throws t := by
  simp only [LuaObject.registerValue, LuaState.pushValue, ends_bind, LuaState.ends_onStack,
    LuaState.ends_Lref, ends_get, ends_pure]
  refine ⟨⟨?_, rfl⟩, rfl⟩
  simp [luaPushvalue]

theorem quiet_registerValue (idx : Int) :
    Quiet (LuaObject.registerValue idx : Code σ LuaObject) := fun w =>
  (registerValue_spec idx w).mono (fun _ _ h => h.1) fun _ _ => id

theorem Quiet.withPushed {look : Code σ α} (h : Quiet look) (o : LuaObject) :
    Quiet (o.withPushed look) := by
  intro w
  simp only [LuaObject.withPushed, LuaObject.push, LuaState.pop, ends_bind, LuaState.ends_rawGetI]
  refine (h _).mono (fun a w' hs => ?_) fun _ _ => id
  rw [LuaState.ends_onStack, ends_pure]
  refine ⟨?_, hs.2⟩
  rw [World.stack_setStack, hs.1, World.stack_setStack, luaPop_top]

theorem quiet_isTable (o : LuaObject) : Quiet (o.isTable : Code σ Bool) :=
  (quiet_ask _).map _ |>.withPushed o

theorem quiet_isUserdata (o : LuaObject) : Quiet (o.isUserdata : Code σ Bool) :=
  (quiet_ask _).map _ |>.withPushed o

theorem quiet_isFunction (o : LuaObject) : Quiet (o.isFunction : Code σ Bool) :=
  (quiet_ask _).map _ |>.withPushed o

variable (env : Env σ)

theorem quiet_access (a : Heap σ → Access (Heap σ)) : Quiet (LuaState.access a) := fun w =>
  LuaState.ends_access.mpr ⟨fun _ => by simp, fun _ _ _ => by simp, fun _ _ _ => Same.refl w⟩

/-- A part of an object, whatever the key that is pushed for it. -/
theorem neutral_ofParent (parent : LuaObject) {pushName : Code σ Unit} {key : World σ → Value}
    (hpush : ∀ w, pushName w = .ok () (w.setStack (w.stack ++ [key w]))) :
    StackNeutral (LuaObject.ofParent env parent pushName) := by
  refine (quiet_isTable parent).neutral.bind fun table => ?_
  refine (quiet_isUserdata parent).neutral.bind fun userdata => neutral_ite (neutral_throw _) ?_
  intro w
  simp only [LuaObject.push, LuaState.getTable, LuaState.remove, LuaState.pop,
    ends_bind, ends_get, LuaState.ends_rawGetI, LuaState.ends_onStack, World.stack_setStack,
    ends_of_ok (hpush _), World.setStack_setStack]
  refine (quiet_access _ _).mono (fun v w₁ hw₁ => ?_) fun stop _ hstop hthrow => ?_
  · -- the parent is below the field until it is removed
    rw [hw₁.1, World.stack_setStack, luaPop_top, List.append_assoc]
    simp only [List.cons_append, List.nil_append, luaRemove_second]
    refine (registerValue_spec _ _).mono (fun field w₂ hw₂ => ?_) fun stop _ hstop hthrow => ?_
    · rw [ends_pure]
      refine ⟨?_, (hw₂.1.2.trans hw₁.2 :)⟩
      rw [World.stack_setStack, hw₂.1.1, World.stack_setStack, luaPop_top]
    · obtain ⟨t, ht⟩ := hthrow
      exact absurd ht (hstop t)
  · obtain ⟨t, ht⟩ := hthrow
    exact absurd ht (hstop t)

theorem neutral_getField (o : LuaObject) (field : Option JString) :
    StackNeutral (o.getField env field) := neutral_ofParent env o fun _ => rfl

theorem neutral_checkMethods (o : LuaObject) (clazz : JavaClass) (methods : List JString) :
    StackNeutral (LuaObject.checkMethods env o clazz methods) := by
  induction methods with
  | nil => exact neutral_pure _
  | cons method methods ih =>
    refine (neutral_getField env o _).bind fun field => ?_
    refine (quiet_isFunction field).neutral.bind fun function => ?_
    exact neutral_ite (neutral_throw _) ih

/-! ### Reflection -/

/-- An object that is pushed on the state with this peer, unless it is no `LuaObject` at all. -/
def Own (peer : Nat) (obj : Option JavaObject) : Prop :=
  ∀ L ref, obj = some (.luaObject L ref) → L = peer

/-- Java members that leave the stack alone and return no `LuaObject` of another state. -/
def Member (peer : Nat) (c : Code σ (Option JavaObject)) : Prop :=
  ∀ w, w.peer = peer → Ends c w (fun obj w' => Same w w' ∧ Own peer obj) (IfThrown (Same w))

/-- The Java members that the callbacks run or ask for a value. -/
structure MembersNeutral (peer : Nat) : Prop where
  newInstance : ∀ c objs, StackNeutral (env.newInstance c objs)
  fieldSet : ∀ field obj value, StackNeutral (env.fieldSet field obj value)
  invoke : ∀ m obj objs, Member peer (env.invoke m obj objs)
  fieldGet : ∀ field obj, Member peer (env.fieldGet field obj)
  arrayGet : ∀ obj index s o s', env.arrayGet obj index s = (.ok o, s') → Own peer o

variable {env}

theorem isException_throws {stop : Stop} (h : env.isException stop) : ∃ t, stop = .throws t := by
  cases stop with
  | throws t => exact ⟨t, rfl⟩
  | _ => cases h

theorem isClassNotFound_throws {stop : Stop} (h : stop.isClassNotFound) :
    ∃ t, stop = .throws t := by
  cases stop with
  | throws t => exact ⟨t, rfl⟩
  | _ => cases h

theorem isNamed_throws {name : String} {stop : Stop} (h : isNamed name stop) :
    ∃ t, stop = .throws t := by
  cases stop with
  | throws t => exact ⟨t, rfl⟩
  | _ => cases h

theorem neutral_library (f : Library σ α) : StackNeutral (library f) := fun w =>
  ends_library.mpr ⟨fun _ _ _ => Same.refl w, fun _ _ _ _ => Same.refl w⟩

theorem neutral_allocateArguments (top : Nat) :
    StackNeutral (allocateArguments top : Code σ Unit) :=
  neutral_ite (neutral_throw _) (neutral_pure _)

theorem neutral_rethrow (stop : Stop) : StackNeutral (rethrow env stop : Code σ α) := by
  unfold rethrow
  split <;> exact neutral_throw _

theorem neutral_throwWrapped (stop : Stop) : StackNeutral (throwWrapped env stop : Code σ α) := by
  unfold throwWrapped
  split <;> exact neutral_throw _

theorem neutral_throwWith (message : JString) (stop : Stop) :
    StackNeutral (throwWith message stop : Code σ α) := by
  unfold throwWith
  split <;> exact neutral_throw _

theorem neutral_liftState {f : State → Except LuaException (α × State)}
    (hf : ∀ L a L', f L = .ok (a, L') → L'.stack = L.stack ∧ L'.peer = L.peer) :
    StackNeutral (LuaState.liftState f : Code σ α) := fun w =>
  LuaState.ends_liftState.mpr ⟨fun a L' ha => hf w.lua a L' ha, fun _ _ _ => Same.refl w⟩

theorem stack_of_compareLuaObject {host : Host} {L L' : State} {parameter : JavaClass} {v : Value}
    {o : Option JavaObject} (h : compareLuaObject host L parameter v = .ok (o, L')) :
    L'.stack = L.stack ∧ L'.peer = L.peer := by
  unfold compareLuaObject at h
  split at h <;> cases h
  exact ⟨rfl, rfl⟩

theorem stack_of_compareTypes {host : Host} {L L' : State} {parameter : JavaClass} {idx : Int}
    {o : Option JavaObject} (h : Conversion.compareTypes host L parameter idx = .ok (o, L')) :
    L'.stack = L.stack ∧ L'.peer = L.peer := by
  unfold Conversion.compareTypes compareLuaObject at h
  dsimp only at h
  repeat' split at h
  all_goals cases h
  all_goals exact ⟨rfl, rfl⟩

theorem neutral_forName (name : JString) : StackNeutral (env.forName name) := env.forName_stack name

theorem neutral_createProxy (o : LuaObject) (implem : JString) :
    StackNeutral (o.createProxy env implem) := by
  have hfind : ∀ names, StackNeutral (LuaObject.findInterfaces env o names) := by
    intro names
    induction names with
    | nil => exact neutral_pure _
    | cons name names ih =>
      refine (neutral_forName name).bind fun clazz => ?_
      exact (neutral_checkMethods env o clazz _).bind fun _ => ih.bind fun _ => neutral_pure _
  refine (quiet_isTable o).neutral.bind fun table => neutral_ite (neutral_throw _) ?_
  exact (hfind _).bind fun interfaces => neutral_library _

theorem neutral_compareTypes (parameter : JavaClass) (idx : Int) :
    StackNeutral (JLuaAPI.compareTypes env parameter idx) := by
  intro w
  unfold JLuaAPI.compareTypes
  simp only [ends_bind, ends_get]
  split
  · refine neutral_ite ?_ (neutral_liftState fun _ _ _ => stack_of_compareLuaObject) w
    refine (quiet_registerValue idx).neutral.bind fun o => ?_
    apply ((neutral_createProxy o _).map _).catching (fun _ => isClassNotFound_throws)
    exact fun _ => neutral_throw _
  · exact neutral_liftState (fun _ _ _ => stack_of_compareTypes) w

theorem neutral_convertArguments (parameters : List JavaClass) (j : Int) :
    StackNeutral (convertArguments env parameters j) := by
  induction parameters generalizing j with
  | nil => exact neutral_pure _
  | cons parameter parameters ih =>
    exact (neutral_compareTypes parameter j).bind fun _ => (ih _).bind fun _ => neutral_pure _

theorem neutral_firstAccepting {M : Type} (parameterTypes : M → List JavaClass)
    (candidates : List M) : StackNeutral (firstAccepting env parameterTypes candidates) := by
  induction candidates with
  | nil => exact neutral_pure _
  | cons c candidates ih =>
    refine StackNeutral.bind ?_ fun tried => ?_
    · exact ((neutral_convertArguments _ 2).map _).catching (fun _ => isException_throws)
        fun _ => neutral_pure _
    · cases tried with
      | none => exact ih
      | some => exact neutral_pure _

theorem neutral_getMethod (clazz : JavaClass) (methodName : JString) (top : Nat) :
    StackNeutral (getMethod env clazz methodName top) := neutral_firstAccepting _ _

theorem neutral_getObjInstance {peer : Nat} (h : MembersNeutral env peer) (clazz : JavaClass) :
    StackNeutral (getObjInstance env clazz) := by
  refine (quiet_ask _).neutral.bind fun top => ?_
  refine (neutral_allocateArguments top).bind fun _ => ?_
  refine (neutral_firstAccepting _ _).bind fun chosen => ?_
  cases chosen with
  | none => exact neutral_throw _
  | some r =>
    refine StackNeutral.catching ?_ (fun _ => isException_throws) neutral_rethrow
    exact neutral_ite (h.newInstance _ _) (neutral_throw _)

theorem neutral_classMethod (clazz : JavaClass) (methodName : JString) (top : Nat) :
    StackNeutral (classMethod env clazz methodName top) :=
  (neutral_getMethod clazz methodName top).bind fun _ => neutral_getMethod _ methodName top

/-! ### What the callbacks leave -/

/-- So many new values for what the code returns, and none if it throws. -/
def Pushes (count : α → Nat) (c : Code σ α) (w : World σ) : Prop :=
  Ends c w (fun a w' => ∃ vs, w'.stack = w.stack ++ vs ∧ vs.length = count a)
    (IfThrown fun w' => w'.stack = w.stack)

abbrev Balanced : Code σ Nat → World σ → Prop := Pushes id

theorem pushes_bind {count : β → Nat} {c : Code σ α} {f : α → Code σ β} {w : World σ}
    {P : α → Prop} (hc : Ends c w (fun a w' => Same w w' ∧ P a) (IfThrown (Same w)))
    (hf : ∀ a w', Same w w' → P a → Pushes count (f a) w') : Pushes count (c >>= f) w := by
  unfold Pushes
  rw [ends_bind]
  refine hc.mono (fun a w' ha => ?_) fun _ _ hs hthrow => (hs hthrow).1
  have hb := hf a w' ha.1 ha.2
  unfold Pushes at hb
  rwa [ha.1.1] at hb

theorem StackNeutral.pushes {count : β → Nat} {c : Code σ α} {f : α → Code σ β}
    (hc : StackNeutral c) {w : World σ} (hf : ∀ a w', Same w w' → Pushes count (f a) w') :
    Pushes count (c >>= f) w :=
  pushes_bind (P := fun _ => True) ((hc w).mono (fun _ _ hs => ⟨hs, trivial⟩) fun _ _ => id)
    fun a w' hw _ => hf a w' hw

theorem pushes_throw (count : α → Nat) (stop : Stop) (w : World σ) :
    Pushes count (throw stop : Code σ α) w := fun _ => rfl

theorem balanced_return_zero (w : World σ) : Balanced (return 0) w :=
  ⟨[], (List.append_nil _).symm, rfl⟩

theorem Pushes.return_one {c : Code σ Unit} {w : World σ} (h : Pushes (fun _ => 1) c w) :
    Balanced (c >>= fun _ => return 1) w :=
  ends_bind.mpr (h.mono (fun _ _ => id) fun _ _ => id)

theorem Pushes.catching {count : α → Nat} {c : Code σ α} {kind : Stop → Bool}
    {handler : Stop → Code σ α} {w : World σ} (hc : Pushes count c w)
    (hkind : ∀ stop, kind stop → ∃ t, stop = .throws t)
    (hh : ∀ stop w', Pushes count (handler stop) w') :
    Pushes count (catching c kind handler) w := by
  unfold Pushes
  refine ends_catching.mpr (hc.mono (fun _ _ => id) fun stop w' hs => ?_)
  split
  · next hk =>
    have hb := hh stop w'
    unfold Pushes at hb
    rwa [hs (hkind stop hk)] at hb
  · exact hs

theorem pushes_throwWrapped (count : α → Nat) (stop : Stop) (w : World σ) :
    Pushes count (throwWrapped env stop : Code σ α) w := by
  unfold throwWrapped
  split <;> exact pushes_throw _ _ w

theorem stack_of_pushObjectValue {host : Host} {L L' : State} {obj : Option JavaObject}
    (h : Conversion.pushObjectValue host L obj = .ok L') (hown : Own L.peer obj) :
    ∃ v, L'.stack = L.stack ++ [v] := by
  cases obj with
  | none => cases h; exact ⟨_, rfl⟩
  | some obj =>
    cases obj with
    | luaObject peer ref =>
      simp only [Conversion.pushObjectValue, JavaObject.doubleValue, pushLuaObject,
        if_pos (hown peer ref rfl), Except.ok.injEq] at h
      subst h
      exact ⟨_, rfl⟩
    | boolean | byte | short | integer | long | float | double | otherNumber | string
      | javaFunction => cases h; exact ⟨_, rfl⟩
    | array | byteArray => cases h; exact ⟨_, rfl⟩
    | character | luaException | javaPackage | object =>
      obtain ⟨rfl, _⟩ := pushJavaObject_cases h
      exact ⟨_, rfl⟩

section Push
variable (env)

theorem balanced_pushOne {obj : Option JavaObject} {w : World σ} (hown : Own w.peer obj) :
    Balanced (pushOne env obj) w := by
  apply Pushes.return_one
  unfold Pushes LuaState.pushObjectValue
  rw [LuaState.ends_liftState]
  refine ⟨fun _ L' hL' => ?_, fun _ _ _ => rfl⟩
  cases hp : Conversion.pushObjectValue env.host w.lua obj with
  | error e => rw [hp] at hL'; cases hL'
  | ok L₁ =>
    rw [hp] at hL'
    cases hL'
    obtain ⟨v, hv⟩ := stack_of_pushObjectValue hp hown
    exact ⟨[v], hv, rfl⟩

theorem pushes_pushJavaObject (obj : JavaObject) (w : World σ) :
    Pushes (fun _ => 1) (LuaState.pushJavaObject env obj) w := by
  unfold Pushes LuaState.pushJavaObject
  rw [LuaState.ends_liftState]
  refine ⟨fun _ L' hL' => ?_, fun _ _ _ => rfl⟩
  cases hp : Conversion.pushJavaObject env.host w.lua obj with
  | error e => rw [hp] at hL'; cases hL'
  | ok L₁ =>
    rw [hp] at hL'
    cases hL'
    obtain ⟨rfl, _⟩ := pushJavaObject_cases hp
    exact ⟨_, rfl, rfl⟩

end Push

theorem own_of_getClass {peer : Nat} {obj : JavaObject} (h : obj.getClass ≠ .luaObject) :
    Own peer (some obj) := by
  rintro L ref ⟨⟩
  exact absurd rfl h

/-! ### The callbacks -/

/-- An exception of a member comes out of the handlers as another one. -/
theorem member_catching {peer : Nat} {c : Code σ (Option JavaObject)} (hc : Member peer c) :
    Member peer (catching c env.isException (rethrow env)) := fun w hpeer =>
  ends_catching.mpr ((hc w hpeer).mono (fun _ _ => id) fun stop w' hs => by
    split
    · next hk =>
      have hw := hs (isException_throws hk)
      unfold rethrow
      split <;> exact fun _ => hw
    · exact hs)

theorem neutral_checkIndex (obj : JavaObject) (index : Int) :
    StackNeutral (checkIndex env obj index) :=
  neutral_ite (neutral_throw _) (neutral_ite (neutral_throw _) (neutral_pure _))

theorem balanced_pushClass (c : JavaClass) (w : World σ) :
    Balanced (pushOne env (some (env.classObject c))) w :=
  balanced_pushOne env (own_of_getClass (by simp [env.getClass_classObject]))

theorem balanced_arrayNewIndex (obj : JavaObject) (index : Int) (w : World σ) :
    Balanced (arrayNewIndex env obj index) w := by
  refine (neutral_checkIndex obj index).pushes fun _ w₁ _ => ?_
  refine (neutral_compareTypes _ 3).pushes fun setObj w₂ _ => ?_
  refine StackNeutral.pushes ?_ fun _ w₃ _ => balanced_return_zero w₃
  exact neutral_ite (neutral_throw _) (neutral_ite (neutral_library _) (neutral_throw _))

theorem balanced_newArray (className : JString) (length : Int) (w : World σ) :
    Balanced (newArray env className length) w := by
  have hclass : StackNeutral (arrayClass env className) := by
    unfold arrayClass
    split
    · exact neutral_pure _
    · exact (neutral_forName className).catching (fun _ => isClassNotFound_throws)
        neutral_throwWrapped
  refine hclass.pushes fun component w₁ _ => ?_
  refine pushes_bind (P := fun obj => obj.getClass = .array component) ?_ fun obj w₂ _ hobj => ?_
  · unfold allocateArray
    rw [ends_ite]
    split
    · exact fun _ => Same.refl w₁
    · refine ends_library.mpr ⟨fun obj s' hs' => ⟨Same.refl w₁, ?_⟩, fun _ _ _ _ => Same.refl w₁⟩
      exact env.getClass_newArray component _ w₁.rest obj s' hs'
  · exact balanced_pushOne env (own_of_getClass (by simp [hobj]))

theorem balanced_checkPackage (packName : JString) (w : World σ) :
    Balanced (checkPackage env packName) w := by
  refine StackNeutral.pushes ?_ fun found w₁ _ => ?_
  · exact ((neutral_forName packName).map _).catching (fun _ => isClassNotFound_throws)
      fun _ => neutral_pure _
  · cases found with
    | some clazz => exact balanced_pushClass clazz w₁
    | none =>
      refine pushes_bind (P := fun obj => obj.getClass = .javaPackage) ?_ fun obj w₂ _ hobj => ?_
      · refine ends_library.mpr ⟨fun obj s' hs' => ⟨Same.refl w₁, ?_⟩, fun _ _ _ _ => Same.refl w₁⟩
        exact env.getClass_newJavaPackage packName w₁.rest obj s' hs'
      · exact balanced_pushOne env (own_of_getClass (by simp [hobj]))

theorem balanced_createProxyObject (implem : JString) (w : World σ) :
    Balanced (createProxyObject env implem) w := by
  refine Pushes.return_one (Pushes.catching ?_ (fun _ => isException_throws)
    (pushes_throwWrapped _))
  refine ((quiet_ask _).map _).neutral.pushes fun table w₁ _ => ?_
  split
  · exact pushes_throw _ _ w₁
  · refine (quiet_registerValue 2).neutral.pushes fun luaObj w₂ _ => ?_
    refine (neutral_createProxy luaObj implem).pushes fun proxy w₃ _ => ?_
    exact pushes_pushJavaObject env proxy w₃

section Callbacks
variable {peer : Nat} (h : MembersNeutral env peer)
include h

theorem member_invoke (m : Method) (obj : JavaObject) (objs : List (Option JavaObject)) :
    Member peer (invoke env m obj objs) := by
  intro w hpeer
  unfold invoke
  rw [ends_ite, ends_ite]
  split
  · exact fun _ => Same.refl w
  · split
    · exact fun _ => Same.refl w
    · exact h.invoke m _ objs w hpeer

theorem member_arrayGet (obj : JavaObject) (index : Int) :
    Member peer (JLuaAPI.arrayGet env obj index) := by
  intro w _
  unfold JLuaAPI.arrayGet
  rw [ends_ite]
  split
  · exact fun _ => Same.refl w
  · refine ends_library.mpr ⟨fun o s' ho => ⟨Same.refl w, ?_⟩, fun _ _ _ _ => Same.refl w⟩
    exact h.arrayGet obj _ w.rest o s' ho

theorem balanced_invokeFound (obj : JavaObject) (found : Option (Method × List (Option JavaObject)))
    {w : World σ} (hpeer : w.peer = peer) : Balanced (invokeFound env obj found) w := by
  cases found with
  | none => exact pushes_throw _ _ w
  | some r =>
    refine pushes_bind (member_catching (member_invoke h r.1 obj r.2) w hpeer)
      fun ret w' hw hown => ?_
    split
    · exact balanced_return_zero w'
    · exact balanced_pushOne env ((hw.2.trans hpeer).symm ▸ hown)

theorem balanced_objectIndex (obj : JavaObject) (methodName : JString) {w : World σ}
    (hpeer : w.peer = peer) : Balanced (objectIndex env obj methodName) w := by
  refine (quiet_ask _).neutral.pushes fun top w₁ hw₁ => ?_
  refine (neutral_allocateArguments top).pushes fun _ w₂ hw₂ => ?_
  have hpeer₂ : w₂.peer = peer := (hw₁.trans hw₂).2.trans hpeer
  cases env.asClass obj with
  | none =>
    exact (neutral_getMethod _ _ _).pushes fun found w₃ hw₃ =>
      balanced_invokeFound h _ _ (hw₃.2.trans hpeer₂)
  | some clazz =>
    dsimp only
    split
    · exact (neutral_getObjInstance h clazz).pushes fun ret w₃ _ =>
        (pushes_pushJavaObject env ret w₃).return_one
    · exact (neutral_classMethod _ _ _).pushes fun found w₃ hw₃ =>
        balanced_invokeFound h _ _ (hw₃.2.trans hpeer₂)

theorem balanced_arrayIndex (obj : JavaObject) (index : Int) {w : World σ}
    (hpeer : w.peer = peer) : Balanced (arrayIndex env obj index) w :=
  (neutral_checkIndex obj index).pushes fun _ w₁ hw₁ =>
    have hpeer₁ := hw₁.2.trans hpeer
    pushes_bind (member_arrayGet h obj _ w₁ hpeer₁) fun _ _ hw hown =>
      balanced_pushOne env ((hw.2.trans hpeer₁).symm ▸ hown)

theorem balanced_objectNewIndex (obj : JavaObject) (fieldName : JString) (w : World σ) :
    Balanced (objectNewIndex env obj fieldName) w := by
  unfold objectNewIndex
  cases env.getField (objClass env obj) fieldName with
  | none => exact pushes_throw _ _ w
  | some field =>
    refine (neutral_compareTypes field.type 3).pushes fun setObj w₁ _ => ?_
    refine StackNeutral.pushes ?_ fun _ w₂ _ => balanced_return_zero w₂
    refine StackNeutral.catching ?_ (fun _ => isNamed_throws) (neutral_throwWith _)
    refine StackNeutral.catching ?_ (fun _ => isNamed_throws) (neutral_throwWith _)
    exact neutral_ite (h.fieldSet field obj setObj) (neutral_throw _)

theorem balanced_checkMember (clazz : JavaClass) (obj : JavaObject) (fieldName : JString)
    {w : World σ} (hpeer : w.peer = peer) : Balanced (checkMember env clazz obj fieldName) w := by
  unfold checkMember
  split
  · exact balanced_pushClass _ w
  · cases env.getField clazz fieldName with
    | none => exact balanced_return_zero w
    | some field =>
      refine pushes_bind (P := fun ret => ∀ r, ret = some r → Own peer r) ?_
        fun ret w₁ hw hown => ?_
      · refine ends_catching.mpr (ends_map.mpr ((h.fieldGet field obj w hpeer).mono
          (fun ret w₁ hs => ?_) fun stop w₁ hs => ?_))
        · exact ⟨hs.1, fun r hr => Option.some.inj hr ▸ hs.2⟩
        · split
          · next hk => exact ⟨hs (isException_throws hk), by simp⟩
          · exact hs
      · cases ret with
        | none => exact balanced_return_zero w₁
        | some r => exact balanced_pushOne env ((hw.2.trans hpeer).symm ▸ hown r rfl)

theorem balanced_checkField (obj : JavaObject) (fieldName : JString) {w : World σ}
    (hpeer : w.peer = peer) : Balanced (checkField env obj fieldName) w := by
  unfold checkField
  split
  · exact balanced_checkPackage _ w
  · split
    · exact balanced_return_zero w
    · exact balanced_checkMember h _ _ _ hpeer
  · split
    · exact balanced_pushOne env (own_of_getClass (by simp [JavaObject.getClass]))
    · exact balanced_checkMember h _ _ _ hpeer

end Callbacks

inductive Callback where
  | objectIndex (obj : JavaObject) (methodName : JString)
  | arrayIndex (obj : JavaObject) (index : Int)
  | objectNewIndex (obj : JavaObject) (fieldName : JString)
  | arrayNewIndex (obj : JavaObject) (index : Int)
  | newArray (className : JString) (length : Int)
  | checkField (obj : JavaObject) (fieldName : JString)
  | createProxyObject (implem : JString)

def Callback.run (env : Env σ) : Callback → Code σ Nat
  | objectIndex obj methodName => JLuaAPI.objectIndex env obj methodName
  | arrayIndex obj index => JLuaAPI.arrayIndex env obj index
  | objectNewIndex obj fieldName => JLuaAPI.objectNewIndex env obj fieldName
  | arrayNewIndex obj index => JLuaAPI.arrayNewIndex env obj index
  | newArray className length => JLuaAPI.newArray env className length
  | checkField obj fieldName => JLuaAPI.checkField env obj fieldName
  | createProxyObject implem => JLuaAPI.createProxyObject env implem

theorem balanced_run {w : World σ} (h : MembersNeutral env w.peer) (c : Callback) :
    Balanced (c.run env) w := by
  cases c with
  | objectIndex obj methodName => exact balanced_objectIndex h obj methodName rfl
  | arrayIndex obj index => exact balanced_arrayIndex h obj index rfl
  | objectNewIndex obj fieldName => exact balanced_objectNewIndex h obj fieldName w
  | arrayNewIndex obj index => exact balanced_arrayNewIndex obj index w
  | newArray className length => exact balanced_newArray className length w
  | checkField obj fieldName => exact balanced_checkField h obj fieldName rfl
  | createProxyObject implem => exact balanced_createProxyObject implem w

/-- A callback that returns `n` leaves `n` new values on top, and one that throws leaves none. -/
theorem callbacks_keep_stack {w : World σ} (h : MembersNeutral env w.peer) (c : Callback) :
    (∀ n w', c.run env w = .ok n w' → ∃ vs, w'.stack = w.stack ++ vs ∧ vs.length = n) ∧
    ∀ t w', c.run env w = .error (.throws t) w' → w'.stack = w.stack := by
  obtain ⟨hreturns, hthrows⟩ := ends_iff.mp (balanced_run h c)
  exact ⟨hreturns, fun t w' hw' => hthrows _ w' hw' ⟨t, rfl⟩⟩

theorem membersNeutral_plain (methods : JavaClass → List Method) (peer : Nat) :
    MembersNeutral (Env.plain .plain methods) peer where
  newInstance _ _ := neutral_pure _
  fieldSet _ _ _ := neutral_pure _
  invoke _ _ _ w _ := ⟨Same.refl w, by simp [Own]⟩
  fieldGet _ _ w _ := ⟨Same.refl w, by simp [Own]⟩
  arrayGet _ _ s o s' h := by
    cases h
    simp [Own]

theorem callbacks_keep_stack_newArray :
    ∃ vs, [Value.string [], .userdata 0] = [.string []] ++ vs ∧ vs.length = 1 :=
  (callbacks_keep_stack (w := ⟨⟨1, [.string []], ⟨fun _ => .nil, 0⟩, []⟩, ()⟩)
    (membersNeutral_plain (fun _ => []) 1) (.newArray "int" 3)).1 1
    ⟨⟨1, [.string [], .userdata 0], ⟨fun _ => .nil, 0⟩, [.java (.array (.primitive .int) 0)]⟩, ()⟩
    rfl

end JLua.StackDiscipline
