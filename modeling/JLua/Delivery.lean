import JLua.Lua

/-!
# Lua errors as Java exceptions

An operation that Java starts delivers an error of a protected call as an exception. What it does
outside of protected calls must not fail, since nothing catches an error there.
-/

namespace JLua.Delivery

open BinaryFloat Conversion Metatables ModifiedUtf8 OutcomeRules
set_option autoImplicit false

variable {σ α β : Type}

/-- No Lua error leaves the code. -/
def NeverPanics (c : Code σ α) (w : World σ) : Prop :=
  Ends c w (fun _ _ => True) fun stop _ => ∀ v, stop ≠ .raises v

def Calm (c : Code σ α) : Prop := ∀ w, NeverPanics c w

/-- Code that returns or throws, and does nothing else. -/
def Tame (c : Code σ α) : Prop :=
  ∀ w, Ends c w (fun _ _ => True) fun stop _ => ∃ t, stop = .throws t

def Throws (c : Code σ α) : Prop :=
  ∀ w, Ends c w (fun _ _ => False) fun stop _ => ∃ t, stop = .throws t

theorem neverPanics_iff {c : Code σ α} {w : World σ} :
    NeverPanics c w ↔ ∀ v w', c w ≠ .error (.raises v) w' := by
  unfold NeverPanics
  rw [ends_iff]
  constructor
  · rintro ⟨_, herror⟩ v w' h
    exact herror _ w' h v rfl
  · intro h
    refine ⟨fun _ _ _ => trivial, ?_⟩
    rintro stop w' herror v rfl
    exact h v w' herror

theorem neverPanics_bind {c : Code σ α} {f : α → Code σ β} {w : World σ} :
    NeverPanics (c >>= f) w ↔
      NeverPanics c w ∧ ∀ a w', c w = .ok a w' → NeverPanics (f a) w' := by
  unfold NeverPanics
  rw [ends_bind, ends_iff, ends_iff]
  constructor
  · rintro ⟨hok, herror⟩
    exact ⟨⟨fun _ _ _ => trivial, herror⟩, hok⟩
  · rintro ⟨⟨_, herror⟩, hok⟩
    exact ⟨hok, herror⟩

theorem neverPanics_map {c : Code σ α} {f : α → β} {w : World σ} :
    NeverPanics (f <$> c) w ↔ NeverPanics c w := ends_map

theorem neverPanics_bind_calm {c : Code σ α} {f : α → Code σ β} {w : World σ}
    (hf : ∀ a, Calm (f a)) : NeverPanics (c >>= f) w ↔ NeverPanics c w :=
  neverPanics_bind.trans (and_iff_left fun a w' _ => hf a w')

theorem neverPanics_calm_bind {c : Code σ α} {f : α → Code σ β} {w : World σ} (hc : Calm c) :
    NeverPanics (c >>= f) w ↔ ∀ a w', c w = .ok a w' → NeverPanics (f a) w' :=
  neverPanics_bind.trans (and_iff_right (hc w))

theorem neverPanics_bind_ok {c : Code σ α} {f : α → Code σ β} {w w' : World σ} {a : α}
    (h : c w = .ok a w') : NeverPanics (c >>= f) w ↔ NeverPanics (f a) w' := by
  simp only [neverPanics_iff, bind, EStateM.bind, h]

theorem Calm.bind {c : Code σ α} {f : α → Code σ β} (hc : Calm c) (hf : ∀ a, Calm (f a)) :
    Calm (c >>= f) := fun w => (neverPanics_bind_calm hf).mpr (hc w)

theorem Tame.calm {c : Code σ α} (h : Tame c) : Calm c := fun w =>
  (h w).mono (fun _ _ => id) fun stop _ hstop v hv => by
    obtain ⟨t, ht⟩ := hstop
    cases ht.symm.trans hv

theorem tame_pure (a : α) : Tame (pure a : Code σ α) := fun _ => trivial

theorem tame_throwJava (t : Thrown) : Tame (throwJava t : Code σ α) := fun _ => ⟨t, rfl⟩

theorem tame_throwLuaException (message : JString) :
    Tame (throwLuaException message : Code σ α) := tame_throwJava _

theorem tame_ask (f : World σ → α) : Tame (LuaState.ask f) := fun _ => trivial

theorem tame_get : Tame (get : Code σ (World σ)) := fun _ => trivial

theorem tame_onStack (f : Stack → Stack) : Tame (LuaState.onStack f : Code σ Unit) :=
  fun _ => trivial

theorem tame_pop (n : Nat) : Tame (LuaState.pop n : Code σ Unit) := tame_onStack _

theorem tame_set (w : World σ) : Tame (set w : Code σ PUnit) := fun _ => trivial

theorem tame_liftState (f : State → Except LuaException (α × State)) :
    Tame (LuaState.liftState f : Code σ α) := fun _ =>
  LuaState.ends_liftState.mpr ⟨fun _ _ _ => trivial, fun _ _ => ⟨_, rfl⟩⟩

theorem tame_library (f : Library σ α) : Tame (library f) := fun _ =>
  ends_library.mpr ⟨fun _ _ _ => trivial, fun t _ _ => ⟨t, rfl⟩⟩

theorem Tame.bind {c : Code σ α} {f : α → Code σ β} (hc : Tame c) (hf : ∀ a, Tame (f a)) :
    Tame (c >>= f) := fun w =>
  ends_bind.mpr ((hc w).mono (fun a w' _ => hf a w') fun _ _ => id)

theorem Tame.map {c : Code σ α} (h : Tame c) (f : α → β) : Tame (f <$> c) := fun w =>
  ends_map.mpr (h w)

theorem tame_ite {p : Prop} [Decidable p] {c d : Code σ α} (hc : Tame c) (hd : Tame d) :
    Tame (if p then c else d) := by
  split
  · exact hc
  · exact hd

theorem Tame.catching {c : Code σ α} {kind : Stop → Bool} {handler : Stop → Code σ α}
    (hc : Tame c) (hhandler : ∀ stop, Tame (handler stop)) : Tame (catching c kind handler) := by
  intro w
  apply ends_catching.mpr
  apply (hc w).mono fun _ _ => id
  intro stop w' hstop
  split
  · exact hhandler stop w'
  · exact hstop

theorem throws_throwJava (t : Thrown) : Throws (throwJava t : Code σ α) := fun _ => ⟨t, rfl⟩

theorem Throws.tame {c : Code σ α} (h : Throws c) : Tame c := fun w =>
  (h w).mono (fun _ _ => False.elim) fun _ _ => id

theorem Tame.bind_throws {c : Code σ α} {f : α → Code σ β} (hc : Tame c)
    (hf : ∀ a, Throws (f a)) : Throws (c >>= f) := fun w =>
  ends_bind.mpr ((hc w).mono (fun a w' _ => hf a w') fun _ _ => id)

theorem Throws.error {c : Code σ α} (h : Throws c) (w : World σ) :
    ∃ t w', c w = .error (.throws t) w' := by
  have hw := ends_iff.mp (h w)
  cases hc : c w with
  | ok a w' => exact (hw.1 a w' hc).elim
  | error stop w' =>
    obtain ⟨t, rfl⟩ := hw.2 stop w' hc
    exact ⟨t, w', rfl⟩

/-! ### The calls that cannot fail -/

theorem tame_push (o : LuaObject) : Tame (o.push : Code σ Unit) := fun _ => trivial

theorem tame_registerValue (idx : Int) : Tame (LuaObject.registerValue idx : Code σ LuaObject) :=
  (tame_onStack _).bind fun _ => Tame.bind (fun _ => trivial) fun _ => tame_get.bind fun _ =>
    tame_pure _

theorem Tame.withPushed {look : Code σ α} (h : Tame look) (o : LuaObject) :
    Tame (o.withPushed look) :=
  (tame_push o).bind fun _ => h.bind fun _ => (tame_onStack _).bind fun _ => tame_pure _

theorem tame_type (f : LuaType → α) (idx : Int) : Tame (f <$> LuaState.type idx : Code σ α) :=
  (tame_ask _).map f

theorem tame_getObject (o : LuaObject) : Tame (o.getObject : Code σ JavaObject) := by
  refine Tame.withPushed (tame_get.bind fun w => ?_) o
  cases Conversion.getObjectFromUserdata w.lua (LuaState.valueAt w (-1)) with
  | none => exact tame_throwJava _
  | some obj => exact tame_pure obj

section Env
variable (env : Env σ)

theorem tame_textAt (idx : Int) : Tame (LuaState.toString env idx) := by
  refine tame_get.bind fun w => ?_
  cases LuaState.valueAt w idx with
  | string s => exact tame_pure _
  | number x => exact (tame_onStack _).bind fun _ => tame_pure _
  | _ => exact tame_pure _

theorem tame_text (o : LuaObject) : Tame (o.text env) := by
  refine ((tame_type _ _).withPushed o).bind fun _ => tame_ite (tame_pure _) ?_
  refine ((tame_type _ _).withPushed o).bind fun _ => tame_ite ?_ ?_
  · exact ((tame_ask _).withPushed o).bind fun _ => tame_pure _
  refine ((tame_ask _).withPushed o).bind fun _ => tame_ite ?_ ?_
  · exact ((tame_ask _).withPushed o).bind fun _ => tame_pure _
  refine ((tame_type _ _).withPushed o).bind fun _ => tame_ite ((tame_textAt env _).withPushed o) ?_
  refine ((tame_type _ _).withPushed o).bind fun _ => tame_ite (tame_pure _) ?_
  refine ((tame_ask _).withPushed o).bind fun _ => tame_ite ?_ ?_
  · exact (tame_getObject o).bind fun _ => tame_library _
  refine ((tame_type _ _).withPushed o).bind fun _ => tame_ite (tame_pure _) ?_
  refine ((tame_type _ _).withPushed o).bind fun _ => tame_ite (tame_pure _) ?_
  exact ((tame_ask _).withPushed o).bind fun _ => tame_ite (tame_pure _) (tame_pure _)

theorem tame_toString (o : LuaObject) : Tame (o.toString env) :=
  (tame_text env o).catching fun _ => tame_pure _

theorem tame_pushObjectValue (obj : Option JavaObject) :
    Tame (LuaState.pushObjectValue env obj) := tame_liftState _

theorem throws_handleThrows : Throws (Lua.handleThrows (Lua.state env) : Code σ α) := by
  refine (tame_registerValue _).bind_throws fun exp => ?_
  have hholds : Tame (Lua.holdsThrowable (Lua.state env) exp) :=
    ((tame_ask _).withPushed exp).bind fun _ => tame_ite ((tame_getObject exp).map _) (tame_pure _)
  have hof : Tame (Lua.throwableOf (Lua.state env) exp) :=
    hholds.bind fun _ => tame_ite ((tame_getObject exp).map _) ((tame_toString env exp).map _)
  exact hof.bind_throws fun throwable => (tame_pop 1).bind_throws fun _ =>
    throws_throwJava throwable

theorem throws_callError (err : Int) : Throws (LuaObject.callError env err : Code σ α) := by
  refine (tame_type _ _).bind_throws fun isString => ?_
  split
  · exact (tame_textAt env _).bind_throws fun _ => (tame_onStack _).bind_throws fun _ =>
      throws_throwJava _
  refine (tame_ask _).bind_throws fun isObject => ?_
  split
  · refine (tame_registerValue _).bind_throws fun o => (tame_getObject o).bind_throws fun obj => ?_
    refine (tame_library _).bind_throws fun str => (tame_onStack _).bind_throws fun _ => ?_
    split <;> exact throws_throwJava _
  · exact throws_throwJava _

theorem tame_pushAll (args : List (Option JavaObject)) : Tame (LuaObject.pushAll env args) := by
  induction args with
  | nil => exact tame_pure _
  | cons obj args ih => exact (tame_pushObjectValue env obj).bind fun _ => ih

theorem tame_prepareCall (o : LuaObject) (args : List (Option JavaObject)) :
    Tame (o.prepareCall env args) := by
  refine ((tame_type _ _).withPushed o).bind fun _ => ?_
  refine ((tame_type _ _).withPushed o).bind fun _ => ?_
  refine ((tame_type _ _).withPushed o).bind fun _ => tame_ite (tame_throwJava _) ?_
  exact (tame_ask _).bind fun top => (tame_push o).bind fun _ =>
    (tame_pushAll env args).bind fun _ => tame_pure top

theorem tame_popResults (n : Nat) (res : List (Option JavaObject)) :
    Tame (LuaObject.popResults env n res) := by
  induction n generalizing res with
  | zero => exact tame_pure res
  | succ n ih =>
    exact (tame_liftState _).bind fun obj => (tame_onStack _).bind fun _ => ih (obj :: res)

theorem tame_getResults (top : Nat) (nres : Int) : Tame (LuaObject.getResults env top nres) := by
  refine (tame_ask _).bind fun found => tame_ite (tame_throwJava _) ?_
  exact tame_ite (tame_throwJava _) (tame_popResults env _ _)

theorem calm_pcall (nArgs : Nat) (nResults : Int) : Calm (LuaState.pcall env nArgs nResults) := by
  intro w
  unfold NeverPanics Ends LuaState.pcall
  cases luaPcall env.vm.call w.stack nArgs nResults w.heap with
  | none =>
    intro v hv
    cases hv
  | some r => trivial

theorem calm_LdoString (script : JString) : Calm (LuaState.LdoString env script) := by
  refine tame_get.calm.bind fun w => ?_
  obtain ⟨result, h⟩ := env.loadstring (cString (encode script)) w.heap
  cases result with
  | error message => exact ((tame_set _).bind fun _ => tame_pure _).calm
  | ok f =>
    refine (tame_set _).calm.bind fun _ => (calm_pcall env _ _).bind fun err => ?_
    exact (tame_pure _).calm

theorem calm_call (o : LuaObject) (args : List (Option JavaObject)) (nres : Int) :
    Calm (o.call env args nres) := by
  refine (tame_prepareCall env o args).calm.bind fun top => (calm_pcall env _ _).bind fun err => ?_
  exact (tame_ite (throws_callError env err).tame (tame_getResults env top nres)).calm

/-! ### The accesses that nothing protects -/

theorem neverPanics_access_iff {a : Heap σ → Access (Heap σ)} {w : World σ} :
    NeverPanics (LuaState.access a) w ↔ ¬ Raises (a w.heap) := by
  unfold NeverPanics
  rw [LuaState.ends_access]
  constructor
  · rintro ⟨_, herror, _⟩ ⟨e, h, he⟩
    exact herror e h he e rfl
  · intro h
    refine ⟨fun _ v hv => ?_, fun e s he => absurd ⟨e, s, he⟩ h, fun _ _ _ => trivial⟩
    cases hv

theorem neverPanics_getTable_iff {idx : Int} {w : World σ} :
    NeverPanics (LuaState.getTable env idx) w ↔
      ¬ IndexFails env.vm w.heap (LuaState.valueAt w idx) (LuaState.valueAt w (-1)) := by
  apply (neverPanics_bind_ok rfl).trans
  rw [neverPanics_bind_calm fun v => (tame_onStack _).calm, neverPanics_access_iff,
    raises_luaVGettable_iff]

theorem neverPanics_setTable_iff {idx : Int} {w : World σ} :
    NeverPanics (LuaState.setTable env idx) w ↔
      ¬ NewindexFails env.vm w.heap (LuaState.valueAt w idx) (LuaState.valueAt w (-2))
        (LuaState.valueAt w (-1)) := by
  apply (neverPanics_bind_ok rfl).trans
  rw [neverPanics_bind_calm fun v => (tame_pop 2).calm, neverPanics_access_iff,
    raises_luaVSettable_iff]

def GlobalSafe (name : JString) (w : World σ) : Prop :=
  ¬ IndexFails env.vm w.heap (env.vm.globals w.heap) (LuaState.luaString name)

def SetGlobalSafe (name : JString) (w : World σ) : Prop :=
  ¬ NewindexFails env.vm w.heap (env.vm.globals w.heap) (LuaState.luaString name)
    (LuaState.valueAt w (-1))

theorem neverPanics_getGlobal_iff {name : JString} {w : World σ} :
    NeverPanics (LuaState.getGlobal env name) w ↔ GlobalSafe env name w := by
  apply (neverPanics_bind_calm fun v => (tame_onStack _).calm).trans
  rw [neverPanics_access_iff, raises_luaVGettable_iff]
  rfl

theorem neverPanics_setGlobal_iff {name : JString} {w : World σ} :
    NeverPanics (LuaState.setGlobal env name) w ↔ SetGlobalSafe env name w := by
  apply (neverPanics_bind_ok rfl).trans
  rw [neverPanics_bind_calm fun v => (tame_pop 1).calm, neverPanics_access_iff,
    raises_luaVSettable_iff]
  rfl

/-! ### The operations of LuaObject -/

def denoted (o : LuaObject) (w : World σ) : Value := w.lua.registry.rawGetI o.ref

theorem withPushed_type (f : LuaType → α) (o : LuaObject) (w : World σ) :
    o.withPushed (f <$> LuaState.type (-1)) w = .ok (f (denoted o w).type) w := by
  have htype : luaType (w.stack ++ [denoted o w]) (-1) = (denoted o w).type := by
    rw [luaType, index2adr_top]
    rfl
  have hpop : luaPop (w.stack ++ [denoted o w]) 1 = w.stack := luaPop_top _ _
  rw [← htype]
  exact congrArg (fun L => EStateM.Result.ok _ (w.setStack L)) hpop

def indexable (t : Value) : Bool :=
  t.type = .table || (t.type = .userdata || t.type = .lightuserdata)

/-- Reading the part of an object does not fail, unless the object is refused anyway. -/
def PartSafe (parent : LuaObject) (key : Value) (w : World σ) : Prop :=
  indexable (denoted parent w) → ¬ IndexFails env.vm w.heap (denoted parent w) key

theorem index2adr_second (L : Stack) (v w : Value) : index2adr (L ++ [v] ++ [w]) (-2) = some v := by
  simp [index2adr, absIndex]

/-- The test at the start of the constructors. -/
theorem not_indexable_eq (v : Value) : (!decide (v.type = .table) &&
    !(decide (v.type = .userdata) || decide (v.type = .lightuserdata))) = !indexable v := by
  simp [indexable]

theorem neverPanics_ofParent_iff {parent : LuaObject} {pushName : Code σ Unit} {key : Value}
    {w : World σ} (hpush : ∀ L, pushName (w.setStack L) = .ok () (w.setStack (L ++ [key]))) :
    NeverPanics (LuaObject.ofParent env parent pushName) w ↔ PartSafe env parent key w := by
  unfold LuaObject.ofParent LuaObject.isTable LuaObject.isUserdata LuaState.isTable
    LuaState.isUserdata
  rw [neverPanics_bind_ok (withPushed_type _ parent w),
    neverPanics_bind_ok (withPushed_type _ parent w)]
  rw [not_indexable_eq]
  unfold PartSafe
  split
  · next h =>
    rw [Bool.not_eq_true' _ |>.mp h]
    exact iff_of_true ((tame_throwJava _).calm w) (by simp)
  · next h =>
    have hi : indexable (denoted parent w) = true := by simpa using h
    have htop : LuaState.valueAt (w.setStack (w.stack ++ [denoted parent w] ++ [key])) (-1) =
        key := congrArg (·.getD .nil) (index2adr_top _ key)
    have hbelow : LuaState.valueAt (w.setStack (w.stack ++ [denoted parent w] ++ [key])) (-2) =
        denoted parent w := congrArg (·.getD .nil) (index2adr_second w.stack _ key)
    have hafter : ∀ u : Unit, Calm (do
        LuaState.remove (-2)
        let o ← LuaObject.registerValue (-1)
        LuaState.pop 1
        return o : Code σ LuaObject) := fun _ =>
      ((tame_onStack _).bind fun _ => (tame_registerValue _).bind fun o =>
        (tame_pop 1).bind fun _ => tame_pure o).calm
    have hparent : (parent.push : Code σ Unit) w =
      .ok () (w.setStack (w.stack ++ [denoted parent w])) := rfl
    rw [neverPanics_bind_ok hparent, neverPanics_bind_ok (hpush _), neverPanics_bind_calm hafter,
      neverPanics_getTable_iff, htop, hbelow]
    exact ⟨fun hsafe _ => hsafe, fun hsafe => hsafe hi⟩

def nameKey (name : Option JString) : Value := name.elim .nil LuaState.luaString

theorem neverPanics_ofString_iff {parent : LuaObject} {name : Option JString} {w : World σ} :
    NeverPanics (LuaObject.ofString env parent name) w ↔ PartSafe env parent (nameKey name) w :=
  neverPanics_ofParent_iff env fun _ => rfl

theorem neverPanics_ofNumber_iff {parent : LuaObject} {name : Double} {w : World σ} :
    NeverPanics (LuaObject.ofNumber env parent name) w ↔ PartSafe env parent (.number name) w :=
  neverPanics_ofParent_iff env fun _ => rfl

theorem neverPanics_ofLuaObject_iff {parent name : LuaObject} {w : World σ} :
    NeverPanics (LuaObject.ofLuaObject env parent name) w ↔
      (parent.peer = name.peer → PartSafe env parent (denoted name w) w) := by
  unfold LuaObject.ofLuaObject
  split
  · next h => exact iff_of_true ((tame_throwJava _).calm w) fun h' => absurd h' h
  · next h =>
    have hpeer : parent.peer = name.peer := not_not.mp h
    have hpush : ∀ L, (name.push : Code σ Unit) (w.setStack L) =
      .ok () (w.setStack (L ++ [denoted name w])) := fun _ => rfl
    rw [neverPanics_ofParent_iff env hpush]
    exact ⟨fun hsafe _ => hsafe, fun hsafe => hsafe hpeer⟩

/-- The look-ups for the methods of one interface, up to the first that is missing. -/
def MethodsSafe (o : LuaObject) : List JString → World σ → Prop
  | [], _ => True
  | method :: methods, w =>
    PartSafe env o (LuaState.luaString method) w ∧
      ∀ field w', o.getField env (some method) w = .ok field w' →
        (denoted field w').type = .function → MethodsSafe o methods w'

/-- The look-ups for all the interfaces, as far as they are found and implemented. -/
def InterfacesSafe (o : LuaObject) : List JString → World σ → Prop
  | [], _ => True
  | name :: names, w =>
    ∀ clazz w₁, env.forName name w = .ok clazz w₁ →
      MethodsSafe env o (env.getDeclaredMethods clazz) w₁ ∧
        ∀ w₂, LuaObject.checkMethods env o clazz (env.getDeclaredMethods clazz) w₁ = .ok () w₂ →
          InterfacesSafe o names w₂

def ProxySafe (o : LuaObject) (implem : JString) (w : World σ) : Prop :=
  (denoted o w).type = .table → InterfacesSafe env o (LuaObject.tokens implem) w

theorem neverPanics_checkMethods_iff {o : LuaObject} {clazz : JavaClass} {methods : List JString}
    {w : World σ} :
    NeverPanics (LuaObject.checkMethods env o clazz methods) w ↔ MethodsSafe env o methods w := by
  induction methods generalizing w with
  | nil => exact iff_of_true ((tame_pure _).calm w) trivial
  | cons method methods ih =>
    unfold LuaObject.checkMethods MethodsSafe
    rw [neverPanics_bind]
    refine and_congr (neverPanics_ofString_iff env) (forall₃_congr fun field w' _ => ?_)
    apply (neverPanics_bind_ok (withPushed_type _ field w')).trans
    by_cases hf : (denoted field w').type = .function
    · simpa [hf] using ih
    · simpa [hf] using (tame_throwLuaException _).calm w'

theorem neverPanics_findInterfaces_iff {o : LuaObject} {names : List JString} {w : World σ} :
    NeverPanics (LuaObject.findInterfaces env o names) w ↔ InterfacesSafe env o names w := by
  induction names generalizing w with
  | nil => exact iff_of_true ((tame_pure _).calm w) trivial
  | cons name names ih =>
    unfold LuaObject.findInterfaces InterfacesSafe
    have hforName : Calm (env.forName name) := fun w =>
      neverPanics_iff.mpr fun v w' => env.forName_raises name v w w'
    rw [neverPanics_calm_bind hforName]
    refine forall₃_congr fun clazz w₁ _ => ?_
    rw [neverPanics_bind]
    apply and_congr (neverPanics_checkMethods_iff env)
    refine Iff.trans ⟨fun h => h (), fun h _ => h⟩ (forall₂_congr fun w₂ _ => ?_)
    rw [neverPanics_bind_calm fun _ => (tame_pure _).calm]
    exact ih

theorem neverPanics_createProxy_iff {o : LuaObject} {implem : JString} {w : World σ} :
    NeverPanics (o.createProxy env implem) w ↔ ProxySafe env o implem w := by
  apply (neverPanics_bind_ok (withPushed_type _ o w)).trans
  unfold ProxySafe
  have hproxy : ∀ interfaces, Calm (library (env.newProxyInstance interfaces o.ref)) :=
    fun interfaces => (tame_library _).calm
  by_cases ht : (denoted o w).type = .table
  · simpa [ht, neverPanics_bind_calm hproxy] using neverPanics_findInterfaces_iff env
  · simpa [ht] using (tame_throwLuaException _).calm w

/-! ### The helpers of Lua -/

theorem tame_getLuaObject_pop : Tame (do
    let ret ← LuaObject.registerValue (-1)
    LuaState.pop 1
    return ret : Code σ LuaObject) :=
  (tame_registerValue _).bind fun ret => (tame_pop 1).bind fun _ => tame_pure ret

/-- `new LuaObject(L, name)` does what `getGlobal` does. -/
theorem neverPanics_global_iff {name : JString} {w : World σ} :
    NeverPanics (Lua.getGlobal (Lua.state env) name) w ↔ GlobalSafe env name w :=
  (neverPanics_bind_calm fun _ => tame_getLuaObject_pop.calm).trans (neverPanics_getGlobal_iff env)

/-- Writing the field does not fail, when the table, the key and the value have been pushed. -/
def SetFieldSafe (table : LuaObject) (key value : Option JavaObject) (w : World σ) : Prop :=
  (denoted table w).type = .table →
    ∀ w', LuaObject.pushAll env [some table.toJava, key, value] w = .ok () w' →
      ¬ NewindexFails env.vm w'.heap (LuaState.valueAt w' (-3)) (LuaState.valueAt w' (-2))
        (LuaState.valueAt w' (-1))

theorem pushAll_bind (a b c : Option JavaObject) (f : Unit → Code σ α) :
    (LuaObject.pushAll env [a, b, c] >>= f) =
      (LuaState.pushObjectValue env a >>= fun _ => LuaState.pushObjectValue env b >>= fun _ =>
        LuaState.pushObjectValue env c >>= f) := by
  simp only [LuaObject.pushAll, bind_assoc, pure_bind]

theorem neverPanics_setTableField_iff {table : LuaObject} {key value : Option JavaObject}
    {w : World σ} : NeverPanics (Lua.setTableField (Lua.state env) table key value) w ↔
      SetFieldSafe env table key value w := by
  apply (neverPanics_bind_ok (withPushed_type _ table w)).trans
  unfold SetFieldSafe
  by_cases ht : (denoted table w).type = .table
  · rw [if_neg (by simp [ht])]
    have hpush := pushAll_bind env (some table.toJava) key value fun _ => do
      LuaState.setTable env (-3)
      LuaState.pop 1
    apply Iff.trans (Iff.of_eq (congrArg (NeverPanics · w) hpush.symm))
    rw [neverPanics_calm_bind (tame_pushAll env _).calm]
    refine Iff.trans ⟨fun h _ => h (), fun h _ => h ht⟩ (forall_congr' fun _ => ?_)
    refine forall₂_congr fun w' _ => ?_
    rw [neverPanics_bind_calm fun _ => (tame_pop 1).calm]
    exact neverPanics_setTable_iff env
  · rw [if_pos (by simp [ht])]
    exact iff_of_true ((tame_throwJava _).calm w) fun h => absurd h ht

theorem neverPanics_registerGlobal_iff {name : JString} {obj : Option JavaObject} {w : World σ} :
    NeverPanics (Lua.registerGlobal (Lua.state env) name obj) w ↔
      ∀ w', LuaState.pushObjectValue env obj w = .ok () w' → SetGlobalSafe env name w' := by
  apply (neverPanics_calm_bind (tame_pushObjectValue env obj).calm).trans
  refine Iff.trans ⟨fun h => h (), fun h _ => h⟩ (forall₂_congr fun w' _ => ?_)
  exact neverPanics_setGlobal_iff env

def TableFieldSafe (tableName : JString) (key : Option JavaObject) (w : World σ) : Prop :=
  GlobalSafe env tableName w ∧
    ∀ w₁, LuaState.getGlobal env tableName w = .ok () w₁ → luaType w₁.stack (-1) = .table →
      ∀ w₂, LuaState.pushObjectValue env key w₁ = .ok () w₂ →
        ¬ IndexFails env.vm w₂.heap (LuaState.valueAt w₂ (-2)) (LuaState.valueAt w₂ (-1))

theorem neverPanics_getGlobalTableField_iff {tableName : JString} {key : Option JavaObject}
    {w : World σ} : NeverPanics (Lua.getGlobalTableField (Lua.state env) tableName key) w ↔
      TableFieldSafe env tableName key w := by
  refine neverPanics_bind.trans (and_congr (neverPanics_getGlobal_iff env) ?_)
  refine Iff.trans ⟨fun h => h (), fun h _ => h⟩ (forall₂_congr fun w₁ _ => ?_)
  have htype : LuaState.isTable (-1) w₁ = .ok (decide (luaType w₁.stack (-1) = .table)) w₁ := rfl
  apply (neverPanics_bind_ok htype).trans
  by_cases ht : luaType w₁.stack (-1) = .table
  · rw [if_neg (by simp [ht])]
    apply (neverPanics_calm_bind (tame_pushObjectValue env key).calm).trans
    refine Iff.trans ⟨fun h _ => h (), fun h _ => h ht⟩ (forall_congr' fun _ => ?_)
    refine forall₂_congr fun w₂ _ => ?_
    refine (neverPanics_bind_calm fun _ => ?_).trans (neverPanics_getTable_iff env)
    exact ((tame_registerValue _).bind fun ret => (tame_pop 2).bind fun _ => tame_pure ret).calm
  · rw [if_pos (by simp [ht])]
    refine iff_of_true (((tame_pop 1).bind fun _ => ?_).calm w₁) fun h => absurd h ht
    exact tame_throwJava _

theorem tame_pushArguments (args : List (Option JavaObject)) :
    Tame (Lua.pushAll (Lua.state env) args) := by
  induction args with
  | nil => exact tame_pure _
  | cons obj args ih => exact (tame_pushObjectValue env obj).bind fun _ => ih

theorem tame_getLuaObjects (n : Nat) : Tame (Lua.getLuaObjects (Lua.state env) n) := by
  induction n with
  | zero => exact tame_pure _
  | succ n ih => exact (tame_registerValue _).bind fun _ => ih.bind fun _ => tame_pure _

theorem neverPanics_callFunctionEx_iff {name : JString} {numOfResults : Int}
    {args : List (Option JavaObject)} {w : World σ} :
    NeverPanics (Lua.callFunctionEx (Lua.state env) name numOfResults args) w ↔
      GlobalSafe env name w := by
  have hcall : ∀ u : Unit, Calm (Lua.pushAll (Lua.state env) args >>= fun _ =>
      LuaState.pcall env args.length numOfResults) := fun _ =>
    (tame_pushArguments env args).calm.bind fun _ => calm_pcall env _ _
  refine (neverPanics_bind_calm fun res => ?_).trans
    ((neverPanics_bind_calm hcall).trans (neverPanics_getGlobal_iff env))
  refine (tame_ite (throws_handleThrows env).tame (tame_ite (tame_throwJava _) ?_)).calm
  exact (tame_getLuaObjects env _).bind fun ret => (tame_pop _).bind fun _ => tame_pure ret

/-- What `doString` does for the path of `package`, if a path is set. -/
def ScriptSafe (packagePath : Option JString) (w : World σ) : Prop :=
  ∀ path, packagePath = some path → GlobalSafe env "package" w ∧
    ∀ pck w', Lua.getGlobal (Lua.state env) "package" w = .ok pck w' →
      SetFieldSafe env pck (some (.string "path")) (some (.string path)) w'

theorem neverPanics_doString_iff {packagePath : Option JString} {script : JString} {w : World σ} :
    NeverPanics (Lua.doString env packagePath script) w ↔ ScriptSafe env packagePath w := by
  have hafter : ∀ res : Int, Calm (if res ≠ 0 then Lua.handleThrows (Lua.state env)
      else pure () : Code σ Unit) := fun res =>
    (tame_ite (throws_handleThrows env).tame (tame_pure _)).calm
  refine (neverPanics_bind_calm hafter).trans ((neverPanics_bind_calm fun _ =>
    calm_LdoString env script).trans ?_)
  cases packagePath with
  | none => exact iff_of_true ((tame_pure _).calm w) (by simp [ScriptSafe])
  | some path =>
    refine neverPanics_bind.trans ((and_congr (neverPanics_global_iff env)
      (forall₃_congr fun pck w' _ => neverPanics_setTableField_iff env)).trans ?_)
    simp [ScriptSafe]

theorem neverPanics_proxyOfGlobal_iff {tableName interfaces : JString} {w : World σ} :
    NeverPanics (Lua.createProxy env tableName interfaces) w ↔ GlobalSafe env tableName w ∧
      ∀ o w', Lua.getGlobal (Lua.state env) tableName w = .ok o w' →
        ProxySafe env o interfaces w' :=
  neverPanics_bind.trans (and_congr (neverPanics_global_iff env)
    (forall₃_congr fun _ _ _ => neverPanics_createProxy_iff env))

end Env

/-! ### All of them -/

inductive Operation where
  | ofGlobal (globalName : JString)
  | ofString (parent : LuaObject) (name : Option JString)
  | ofNumber (parent : LuaObject) (name : Double)
  | ofLuaObject (parent name : LuaObject)
  | getField (o : LuaObject) (field : Option JString)
  | call (o : LuaObject) (args : List (Option JavaObject)) (nres : Int)
  | createProxy (o : LuaObject) (implem : JString)
  | doString (packagePath : Option JString) (script : JString)
  | setTableField (table : LuaObject) (key value : Option JavaObject)
  | getGlobal (name : JString)
  | getGlobalTableField (tableName : JString) (key : Option JavaObject)
  | callFunctionEx (name : JString) (numOfResults : Int) (args : List (Option JavaObject))
  | registerGlobal (name : JString) (obj : Option JavaObject)
  | createProxyOfGlobal (tableName interfaces : JString)

namespace Operation
variable (env : Env σ)

def run : Operation → Code σ Unit
  | ofGlobal globalName => (fun _ => ()) <$> LuaObject.ofGlobal env globalName
  | ofString parent name => (fun _ => ()) <$> LuaObject.ofString env parent name
  | ofNumber parent name => (fun _ => ()) <$> LuaObject.ofNumber env parent name
  | ofLuaObject parent name => (fun _ => ()) <$> LuaObject.ofLuaObject env parent name
  | getField o field => (fun _ => ()) <$> o.getField env field
  | call o args nres => (fun _ => ()) <$> o.call env args nres
  | createProxy o implem => (fun _ => ()) <$> o.createProxy env implem
  | doString packagePath script => Lua.doString env packagePath script
  | setTableField table key value => Lua.setTableField (Lua.state env) table key value
  | getGlobal name => (fun _ => ()) <$> Lua.getGlobal (Lua.state env) name
  | getGlobalTableField tableName key =>
    (fun _ => ()) <$> Lua.getGlobalTableField (Lua.state env) tableName key
  | callFunctionEx name numOfResults args =>
    (fun _ => ()) <$> Lua.callFunctionEx (Lua.state env) name numOfResults args
  | registerGlobal name obj => Lua.registerGlobal (Lua.state env) name obj
  | createProxyOfGlobal tableName interfaces =>
    (fun _ => ()) <$> Lua.createProxy env tableName interfaces

/-- The operation up to the end of its protected call, if it makes one. -/
def protectedCall : Operation → Option (Code σ Int)
  | call o args nres =>
    some (o.prepareCall env args >>= fun _ => LuaState.pcall env args.length nres)
  | doString packagePath script => some (Lua.runScript env packagePath script)
  | callFunctionEx name numOfResults args =>
    some (Lua.callGlobal (Lua.state env) name numOfResults args)
  | _ => none

/-- An error never gets out as it is, and one that a protected call reports is thrown. -/
structure Delivered (op : Operation) (w : World σ) : Prop where
  neverPanics : ∀ v w', op.run env w ≠ .error (.raises v) w'
  throws : ∀ c, op.protectedCall env = some c → ∀ err w₁, c w = .ok err w₁ → err ≠ 0 →
    ∃ t w', op.run env w = .error (.throws t) w'

def Safe : Operation → World σ → Prop
  | ofGlobal name, w | getGlobal name, w | callFunctionEx name _ _, w => GlobalSafe env name w
  | ofString parent name, w | getField parent name, w => PartSafe env parent (nameKey name) w
  | ofNumber parent name, w => PartSafe env parent (.number name) w
  | ofLuaObject parent name, w =>
    parent.peer = name.peer → PartSafe env parent (denoted name w) w
  | call _ _ _, _ => True
  | createProxy o implem, w => ProxySafe env o implem w
  | doString packagePath _, w => ScriptSafe env packagePath w
  | setTableField table key value, w => SetFieldSafe env table key value w
  | getGlobalTableField tableName key, w => TableFieldSafe env tableName key w
  | registerGlobal name obj, w =>
    ∀ w', LuaState.pushObjectValue env obj w = .ok () w' → SetGlobalSafe env name w'
  | createProxyOfGlobal tableName interfaces, w =>
    GlobalSafe env tableName w ∧
      ∀ o w', Lua.getGlobal (Lua.state env) tableName w = .ok o w' → ProxySafe env o interfaces w'

variable {env}

theorem neverPanics_run_iff {op : Operation} {w : World σ} :
    NeverPanics (op.run env) w ↔ op.Safe env w := by
  cases op with
  | ofGlobal name | getGlobal name =>
    exact neverPanics_map.trans (neverPanics_global_iff env)
  | ofString parent name | getField parent name =>
    exact neverPanics_map.trans (neverPanics_ofString_iff env)
  | ofNumber parent name => exact neverPanics_map.trans (neverPanics_ofNumber_iff env)
  | ofLuaObject parent name => exact neverPanics_map.trans (neverPanics_ofLuaObject_iff env)
  | call o args nres =>
    exact neverPanics_map.trans (iff_of_true (calm_call env o args nres w) trivial)
  | createProxy o implem => exact neverPanics_map.trans (neverPanics_createProxy_iff env)
  | doString packagePath script => exact neverPanics_doString_iff env
  | setTableField table key value => exact neverPanics_setTableField_iff env
  | getGlobalTableField tableName key =>
    exact neverPanics_map.trans (neverPanics_getGlobalTableField_iff env)
  | callFunctionEx name n args =>
    exact neverPanics_map.trans (neverPanics_callFunctionEx_iff env)
  | registerGlobal name obj => exact neverPanics_registerGlobal_iff env
  | createProxyOfGlobal tableName interfaces =>
    exact neverPanics_map.trans (neverPanics_proxyOfGlobal_iff env)

theorem throws_of_protectedCall {op : Operation} {w w₁ : World σ} {c : Code σ Int} {err : Int}
    (hc : op.protectedCall env = some c) (herr : c w = .ok err w₁) (hne : err ≠ 0) :
    ∃ t w', op.run env w = .error (.throws t) w' := by
  cases op with
  | call o args nres =>
    cases hc
    obtain ⟨top, w₂, hprepare, hpcall⟩ := bind_eq_ok_iff.mp herr
    obtain ⟨t, w', ht⟩ := (throws_callError env err (α := List (Option JavaObject))).error w₁
    refine ⟨t, w', map_eq_error ?_⟩
    rw [LuaObject.call, bind_of_ok hprepare, bind_of_ok hpcall, if_pos hne]
    exact ht
  | doString packagePath script =>
    cases hc
    obtain ⟨t, w', ht⟩ := (throws_handleThrows env (α := Unit)).error w₁
    refine ⟨t, w', ?_⟩
    rw [run, Lua.doString, bind_of_ok herr, if_pos hne]
    exact ht
  | callFunctionEx name numOfResults args =>
    cases hc
    obtain ⟨t, w', ht⟩ := (throws_handleThrows env (α := List LuaObject)).error w₁
    refine ⟨t, w', map_eq_error ?_⟩
    rw [Lua.callFunctionEx, bind_of_ok herr, if_pos hne]
    exact ht
  | _ => cases hc

/-- Every Lua error of an operation becomes an exception exactly if the accesses that are not
protected do not fail. -/
theorem delivered_iff_safe {op : Operation} {w : World σ} : Delivered env op w ↔ op.Safe env w := by
  rw [← neverPanics_run_iff, neverPanics_iff]
  constructor
  · exact Delivered.neverPanics
  · exact fun h => ⟨h, fun c hc err w₁ herr hne => throws_of_protectedCall hc herr hne⟩

end Operation

/-- One table, which the object with the reference 1 denotes. -/
def demoWorld : World Unit := ⟨⟨1, [], ⟨fun i => if i = 1 then .table 1 else .nil, 1⟩, []⟩, ()⟩

/-- `setTableField(table, null, null)` -/
theorem nil_key_not_delivered : ¬ Operation.Delivered (.plain .plain fun _ => [])
    (.setTableField ⟨1, 1⟩ none none) demoWorld := by
  intro h
  exact h.neverPanics (.ofString "table index is nil")
    (demoWorld.setStack [.table 1, .nil, .nil]) rfl

end JLua.Delivery
