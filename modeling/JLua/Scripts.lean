import JLua.Accessors
import JLua.Lib.Runs

/-!
# What scripts leave on the stack

`doString` and `doFile` run a chunk and ask for all of its results, which nobody pops.
-/

namespace JLua.Scripts

open Accessors Calls Conversion Delivery ModifiedUtf8 OutcomeRules Pushing StackDiscipline
open TransitionRuns
set_option autoImplicit false

variable {σ : Type} (env : Env σ)

/-! ### handleThrows -/

variable {env} in
theorem throwableOf_text {o : LuaObject} {w : World σ} {message : Option JString}
    (hget : getObjectFromUserdata w.lua (denoted o w) = none)
    (hmessage : o.toString env w = .ok message w) :
    Lua.throwableOf (Lua.state env) o w = .ok (.luaException message) w := by
  have hno : isObject w.lua (denoted o w) = false := by rw [isObject, hget]; rfl
  have hisObject : (Lua.state env).objectIsJavaObject o w = .ok false w :=
    (isJavaObject_run o w).trans (by rw [hno])
  have hholds : Lua.holdsThrowable (Lua.state env) o w = .ok false w := bind_of_ok hisObject
  have htext : (Thrown.luaException <$> (Lua.state env).objectToString o) w =
      .ok (.luaException message) w := map_eq_ok hmessage
  exact (bind_of_ok hholds).trans htext

/-- The object gives a text, or the `null` that a `LuaException` becomes. -/
def givesMessage (w : World σ) (obj : JavaObject) : Bool :=
  match (env.toString obj w.rest).1 with
  | .ok _ => true
  | .error t => env.isLuaException (.throws t)

variable {env} in
theorem toString_of_object {o : LuaObject} {w : World σ} {obj : JavaObject}
    (hget : getObjectFromUserdata w.lua (denoted o w) = some obj) :
    (givesMessage env w obj ∧ ∃ message s, o.toString env w = .ok message ⟨w.lua, s⟩) ∨
      (¬ givesMessage env w obj ∧ ∃ t s, env.toString obj w.rest = (.error t, s) ∧
        o.toString env w = .error (.throws t) ⟨w.lua, s⟩) := by
  have htext : o.text env w = library (env.toString obj) w := text_of_object hget
  unfold givesMessage
  rcases hresult : env.toString obj w.rest with ⟨t | message, s⟩
  · have hthrown : o.text env w = .error (.throws t) ⟨w.lua, s⟩ :=
      htext.trans (library_throws hresult)
    have hcatch : o.toString env w = if env.isLuaException (.throws t) then
        (return none : Code σ (Option JString)) ⟨w.lua, s⟩ else .error (.throws t) ⟨w.lua, s⟩ :=
      catching_of_error hthrown
    by_cases hexception : env.isLuaException (.throws t) = true
    · rw [if_pos hexception] at hcatch
      exact Or.inl ⟨hexception, none, s, hcatch⟩
    · rw [if_neg hexception] at hcatch
      exact Or.inr ⟨hexception, t, s, rfl, hcatch⟩
  · exact Or.inl ⟨rfl, message, s, catching_of_ok (htext.trans (library_run hresult))⟩

/-- An exception can be made of the value: it is no Java object or a `Throwable`, or it gives a
message. -/
def reportable (w : World σ) (v : Value) : Bool :=
  (getObjectFromUserdata w.lua v).all fun obj => env.isThrowable obj || givesMessage env w obj

theorem throwableOf_run (o : LuaObject) (w : World σ) : ∃ t s,
    (reportable env w (denoted o w) ∧ Lua.throwableOf (Lua.state env) o w = .ok t ⟨w.lua, s⟩ ∧
        Carries env w.lua (denoted o w) t) ∨
      (¬ reportable env w (denoted o w) ∧
        Lua.throwableOf (Lua.state env) o w = .error (.throws t) ⟨w.lua, s⟩ ∧
        ThrownByText env w (denoted o w) t) := by
  unfold reportable
  cases hget : getObjectFromUserdata w.lua (denoted o w) with
  | none =>
    obtain ⟨message, hmessage⟩ := toString_of_none env hget
    refine ⟨_, w.rest, Or.inl ⟨rfl, throwableOf_text hget hmessage, ?_⟩⟩
    apply carries_luaException
    intro obj hobj
    rw [hget] at hobj
    cases hobj
  | some obj =>
    have hyes : isObject w.lua (denoted o w) = true := by rw [isObject, hget]; rfl
    have hisObject : (Lua.state env).objectIsJavaObject o w = .ok true w :=
      (isJavaObject_run o w).trans (by rw [hyes])
    have hobject : (Lua.state env).objectGetObject o w = .ok obj w := getObject_run hget
    have hholds : Lua.holdsThrowable (Lua.state env) o w = .ok (env.isThrowable obj) w :=
      (bind_of_ok hisObject).trans (map_eq_ok hobject)
    rw [Option.all_some]
    by_cases hthrowable : env.isThrowable obj = true
    · rw [hthrowable] at hholds
      refine ⟨.throwable obj, w.rest, Or.inl ⟨by rw [hthrowable]; rfl,
        (bind_of_ok hholds).trans (map_eq_ok hobject), fun obj' => ?_⟩⟩
      rw [hget]
      constructor
      · rintro ⟨⟩
        exact ⟨rfl, hthrowable⟩
      · rintro ⟨⟨⟩, _⟩
        rfl
    · rw [Bool.not_eq_true] at hthrowable
      rw [hthrowable] at hholds
      rw [hthrowable, Bool.false_or]
      obtain ⟨hgives, message, s, hmessage⟩ | ⟨hno, t, s, htext, hthrown⟩ :=
        toString_of_object hget
      · refine ⟨.luaException message, s, Or.inl ⟨hgives, ?_, ?_⟩⟩
        · exact (bind_of_ok hholds).trans (map_eq_ok hmessage)
        · apply carries_luaException
          intro obj' hobj'
          rw [hget] at hobj'
          cases hobj'
          rw [hthrowable]
          exact Bool.false_ne_true
      · refine ⟨t, s, Or.inr ⟨hno, ?_, obj, s, hget, htext⟩⟩
        exact (bind_of_ok hholds).trans (map_eq_error hthrown)

variable {env} in
theorem handleThrows_eq {K : Stack} {e : Value} {w : World σ} (α : Type)
    (hw : w.stack = K ++ [e]) : (Lua.handleThrows (Lua.state env) : Code σ α) w =
      (Lua.throwableOf (Lua.state env) ⟨w.peer, (w.lua.registry.luaLRef e).1⟩ >>= fun throwable =>
        LuaState.pop 1 >>= fun _ => throwJava throwable) (registered e w) := by
  have hindex : index2adr w.stack (-1) = some e := by rw [hw, index2adr_top]
  have hregister : (Lua.state env).getLuaObject (-1) w =
      .ok ⟨w.peer, (w.lua.registry.luaLRef e).1⟩ (registered e w) := registerValue_run hindex
  exact bind_of_ok hregister

variable {env} in
theorem handleThrows_of_throwable {K : Stack} {e : Value} {w w₁ : World σ} {t : Thrown} (α : Type)
    (hw : w.stack = K ++ [e]) (hw₁ : w₁.stack = K ++ [e])
    (ht : Lua.throwableOf (Lua.state env) ⟨w.peer, (w.lua.registry.luaLRef e).1⟩
      (registered e w) = .ok t w₁) :
    (Lua.handleThrows (Lua.state env) : Code σ α) w = .error (.throws t) (w₁.setStack K) := by
  rw [handleThrows_eq α hw, bind_of_ok ht, bind_of_ok (pop_run hw₁)]
  rfl

/-- What the object for an error stands for; `nil` has no reference of its own. -/
def reported (e : Value) (w : World σ) : Value :=
  denoted ⟨w.peer, (w.lua.registry.luaLRef e).1⟩ (registered e w)

theorem reported_of_ne_nil {e : Value} (w : World σ) (he : e ≠ .nil) : reported e w = e :=
  w.lua.registry.rawGetI_luaLRef he

def popsThrown (w : World σ) (e : Value) : Bool := reportable env w (reported e w)

theorem handleThrows_run {K : Stack} {e : Value} {w : World σ} (α : Type)
    (hw : w.stack = K ++ [e]) :
    ∃ t w', (Lua.handleThrows (Lua.state env) : Code σ α) w = .error (.throws t) w' ∧
      (w'.stack = if popsThrown env w e then K else K ++ [e]) ∧
      (popsThrown env w e → e ≠ .nil → Carries env w.lua e t) ∧
      (¬ popsThrown env w e → ThrownByText env w (reported e w) t) := by
  have hsame : reportable env (registered e w) (reported e w) = popsThrown env w e := rfl
  obtain ⟨t, s, ⟨hpops, hrun, hcarries⟩ | ⟨hstays, hrun, hthrown⟩⟩ :=
    throwableOf_run env ⟨w.peer, (w.lua.registry.luaLRef e).1⟩ (registered e w)
  · have hpops : popsThrown env w e = true := hpops
    let w₁ : World σ := ⟨(registered e w).lua, s⟩
    have hw₁ : w₁.stack = K ++ [e] := hw
    rw [if_pos hpops]
    refine ⟨t, _, handleThrows_of_throwable α hw hw₁ hrun, rfl, fun _ he => ?_,
      fun hno => absurd hpops hno⟩
    have hcarries : Carries env w.lua (reported e w) t := hcarries
    rwa [reported_of_ne_nil w he] at hcarries
  · have hstays : ¬ popsThrown env w e = true := hstays
    rw [if_neg hstays]
    refine ⟨t, _, (handleThrows_eq α hw).trans (bind_of_error hrun), hw,
      fun hyes => absurd hyes hstays, fun _ => hthrown⟩

/-! ### package.path -/

/-- The stack is `K` when the code returns and when it throws. -/
def Restores {α : Type} (K : Stack) (c : Code σ α) (w : World σ) : Prop :=
  Ends c w (fun _ w' => w'.stack = K) (IfThrown fun w' => w'.stack = K)

theorem not_ifThrown {P : World σ → Prop} {stop : Stop} {w : World σ}
    (h : ∀ t, stop ≠ .throws t) : IfThrown P stop w := by
  rintro ⟨t, ht⟩
  exact absurd ht (h t)

theorem restores_setTableField {table : LuaObject} {w : World σ} (htable : table.peer = w.peer)
    (key value : JString) :
    Restores w.stack (Lua.setTableField (Lua.state env) table (some (.string key))
      (some (.string value))) w := by
  let objs := [some table.toJava, some (.string key), some (.string value)]
  have hisTable : (Lua.state env).objectIsTable table w =
      .ok (decide ((denoted table w).type = .table)) w := withPushed_type _ table w
  unfold Restores Lua.setTableField
  rw [ends_bind, ends_of_ok hisTable]
  by_cases ht : (denoted table w).type = .table
  · rw [if_neg (by simp [ht])]
    have hargs : Accepted env objs := by simp [objs, Accepted, denial, LuaObject.toJava]
    have hown : foreign w.lua.peer objs = 0 := by
      apply foreign_eq_zero_iff.mpr
      intro obj hobj L ref hluaObject
      subst hluaObject
      obtain ⟨rfl, _⟩ : L = table.peer ∧ ref = table.ref := by
        simpa [objs, LuaObject.toJava] using hobj
      exact htable
    have hpush := pushAll_bind env (some table.toJava) (some (.string key))
      (some (.string value)) fun _ => LuaState.setTable env (-3) >>= fun _ => LuaState.pop 1
    have hlength := length_images w.lua objs
    have hpop : luaPop (given objs w).stack 3 = w.stack := by
      rw [stack_given]
      apply (luaPop_eq_iff (k := 0) (List.prefix_append _ _) ?_ (Nat.zero_le _)).mpr rfl
      rw [List.length_append]
      change _ + foreign w.lua.peer objs = 3 at hlength
      omega
    apply (Iff.of_eq (congrArg (Ends · w _ _) hpush.symm)).mpr
    rw [ends_bind, ends_of_ok (pushAll_of_accepted hargs w)]
    apply (consumes_setTable (given objs w)).mono
    · intro _ w' hw'
      exact hw'.trans hpop
    · intro stop w' hstop
      exact not_ifThrown hstop
  · rw [if_pos (by simp [ht])]
    exact fun _ => rfl

theorem restores_setPackagePath (packagePath : Option JString) (w : World σ) :
    Restores w.stack (Lua.setPackagePath env packagePath) w := by
  cases packagePath with
  | none => exact rfl
  | some path =>
    unfold Restores Lua.setPackagePath
    rw [ends_bind]
    rcases getGlobal_run env "package" w with ⟨v, h, hrun⟩ | ⟨stop, w', hrun, hstop⟩
    · have hglobal : Lua.getGlobal (Lua.state env) "package" w = _ :=
        (bind_of_ok hrun).trans (getLuaObject_run rfl)
      rw [ends_of_ok hglobal]
      exact restores_setTableField env rfl "path" path
    · have hglobal : Lua.getGlobal (Lua.state env) "package" w = _ := bind_of_error hrun
      rw [ends_of_error hglobal]
      exact not_ifThrown hstop

/-! ### The chunk -/

/-- A chunk that `lua_load` makes a function of, or not. -/
abbrev Load (σ : Type) := Heap σ → Except Value Value × Heap σ

def doChunk (load : Load σ) : Code σ Int := do
  let w ← get
  match load w.heap with
  | (.error message, h) =>
    set ((w.setStack (w.stack ++ [message])).setHeap h)
    return 1
  | (.ok f, h) =>
    set ((w.setStack (w.stack ++ [f])).setHeap h)
    let err ← LuaState.pcall env 0 LUA_MULTRET
    return if err ≠ 0 then 1 else 0

theorem doChunk_of_error {load : Load σ} {w : World σ} {message : Value} {h : Heap σ}
    (hload : load w.heap = (.error message, h)) :
    doChunk env load w = .ok 1 ((w.setStack (w.stack ++ [message])).setHeap h) := by
  rw [doChunk, get_bind, hload]
  rfl

theorem doChunk_of_ok {load : Load σ} {w : World σ} {f : Value} {h : Heap σ}
    (hload : load w.heap = (.ok f, h)) :
    doChunk env load w =
      match env.vm.call f [] h with
      | none => .error .hangs ((w.setStack (w.stack ++ [f])).setHeap h)
      | some (.error e, h') => .ok 1 ((w.setStack (w.stack ++ [e])).setHeap h')
      | some (.ok vs, h') => .ok 0 ((w.setStack (w.stack ++ vs)).setHeap h') := by
  let w₁ := (w.setStack (w.stack ++ [f])).setHeap h
  have hchunk : doChunk env load w = (LuaState.pcall env 0 LUA_MULTRET >>= fun err =>
      return if err ≠ 0 then 1 else 0) w₁ := by
    rw [doChunk, get_bind, hload]
    rfl
  have hpcall := pcall_append env (K := w.stack) (w := w₁) (f := f) [] LUA_MULTRET rfl
  have hheap : w₁.heap = h := rfl
  rw [hheap, List.length_nil] at hpcall
  rw [hchunk]
  rcases hcall : env.vm.call f [] h with _ | ⟨e | vs, h'⟩
  · rw [hcall] at hpcall
    exact bind_of_error hpcall
  · rw [hcall] at hpcall
    exact bind_of_ok hpcall
  · rw [hcall] at hpcall
    exact bind_of_ok hpcall

def runChunk (load : Load σ) : Code σ Unit := do
  let res ← doChunk env load
  if res ≠ 0 then Lua.handleThrows (Lua.state env)
  else pure ()

/-- The function is called without arguments, and what it returns is known. -/
def ChunkReturns (load : Load σ) (w : World σ) (vs : List Value) : Prop :=
  ∃ f h h', load w.heap = (.ok f, h) ∧ env.vm.call f [] h = some (.ok vs, h')

theorem ChunkReturns.unique {env : Env σ} {load : Load σ} {w : World σ} {vs vs' : List Value}
    (h : ChunkReturns env load w vs) (h' : ChunkReturns env load w vs') : vs = vs' := by
  obtain ⟨f, h₁, h₂, hload, hcall⟩ := h
  obtain ⟨f', h₁', h₂', hload', hcall'⟩ := h'
  cases hload.symm.trans hload'
  cases hcall.symm.trans hcall'
  rfl

/-- The chunk cannot be loaded or raises an error, which leaves the heap `h`. -/
def ChunkRaises (load : Load σ) (w : World σ) (e : Value) (h : Heap σ) : Prop :=
  load w.heap = (.error e, h) ∨
    ∃ f h₁, load w.heap = (.ok f, h₁) ∧ env.vm.call f [] h₁ = some (.error e, h)

theorem ChunkRaises.unique {env : Env σ} {load : Load σ} {w : World σ} {e e' : Value}
    {h h' : Heap σ} (hraises : ChunkRaises env load w e h)
    (hraises' : ChunkRaises env load w e' h') : e = e' ∧ h = h' := by
  rcases hraises with hload | ⟨f, h₁, hload, hcall⟩ <;>
    rcases hraises' with hload' | ⟨f', h₁', hload', hcall'⟩ <;>
    cases hload.symm.trans hload'
  · exact ⟨rfl, rfl⟩
  · cases hcall.symm.trans hcall'
    exact ⟨rfl, rfl⟩

theorem ChunkRaises.not_returns {env : Env σ} {load : Load σ} {w : World σ} {e : Value}
    {h : Heap σ} (hraises : ChunkRaises env load w e h) (vs : List Value) :
    ¬ ChunkReturns env load w vs := by
  rintro ⟨f, h₁, h₂, hload, hcall⟩
  rcases hraises with hload' | ⟨f', h₁', hload', hcall'⟩
  · cases hload.symm.trans hload'
  · cases hload.symm.trans hload'
    cases hcall.symm.trans hcall'

/-- The results stay on the stack, and an error stays that `handleThrows` does not pop. -/
theorem runChunk_ends (load : Load σ) (w : World σ) :
    Ends (runChunk env load) w
      (fun _ w' => ∃ vs, ChunkReturns env load w vs ∧ w'.stack = w.stack ++ vs)
      (IfThrown fun w' => ∃ e h, ChunkRaises env load w e h ∧
        w'.stack = if popsThrown env (w.setHeap h) e then w.stack else w.stack ++ [e]) := by
  unfold runChunk
  rcases hload : load w.heap with ⟨message | f, h⟩
  · obtain ⟨t, w', hrun, hstack, _⟩ :=
      handleThrows_run env Unit (w := (w.setStack (w.stack ++ [message])).setHeap h) rfl
    rw [ends_bind, ends_of_ok (doChunk_of_error env hload)]
    apply (ends_of_error hrun).mpr
    intro _
    exact ⟨message, h, Or.inl hload, hstack⟩
  · have hchunk := doChunk_of_ok env hload
    rcases hcall : env.vm.call f [] h with _ | ⟨e | vs, h'⟩
    · rw [hcall] at hchunk
      rw [ends_bind, ends_of_error hchunk]
      exact not_ifThrown (by simp)
    · rw [hcall] at hchunk
      obtain ⟨t, w', hrun, hstack, _⟩ :=
        handleThrows_run env Unit (w := (w.setStack (w.stack ++ [e])).setHeap h') rfl
      rw [ends_bind, ends_of_ok hchunk]
      apply (ends_of_error hrun).mpr
      intro _
      exact ⟨e, h', Or.inr ⟨f, h, hload, hcall⟩, hstack⟩
    · rw [hcall] at hchunk
      rw [ends_bind, ends_of_ok hchunk]
      exact ⟨vs, ⟨f, h, h', hload, hcall⟩, rfl⟩

/-! ### Sequences of scripts -/

inductive Script where
  | doString (packagePath : Option JString) (script : JString)
  | doFile (packagePath : Option JString) (path : JString)

section Scripts
variable (loadfile : List UInt8 → Heap σ → Except Value Value × Heap σ)
  (getParent : JString → Option JString)

namespace Script

def run : Script → Code σ Unit
  | doString packagePath script => Lua.doString env packagePath script
  | doFile packagePath path => Lua.doFile env loadfile getParent packagePath path

/-- The text that becomes `package.path`, if any. -/
def path : Script → Option JString
  | doString packagePath _ => packagePath
  | doFile packagePath path =>
    let parent := (getParent path).getD "null"
    packagePath.map fun packagePath =>
      packagePath ++ javaString ";" ++ parent ++ javaString "/?.lua" ++ javaString ";" ++ parent ++
        javaString "/?"

def load : Script → Load σ
  | doString _ script => env.loadstring (cString (encode script))
  | doFile _ path => loadfile (cString (encode path))

theorem run_eq (s : Script) : s.run env loadfile getParent =
    Lua.setPackagePath env (s.path getParent) >>= fun _ => runChunk env (s.load env loadfile) := by
  cases s with
  | doString packagePath script => exact bind_assoc _ _ _
  | doFile packagePath path => rfl

/-- The chunk, if it is reached, returns no value, or it ends with an error that `handleThrows`
pops. -/
def LeavesNothing (w : World σ) (s : Script) : Prop :=
  ∀ w₁, Lua.setPackagePath env (s.path getParent) w = .ok () w₁ →
    (∀ vs, ChunkReturns env (s.load env loadfile) w₁ vs → vs = []) ∧
      ∀ e h, ChunkRaises env (s.load env loadfile) w₁ e h → popsThrown env (w₁.setHeap h) e

/-- One call, which returns or throws. -/
def Step (w : World σ) (s : Script) (w' : World σ) : Prop :=
  s.run env loadfile getParent w = .ok () w' ∨
    ∃ t, s.run env loadfile getParent w = .error (.throws t) w'

theorem stack_of_step_iff {w w' : World σ} {s : Script} (h : Step env loadfile getParent w s w') :
    w'.stack = w.stack ↔ LeavesNothing env loadfile getParent w s := by
  have hpath := restores_setPackagePath env (s.path getParent) w
  unfold Step at h
  rw [run_eq] at h
  cases hset : Lua.setPackagePath env (s.path getParent) w with
  | error stop w₁ =>
    rw [bind_of_error hset] at h
    obtain h | ⟨t, h⟩ := h
    · cases h
    · cases h
      refine iff_of_true ?_ fun w₁ hw₁ => ?_
      · exact (ends_of_error hset).mp hpath ⟨t, rfl⟩
      · cases hset.symm.trans hw₁
  | ok u w₁ =>
    have hw₁ : w₁.stack = w.stack := (ends_of_ok hset).mp hpath
    have hchunk := runChunk_ends env (s.load env loadfile) w₁
    rw [bind_of_ok hset] at h
    have hleaves : LeavesNothing env loadfile getParent w s ↔
        (∀ vs, ChunkReturns env (s.load env loadfile) w₁ vs → vs = []) ∧
          ∀ e h, ChunkRaises env (s.load env loadfile) w₁ e h →
            popsThrown env (w₁.setHeap h) e := by
      constructor
      · intro hall
        exact hall w₁ hset
      · intro hall w₂ hw₂
        cases hset.symm.trans hw₂
        exact hall
    rw [hleaves, ← hw₁]
    obtain h | ⟨t, h⟩ := h
    · obtain ⟨vs, hvs, hstack⟩ := (ends_of_ok h).mp hchunk
      rw [hstack, List.append_right_eq_self]
      constructor
      · rintro rfl
        exact ⟨fun vs' hvs' => hvs'.unique hvs, fun e h he => absurd hvs (he.not_returns _)⟩
      · intro hall
        exact hall.1 vs hvs
    · obtain ⟨e, h', he, hstack⟩ := (ends_of_error h).mp hchunk ⟨t, rfl⟩
      rw [hstack]
      by_cases hpops : popsThrown env (w₁.setHeap h') e = true
      · rw [if_pos hpops]
        refine iff_of_true rfl ⟨fun vs hvs => absurd hvs (he.not_returns vs), fun e' h₁ he' => ?_⟩
        obtain ⟨rfl, rfl⟩ := he.unique he'
        exact hpops
      · rw [if_neg hpops]
        refine iff_of_false (fun hsame => ?_) fun hall => hpops (hall.2 e h' he)
        have hlength := congrArg List.length hsame
        rw [List.length_append, List.length_singleton] at hlength
        omega

/-- In a sequence of scripts the stack stays as it was before the first one exactly if no chunk
leaves anything on it. -/
theorem scripts_leave_stack_iff {w₀ w : World σ} {log : List (World σ × Script)}
    (run : Run (Step env loadfile getParent) w₀ log w) :
    Visits (fun w' => w'.stack = w₀.stack) log w ↔
      Meets (LeavesNothing env loadfile getParent) log := by
  apply run.visits_iff_meets (P := fun w' => w'.stack = w₀.stack) (I := fun _ => True) trivial rfl
    (fun _ _ _ _ _ => trivial)
  intro w₁ s w₂ _ hw₁ hstep
  rw [← hw₁]
  exact stack_of_step_iff env loadfile getParent hstep

end Script
end Scripts

namespace Script

/-- Every key holds one table, and functions return the values `rs`. -/
def packageVm (rs : List Value) : Metatables.Vm (Heap Unit) :=
  { Metatables.Vm.plain with
    rawget := fun _ _ _ => .table 1
    call := fun _ _ h => some (.ok rs, h) }

def packageEnv (rs : List Value) : Env Unit := Env.plain (packageVm rs) fun _ => []

def freshWorld : World Unit := ⟨⟨1, [], ⟨fun _ => .nil, 0⟩, []⟩, ()⟩

def noFile (name : List UInt8) (h : Heap Unit) : Except Value Value × Heap Unit :=
  (.error (.string (encode "cannot open " ++ name)), h)

theorem popsThrown_string {σ : Type} (env : Env σ) (w : World σ) (s : List UInt8) :
    popsThrown env w (.string s) := by
  rw [popsThrown, reported_of_ne_nil w (by simp)]
  rfl

/-- A script that returns nothing, and a file that is not there. -/
theorem scripts_leave_stack_iff_empty : ∃ log w,
    Run (Step (packageEnv []) noFile fun _ => none) freshWorld log w ∧
      log.map Prod.snd = [.doString (some "/?") "print(1)", .doFile none "a.lua"] ∧
      Visits (fun w' => w'.stack = freshWorld.stack) log w := by
  obtain ⟨w₁, hfirst⟩ : ∃ w₁, (doString (some "/?") "print(1)").run (packageEnv []) noFile
      (fun _ => none) freshWorld = .ok () w₁ := ⟨_, rfl⟩
  obtain ⟨t, w₂, hsecond, _⟩ := handleThrows_run (packageEnv []) Unit
    (w := w₁.setStack (w₁.stack ++ [.string (encode "cannot open a.lua")])) rfl
  have hsecond : Step (packageEnv []) noFile (fun _ => none) w₁ (.doFile none "a.lua") w₂ :=
    Or.inr ⟨t, hsecond⟩
  have run : Run (Step (packageEnv []) noFile fun _ => none) freshWorld _ w₂ :=
    .next (.one (a := .doString (some "/?") "print(1)") (Or.inl hfirst)) hsecond
  refine ⟨_, _, run, rfl, (scripts_leave_stack_iff _ _ _ run).mpr ?_⟩
  intro x hx w₃ _
  rcases List.mem_append.mp hx with hx | hx
  · rw [List.mem_singleton.mp hx]
    constructor
    · rintro vs ⟨f, h, h', _, hcall⟩
      cases hcall
      rfl
    · rintro e h (hload | ⟨f, h₁, _, hcall⟩)
      · cases hload
      · cases hcall
  · rw [List.mem_singleton.mp hx]
    constructor
    · rintro vs ⟨f, h, h', hload, _⟩
      cases hload
    · rintro e h (hload | ⟨f, h₁, hload, _⟩)
      · cases hload
        exact popsThrown_string _ _ _
      · cases hload

/-- The result of `return 1` stays on the stack. -/
theorem result_stays : ∃ log w,
    Run (Step (packageEnv [.boolean true]) noFile fun _ => none) freshWorld log w ∧
      log.map Prod.snd = [.doString (some "/?") "return true"] ∧
      ¬ Visits (fun w' => w'.stack = freshWorld.stack) log w := by
  have run : Run (Step (packageEnv [.boolean true]) noFile fun _ => none) freshWorld _ _ :=
    .one (a := .doString (some "/?") "return true") (Or.inl rfl)
  refine ⟨_, _, run, rfl, fun h => ?_⟩
  have hleft : [Value.boolean true] = [] := h.2
  cases hleft

end Script

end JLua.Scripts
