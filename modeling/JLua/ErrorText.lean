import JLua.GlobalCalls

/-!
# The text of an error

`toString` of an object asks whether it is a number before it asks whether it is a string, and
`lua_isnumber` takes every string that Lua can read as a number. `doString`, `doFile` and
`callFunctionEx` make the message of their exception with it.
-/

namespace JLua.ErrorText

open Accessors Calls Conversion Delivery GlobalCalls ModifiedUtf8 OutcomeRules Pushing Scripts
set_option autoImplicit false

variable {σ : Type} (env : Env σ)

/-! ### The text of a string -/

/-- What `toString` makes of a string. -/
def text (s : List UInt8) : JString :=
  match env.stringToNumber s with
  | some x => env.doubleToString x
  | none => env.host.newStringUTF (cString s)

/-- Lua reads no number from the string, and Java can have it; or Java writes the number that Lua
reads as it stands there. -/
def Preserved (s : List UInt8) : Prop :=
  (env.stringToNumber s = none ∧ ∃ j, s = encode j) ∨
    ∃ x, env.stringToNumber s = some x ∧ s = encode (env.doubleToString x)

theorem encode_text_iff {env : Env σ} (hutf : ∀ j, env.host.newStringUTF (encode j) = j)
    (s : List UInt8) : encode (text env s) = s ↔ Preserved env s := by
  unfold text Preserved
  cases hnumber : env.stringToNumber s with
  | some x => simp [eq_comm]
  | none =>
    simp only [true_and, reduceCtorEq, false_and, exists_false, or_false]
    constructor
    · intro h
      exact ⟨_, h.symm⟩
    · rintro ⟨j, rfl⟩
      rw [cString_encode, hutf]

variable {o : LuaObject} {s : List UInt8} {w : World σ}

theorem valueAt_pushed (hs : denoted o w = .string s) :
    LuaState.valueAt (w.setStack (w.stack ++ [denoted o w])) (-1) = .string s := by
  rw [hs]
  exact valueAt_top rfl

theorem isNumber_string (hs : denoted o w = .string s) :
    o.isNumber env w = .ok (env.stringToNumber s).isSome w := by
  have htop := valueAt_pushed hs
  refine (withPushed_ask _ o w).trans ?_
  rw [htop]

theorem getNumber_string (hs : denoted o w = .string s) :
    o.getNumber env w = .ok ((env.stringToNumber s).getD (.ofInt _ 0)) w := by
  have htop := valueAt_pushed hs
  refine (withPushed_ask _ o w).trans ?_
  rw [htop]

theorem getString_string (hs : denoted o w = .string s) :
    o.getString env w = .ok (some (env.host.newStringUTF (cString s))) w := by
  have htop := valueAt_pushed hs
  have hlook : LuaState.toString env (-1) (w.setStack (w.stack ++ [denoted o w])) =
      .ok (some (env.host.newStringUTF (cString s)))
        (w.setStack (w.stack ++ [denoted o w])) := by
    rw [LuaState.toString, get_bind, htop]
    rfl
  exact withPushed_run hlook (luaPop_top _ _)

theorem toString_string (hs : denoted o w = .string s) :
    o.toString env w = .ok (some (text env s)) w := by
  have hnil : o.isNil w = .ok false w := (withPushed_type _ o w).trans (by rw [hs]; rfl)
  have hboolean : o.isBoolean w = .ok false w := (withPushed_type _ o w).trans (by rw [hs]; rfl)
  have hstring : o.isString w = .ok true w := (withPushed_type _ o w).trans (by rw [hs]; rfl)
  have hnumber := isNumber_string env hs
  unfold text
  apply catching_of_ok
  unfold LuaObject.text
  apply (bind_of_ok hnil).trans
  apply (bind_of_ok hboolean).trans
  apply (bind_of_ok hnumber).trans
  cases hx : env.stringToNumber s with
  | some x =>
    have hget := getNumber_string env hs
    rw [hx] at hget
    exact bind_of_ok hget
  | none =>
    apply (bind_of_ok hstring).trans
    exact getString_string env hs

/-! ### handleThrows -/

/-- The string on top becomes the message. -/
theorem handleThrows_string {K : Stack} (α : Type) (hw : w.stack = K ++ [.string s]) :
    ∃ w', (Lua.handleThrows (Lua.state env) : Code σ α) w =
      .error (.throws (.luaException (some (text env s)))) w' := by
  let o : LuaObject := ⟨w.peer, (w.lua.registry.luaLRef (.string s)).1⟩
  let w₁ := registered (.string s) w
  have hw₁ : w₁.stack = K ++ [.string s] := hw
  have hdenoted : denoted o w₁ = .string s := w.lua.registry.rawGetI_luaLRef (by simp)
  have hnone : getObjectFromUserdata w₁.lua (denoted o w₁) = none := by rw [hdenoted]; rfl
  have hthrowable := throwableOf_text hnone (toString_string env hdenoted)
  exact ⟨_, handleThrows_of_throwable α hw hw₁ hthrowable⟩

/-! ### Scripts and functions that end with a string -/

variable {env}

/-- The chunk ends with the string as its error, be it that it is none. -/
def ChunkFails (env : Env σ) (load : Load σ) (w : World σ) (s : List UInt8) : Prop :=
  (∃ h, load w.heap = (.error (.string s), h)) ∨
    ∃ f h h', load w.heap = (.ok f, h) ∧ env.vm.call f [] h = some (.error (.string s), h')

theorem doChunk_fails {load : Load σ} (h : ChunkFails env load w s) :
    ∃ w', doChunk env load w = .ok 1 w' ∧ w'.stack = w.stack ++ [.string s] := by
  rcases h with ⟨h, hload⟩ | ⟨f, h, h', hload, hcall⟩
  · exact ⟨_, doChunk_of_error env hload, rfl⟩
  · have hchunk := doChunk_of_ok env hload
    rw [hcall] at hchunk
    exact ⟨_, hchunk, rfl⟩

theorem runChunk_fails {load : Load σ} (h : ChunkFails env load w s) :
    ∃ w', runChunk env load w = .error (.throws (.luaException (some (text env s)))) w' := by
  obtain ⟨w₁, hchunk, hstack⟩ := doChunk_fails h
  obtain ⟨w', hthrows⟩ := handleThrows_string env Unit hstack
  exact ⟨w', (bind_of_ok hchunk).trans hthrows⟩

section Scripts
variable (env) (loadfile : List UInt8 → Heap σ → Except Value Value × Heap σ)
  (getParent : JString → Option JString)

/-- `doString` or `doFile` reaches the chunk, which ends with the string as its error. -/
def EndsWith (script : Script) (w : World σ) (s : List UInt8) : Prop :=
  ∃ w₁, Lua.setPackagePath env (script.path getParent) w = .ok () w₁ ∧
    ChunkFails env (script.load env loadfile) w₁ s

variable {env loadfile getParent}

theorem run_endsWith {script : Script} (h : EndsWith env loadfile getParent script w s) :
    ∃ w', script.run env loadfile getParent w =
      .error (.throws (.luaException (some (text env s)))) w' := by
  obtain ⟨w₁, hpath, hfails⟩ := h
  obtain ⟨w', hrun⟩ := runChunk_fails hfails
  refine ⟨w', ?_⟩
  rw [Script.run_eq, bind_of_ok hpath]
  exact hrun

end Scripts

theorem callFunctionEx_string {name : JString} {n : Int} {args : List (Option JavaObject)}
    {f : Value} {h h' : Heap σ} (hfinds : Finds env name w f h) (hargs : Accepted env args)
    (houtcome : outcome env f args (w.setHeap h) = some (.error (.string s), h')) :
    ∃ w', Lua.callFunctionEx (Lua.state env) name n args w =
      .error (.throws (.luaException (some (text env s)))) w' := by
  obtain ⟨w', hthrows⟩ := handleThrows_string env (List LuaObject)
    (w := called f args n (w.setHeap h) (.error (.string s)) h') rfl
  refine ⟨w', ?_⟩
  rw [Lua.callFunctionEx, bind_of_ok (callGlobal_of_outcome hfinds hargs n houtcome)]
  exact hthrows

/-! ### When the message is the string -/

/-- The code throws a `LuaException` whose message is the string. -/
def Reports {α : Type} (s : List UInt8) (c : Code σ α) (w : World σ) : Prop :=
  ∃ message w', c w = .error (.throws (.luaException (some message))) w' ∧ encode message = s

/-- The code returns the string. -/
def Returns (s : List UInt8) (c : Code σ (Option JString)) (w : World σ) : Prop :=
  ∃ str w', c w = .ok (some str) w' ∧ encode str = s

theorem reports_iff {α : Type} (hutf : ∀ j, env.host.newStringUTF (encode j) = j)
    {c : Code σ α}
    (hrun : ∃ w', c w = .error (.throws (.luaException (some (text env s)))) w') :
    Reports s c w ↔ Preserved env s := by
  obtain ⟨w', hrun⟩ := hrun
  rw [← encode_text_iff hutf]
  constructor
  · rintro ⟨message, w₁, hmessage, hs⟩
    cases hrun.symm.trans hmessage
    exact hs
  · intro hs
    exact ⟨_, _, hrun, hs⟩

theorem returns_iff (hutf : ∀ j, env.host.newStringUTF (encode j) = j)
    (hs : denoted o w = .string s) : Returns s (o.toString env) w ↔ Preserved env s := by
  have hrun := toString_string env hs
  rw [← encode_text_iff hutf]
  constructor
  · rintro ⟨str, w₁, hstr, hsame⟩
    cases hrun.symm.trans hstr
    exact hsame
  · intro hsame
    exact ⟨_, _, hrun, hsame⟩

/-- `toString` gives a string back, and the exceptions of `doString`, `doFile` and `callFunctionEx`
have it as their message, exactly if it is preserved. -/
theorem message_iff (env : Env σ) (hutf : ∀ j, env.host.newStringUTF (encode j) = j)
    (s : List UInt8) :
    (∀ (o : LuaObject) w, denoted o w = .string s →
      (Returns s (o.toString env) w ↔ Preserved env s)) ∧
    (∀ loadfile getParent (script : Script) w, EndsWith env loadfile getParent script w s →
      (Reports s (script.run env loadfile getParent) w ↔ Preserved env s)) ∧
    (∀ name n args (w : World σ) f h h', Finds env name w f h → Accepted env args →
      outcome env f args (w.setHeap h) = some (.error (.string s), h') →
      (Reports s (Lua.callFunctionEx (Lua.state env) name n args) w ↔ Preserved env s)) := by
  refine ⟨fun o w hs => returns_iff hutf hs, ?_, ?_⟩
  · intro loadfile getParent script w hends
    exact reports_iff hutf (run_endsWith hends)
  · intro name n args w f h h' hfinds hargs houtcome
    exact reports_iff hutf (callFunctionEx_string hfinds hargs houtcome)

/-! ### A string of digits -/

/-- Every function fails with the string, and Lua reads the number ten from `10` alone. -/
def tenEnv (s : List UInt8) : Env Unit :=
  { Env.plain (globalVm fun _ => .error (.string s)) fun _ => [] with
    stringToNumber := fun s => if s = encode "10" then some (.ofInt _ 10) else none
    doubleToString := fun x => if x = .ofInt _ 10 then "10.0" else [] }

theorem endsWith_tenEnv (s : List UInt8) (script : JString) :
    EndsWith (tenEnv s) Script.noFile (fun _ => none) (.doString none script)
      Script.freshWorld s :=
  ⟨_, rfl, Or.inr ⟨_, _, _, rfl, rfl⟩⟩

theorem message_iff_word :
    Returns (encode "x") (LuaObject.toString (tenEnv (encode "x")) ⟨1, 3⟩)
      ⟨⟨1, [], ⟨fun _ => .string (encode "x"), 0⟩, []⟩, ()⟩ ∧
    Reports (encode "x") (Lua.doString (tenEnv (encode "x")) none "jlua.throw('x')")
      Script.freshWorld ∧
    Reports (encode "x") (Lua.callFunctionEx (Lua.state (tenEnv (encode "x"))) "f" 0 [])
      emptyWorld := by
  have hpreserved : Preserved (tenEnv (encode "x")) (encode "x") :=
    Or.inl ⟨by decide, _, rfl⟩
  obtain ⟨htext, hscript, hfunction⟩ :=
    message_iff (tenEnv (encode "x")) decode_encode (encode "x")
  refine ⟨(htext ⟨1, 3⟩ _ rfl).mpr hpreserved, ?_, ?_⟩
  · exact (hscript _ _ _ _ (endsWith_tenEnv _ "jlua.throw('x')")).mpr hpreserved
  · exact (hfunction "f" 0 [] _ _ _ _ (finds_globalVm _ "f") (by simp [Accepted]) rfl).mpr
      hpreserved

/-- The message of `jlua.throw('10')` is `10.0`. -/
theorem numeral_rewritten :
    EndsWith (tenEnv (encode "10")) Script.noFile (fun _ => none)
      (.doString none "jlua.throw('10')") Script.freshWorld (encode "10") ∧
    (∃ w, Lua.doString (tenEnv (encode "10")) none "jlua.throw('10')" Script.freshWorld =
      .error (.throws (.luaException (some "10.0"))) w) ∧
    ¬ Reports (encode "10") (Lua.doString (tenEnv (encode "10")) none "jlua.throw('10')")
      Script.freshWorld := by
  have hends := endsWith_tenEnv (encode "10") "jlua.throw('10')"
  have htext : text (tenEnv (encode "10")) (encode "10") = "10.0" := by decide
  obtain ⟨w, hrun⟩ := run_endsWith hends
  rw [htext] at hrun
  refine ⟨hends, ⟨w, hrun⟩, ?_⟩
  rintro ⟨message, w', hmessage, hs⟩
  cases hrun.symm.trans hmessage
  exact absurd hs (by decide)

end JLua.ErrorText
