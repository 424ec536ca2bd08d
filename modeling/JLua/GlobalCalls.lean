import JLua.Scripts
import Mathlib.Data.List.Forall2

/-!
# The two ways to call a global function

`callFunctionEx` and the `call` of an object for the global push the same function and the same
arguments. They differ in how they make objects of the results, and in what they do with an error.
-/

namespace JLua.GlobalCalls

open Accessors Calls Conversion Delivery ModifiedUtf8 OutcomeRules Pushing Registry
open Scripts StackDiscipline
set_option autoImplicit false

variable {σ : Type}

/-! ### What the results stand for -/

/-- The object is what the value holds, or what is pushed for it is the value. -/
def Denotes (host : Host) (L : State) (v : Value) (obj : Option JavaObject) : Prop :=
  (∃ o, obj = some o ∧ getObjectFromUserdata L v = some o) ∨
    Conversion.pushObjectValue host L obj = .ok (L.push v)

/-- `toJavaObject` keeps the value: it is no coroutine, and a text only if it comes back the
same. -/
def Faithful (host : Host) : Value → Prop
  | .thread _ => False
  | .string bytes => cString (encode (host.newStringUTF (cString bytes))) = bytes
  | _ => True

/-- The references among the objects are held. -/
def HeldBy (L : State) (free : List Int) (obj : Option JavaObject) : Prop :=
  ∀ ref, obj = some (.luaObject L.peer ref) → Held L.registry free ref

/-- The same state later, when more references are held. -/
structure Later (L : State) (free : List Int) (L' : State) (free' : List Int) : Prop where
  peer : L'.peer = L.peer
  userdata : L'.userdata = L.userdata
  sound : L'.registry.Sound free'
  keeps : ∀ ref, Held L.registry free ref →
    Held L'.registry free' ref ∧ L'.registry.rawGetI ref = L.registry.rawGetI ref

theorem Later.refl {L : State} {free : List Int} (h : L.registry.Sound free) :
    Later L free L free := ⟨rfl, rfl, h, fun _ hheld => ⟨hheld, rfl⟩⟩

theorem Later.trans {L L₁ L₂ : State} {free free₁ free₂ : List Int} (h : Later L free L₁ free₁)
    (h' : Later L₁ free₁ L₂ free₂) : Later L free L₂ free₂ where
  peer := h'.peer.trans h.peer
  userdata := h'.userdata.trans h.userdata
  sound := h'.sound
  keeps ref hheld := by
    obtain ⟨hheld₁, hsame₁⟩ := h.keeps ref hheld
    obtain ⟨hheld₂, hsame₂⟩ := h'.keeps ref hheld₁
    exact ⟨hheld₂, hsame₂.trans hsame₁⟩

theorem Later.image_eq {L L' : State} {free free' : List Int} (h : Later L free L' free')
    {obj : Option JavaObject} (hown : isOwn L.peer obj) (hobj : HeldBy L free obj) :
    image L' obj = image L obj := by
  have huserdata : Value.userdata L'.userdata.length = .userdata L.userdata.length := by
    rw [h.userdata]
  cases obj with
  | none => rfl
  | some o =>
    cases o with
    | luaObject peer ref =>
      obtain rfl : peer = L.peer := of_decide_eq_true hown
      exact (h.keeps ref (hobj ref rfl)).2
    | boolean | byte | short | integer | long | float | double | otherNumber | string => rfl
    | _ => exact huserdata

theorem Later.push {L L' : State} {free free' : List Int} (h : Later L free L' free')
    (obj : Option JavaObject) : Later (pushed L obj) free (pushed L' obj) free' where
  peer := by rw [pushed_peer, pushed_peer, h.peer]
  userdata := by
    unfold pushed
    rw [h.peer]
    split
    · simp only [h.userdata]
    · exact h.userdata
  sound := by
    rw [pushed_registry]
    exact h.sound
  keeps ref hheld := by
    rw [pushed_registry] at hheld
    rw [pushed_registry, pushed_registry]
    exact h.keeps ref hheld

theorem HeldBy.push {L : State} {free : List Int} {obj : Option JavaObject}
    (h : HeldBy L free obj) (obj' : Option JavaObject) : HeldBy (pushed L obj') free obj := by
  intro ref href
  rw [pushed_peer] at href
  rw [pushed_registry]
  exact h ref href

theorem Later.pushAll {L L' : State} {free free' : List Int} (h : Later L free L' free')
    {args : List (Option JavaObject)} (hargs : ∀ obj ∈ args, HeldBy L free obj) :
    Later (pushedAll L args) free (pushedAll L' args) free' ∧ images L' args = images L args := by
  induction args generalizing L L' with
  | nil => exact ⟨h, rfl⟩
  | cons obj args ih =>
    obtain ⟨hlater, himages⟩ := ih (h.push obj)
      fun o ho => (hargs o (List.mem_cons_of_mem obj ho)).push obj
    refine ⟨hlater, ?_⟩
    rw [images, images, himages, h.peer]
    by_cases hown : isOwn L.peer obj = true
    · rw [if_pos hown, if_pos hown, h.image_eq hown (hargs obj List.mem_cons_self)]
    · rw [if_neg hown, if_neg hown]

/-- A function does the same whatever references Java holds, and leaves them in order. -/
structure Discreet (vm : Metatables.Vm (Heap σ)) : Prop where
  same : ∀ f vs (h h' : Heap σ), h.userdata = h'.userdata → h.rest = h'.rest →
    (vm.call f vs h).map (fun r => (r.1, r.2.userdata, r.2.rest)) =
      (vm.call f vs h').map fun r => (r.1, r.2.userdata, r.2.rest)
  keeps : KeepsOrder vm

section Calls
variable {env : Env σ} {f : Value} {args : List (Option JavaObject)} {w : World σ}

theorem pushAll_eq (env : Env σ) (args : List (Option JavaObject)) :
    Lua.pushAll (Lua.state env) args = LuaObject.pushAll env args := by
  induction args with
  | nil => rfl
  | cons obj args ih =>
    rw [Lua.pushAll, LuaObject.pushAll, ih]
    rfl

/-- Looking up the name finds the function. -/
def Finds (env : Env σ) (name : JString) (w : World σ) (f : Value) (h : Heap σ) : Prop :=
  Metatables.luaVGettable env.vm (env.vm.globals w.heap) (LuaState.luaString name) w.heap =
    some (.ok f, h)

theorem Finds.getGlobal {name : JString} {h : Heap σ} (hfinds : Finds env name w f h) :
    LuaState.getGlobal env name w = .ok () ((w.setHeap h).setStack (w.stack ++ [f])) := by
  have haccess : LuaState.access (fun h => Metatables.luaVGettable env.vm (env.vm.globals h)
      (LuaState.luaString name) h) w = .ok f (w.setHeap h) := LuaState.access_run hfinds
  rw [LuaState.getGlobal, bind_of_ok haccess]
  rfl

theorem Finds.ofGlobal {name : JString} {h : Heap σ} (hfinds : Finds env name w f h) :
    LuaObject.ofGlobal env name w =
      .ok ⟨w.peer, (h.registry.luaLRef f).1⟩ (registered f (w.setHeap h)) := by
  rw [LuaObject.ofGlobal, bind_of_ok hfinds.getGlobal]
  exact getLuaObject_run rfl

theorem Finds.callGlobal {name : JString} {h : Heap σ} (hfinds : Finds env name w f h)
    (hargs : Accepted env args) (n : Int) : Lua.callGlobal (Lua.state env) name n args w =
      LuaState.pcall env args.length n (prepared f args (w.setHeap h)) := by
  have hglobal : (Lua.state env).getGlobal name w = _ := hfinds.getGlobal
  rw [Lua.callGlobal, bind_of_ok hglobal, pushAll_eq]
  exact bind_of_ok (pushAll_of_accepted hargs ((w.setHeap h).setStack (w.stack ++ [f])))

variable (env) in
/-- The results or the error of the function are such that both ways agree. -/
def FitsResult (n : Int) (w : World σ) : Result → Prop
  | .ok rs => 0 ≤ n ∧ ∀ v ∈ adjust n rs, Faithful env.host v
  | .error e => popsError env w e

variable (env) in
/-- Both ways throw what the `toString` of the error throws, and leave the error in the place of
the one value that was taken. -/
def StaysTwice (w : World σ) (taken : List Value) : Result → Prop
  | .ok _ => False
  | .error e => taken = [e] ∧ ¬ popsThrown env w e

variable (env f) in
/-- Nothing is denied, and if the call comes back, all arguments have been there and its result
fits. The error that stays may also be the only value taken for an argument. -/
def Fits (n : Int) (args : List (Option JavaObject)) (w : World σ) : Prop :=
  Accepted env args ∧ foreign w.peer args ≤ w.stack.length ∧
    ∀ r h, outcome env f args w = some (r, h) →
      (foreign w.peer args = 0 ∧ FitsResult env n (w.setHeap h) r) ∨
        StaysTwice env (w.setHeap h) (w.stack.drop (w.stack.length - foreign w.peer args)) r

section Found
variable {name : JString} {h : Heap σ} (hfinds : Finds env name w f h)
include hfinds

theorem callGlobal_of_outcome (hargs : Accepted env args) (n : Int) {r : Result} {h' : Heap σ}
    (houtcome : outcome env f args (w.setHeap h) = some (r, h')) :
    Lua.callGlobal (Lua.state env) name n args w =
      .ok (status r) (called f args n (w.setHeap h) r h') := by
  have hpcall := pcall_run env f args n (w.setHeap h)
  rw [houtcome] at hpcall
  exact (hfinds.callGlobal hargs n).trans hpcall

end Found

/-- A function leaves the references in order that it has found in order. -/
theorem Discreet.sound (hvm : Discreet env.vm) {free : List Int} {r : Result} {h : Heap σ}
    (hsound : w.lua.registry.Sound free) (houtcome : outcome env f args w = some (r, h)) :
    ∃ free', h.registry.Sound free' := by
  apply hvm.keeps _ _ _ _ _ houtcome
  refine ⟨free, ?_⟩
  change (pushedAll (w.lua.push f) args).registry.Sound free
  rw [pushedAll_registry]
  exact hsound

section Agreement
variable {name : JString} {h : Heap σ} {n : Int} {free : List Int}

/-- The second way, from the registration of the function on. -/
theorem Finds.call_run (hfinds : Finds env name w f h) (hf : f.type = .function) :
    ∃ o : LuaObject, denoted o (registered f (w.setHeap h)) = f ∧
      callable (denoted o (registered f (w.setHeap h))) ∧
      (LuaObject.ofGlobal env name >>= fun o => o.call env args n) w =
        o.call env args n (registered f (w.setHeap h)) := by
  have hnil : f ≠ .nil := by
    rintro rfl
    cases hf
  have hdenoted : denoted ⟨w.peer, (h.registry.luaLRef f).1⟩ (registered f (w.setHeap h)) = f :=
    h.registry.rawGetI_luaLRef hnil
  refine ⟨_, hdenoted, ?_, bind_of_ok hfinds.ofGlobal⟩
  rw [hdenoted]
  simp [callable, hf]

theorem Finds.call_hangs (hfinds : Finds env name w f h) (hf : f.type = .function)
    (hargs : Accepted env args)
    (houtcome : outcome env f args (registered f (w.setHeap h)) = none) :
    ∃ w', (LuaObject.ofGlobal env name >>= fun o => o.call env args n) w = .error .hangs w' := by
  obtain ⟨o, hdenoted, hcallable, hcall⟩ := hfinds.call_run (n := n) hf
  have houtcome : outcome env (denoted o (registered f (w.setHeap h))) args
      (registered f (w.setHeap h)) = none := by rw [hdenoted, houtcome]
  exact ⟨_, hcall.trans (Calls.call_hangs hcallable hargs n houtcome)⟩

theorem Finds.call_of_outcome (hfinds : Finds env name w f h) (hf : f.type = .function)
    (hargs : Accepted env args) {r : Result} {h' : Heap σ}
    (houtcome : outcome env f args (registered f (w.setHeap h)) = some (r, h')) :
    (LuaObject.ofGlobal env name >>= fun o => o.call env args n) w =
      finish env (status r) w.stack.length n
        (called f args n (registered f (w.setHeap h)) r h') := by
  obtain ⟨o, hdenoted, hcallable, hcall⟩ := hfinds.call_run (n := n) hf
  have houtcome : outcome env (denoted o (registered f (w.setHeap h))) args
      (registered f (w.setHeap h)) = some (r, h') := by rw [hdenoted, houtcome]
  have hfinish := Calls.call_of_outcome hcallable hargs n houtcome
  rw [hdenoted] at hfinish
  exact hcall.trans hfinish

end Agreement
end Calls

def emptyWorld : World Unit := ⟨⟨1, [], ⟨fun _ => .nil, 0⟩, []⟩, ()⟩

theorem finds_globalVm (result : List Value → Result) (name : JString) :
    Finds (Env.plain (globalVm result) fun _ => []) name emptyWorld (.function 0)
      emptyWorld.heap := rfl

end JLua.GlobalCalls
