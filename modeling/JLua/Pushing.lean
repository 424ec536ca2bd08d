import JLua.StackDiscipline

/-!
# What pushObjectValue pushes

An object is pushed on the state that the method is called on, unless it is a `LuaObject`, which
pushes itself on its own state.
-/

namespace JLua.Pushing

open BinaryFloat Conversion ModifiedUtf8 OutcomeRules StackDiscipline
set_option autoImplicit false

/-! ### On one state -/

/-- What is thrown for an object that is pushed as it is. -/
def denial (host : Host) : Option JavaObject → Option LuaException
  | some (.character c) => denied (checkJavaObj host (.character c))
  | some (.object id ref) => denied (checkJavaObj host (.object id ref))
  | _ => none
where
  denied : Except LuaException Unit → Option LuaException
    | .error e => some e
    | .ok _ => none

/-- The Lua value for an object: a new userdata if no other value stands for it. -/
def image (L : State) : Option JavaObject → Value
  | none => .nil
  | some obj =>
    match obj, obj.doubleValue with
    | .boolean b, _ => .boolean b
    | _, some x => .number x
    | .string s, _ => .string (cString (encode s))
    | .luaObject _ ref, _ => L.registry.rawGetI ref
    | _, _ => .userdata L.userdata.length

/-- What the new userdata holds, if there is one. -/
def held : Option JavaObject → List Userdata
  | none => []
  | some obj =>
    match obj, obj.doubleValue with
    | .boolean _, _ | _, some _ | .string _, _ | .luaObject _ _, _ => []
    | _, _ => [.java obj]

def isOwn (peer : Nat) : Option JavaObject → Bool
  | some (.luaObject L _) => L = peer
  | _ => true

theorem isOwn_iff {peer : Nat} {obj : Option JavaObject} : isOwn peer obj ↔ Own peer obj := by
  unfold isOwn Own
  split
  · simp
  · next h =>
    simp only [true_iff]
    intro L ref hobj
    exact absurd hobj (h L ref)

/-- The state after a push that nothing has denied. -/
def pushed (L : State) (obj : Option JavaObject) : State :=
  if isOwn L.peer obj then
    { L with stack := L.stack ++ [image L obj], userdata := L.userdata ++ held obj }
  else L

theorem pushObjectValue_eq (host : Host) (L : State) (obj : Option JavaObject) :
    Conversion.pushObjectValue host L obj =
      match denial host obj with
      | some e => .error e
      | none => .ok (pushed L obj) := by
  cases obj with
  | none => simp [Conversion.pushObjectValue, denial, pushed, isOwn, image, held, State.push]
  | some obj =>
    cases obj with
    | luaObject peer ref =>
      simp only [Conversion.pushObjectValue, JavaObject.doubleValue, pushLuaObject, denial, pushed,
        isOwn, decide_eq_true_eq, image, held, State.push, List.append_nil]
    | boolean | byte | short | integer | long | float | double | otherNumber | string =>
      simp [Conversion.pushObjectValue, denial, pushed, isOwn, image, held, State.push,
        JavaObject.doubleValue]
    | javaFunction | array | byteArray => rfl
    | luaException | javaPackage => rfl
    | character c =>
      simp only [Conversion.pushObjectValue, JavaObject.doubleValue, JavaObject.isArray,
        Conversion.pushJavaObject, denial]
      cases checkJavaObj host (.character c) <;> rfl
    | object id ref =>
      simp only [Conversion.pushObjectValue, JavaObject.doubleValue, JavaObject.isArray,
        Conversion.pushJavaObject, denial]
      cases checkJavaObj host (.object id ref) <;> rfl

@[simp] theorem pushed_peer (L : State) (obj : Option JavaObject) :
    (pushed L obj).peer = L.peer := by
  unfold pushed
  split <;> rfl

@[simp] theorem pushed_registry (L : State) (obj : Option JavaObject) :
    (pushed L obj).registry = L.registry := by
  unfold pushed
  split <;> rfl

theorem userdata_pushed (L : State) (obj : Option JavaObject) :
    (pushed L obj).userdata = L.userdata ++ if isOwn L.peer obj then held obj else [] := by
  unfold pushed
  split <;> simp

/-- The value depends on the references and on how many userdata there are. -/
theorem image_congr {L L' : State} (hregistry : L'.registry = L.registry)
    (huserdata : L'.userdata = L.userdata) (obj : Option JavaObject) :
    image L' obj = image L obj := by
  unfold image
  rw [hregistry, huserdata]

theorem pushed_luaObject (L : State) (ref : Int) :
    pushed L (some (.luaObject L.peer ref)) = L.push (L.registry.rawGetI ref) := by
  have himage : image L (some (.luaObject L.peer ref)) = L.registry.rawGetI ref := rfl
  have hheld : held (some (.luaObject L.peer ref)) = [] := by
    simp [held, JavaObject.doubleValue]
  have hown : isOwn L.peer (some (.luaObject L.peer ref)) = true := decide_eq_true rfl
  rw [pushed, if_pos hown, himage, hheld, List.append_nil]
  rfl

/-! ### Several objects in turn -/

def pushedAll (L : State) (args : List (Option JavaObject)) : State := args.foldl pushed L

/-- The values that the objects leave on the stack, from the lowest one upwards. -/
def images (L : State) : List (Option JavaObject) → List Value
  | [] => []
  | obj :: args => (if isOwn L.peer obj then [image L obj] else []) ++ images (pushed L obj) args

def foreign (peer : Nat) (args : List (Option JavaObject)) : Nat :=
  args.countP fun obj => !isOwn peer obj

@[simp] theorem pushedAll_cons (L : State) (obj : Option JavaObject)
    (args : List (Option JavaObject)) :
    pushedAll L (obj :: args) = pushedAll (pushed L obj) args := rfl

theorem stack_pushed (L : State) (obj : Option JavaObject) :
    (pushed L obj).stack = L.stack ++ if isOwn L.peer obj then [image L obj] else [] := by
  unfold pushed
  split <;> simp

theorem stack_pushedAll (L : State) (args : List (Option JavaObject)) :
    (pushedAll L args).stack = L.stack ++ images L args := by
  induction args generalizing L with
  | nil => exact (List.append_nil _).symm
  | cons obj args ih => rw [pushedAll_cons, ih, stack_pushed, images, List.append_assoc]

@[simp] theorem pushedAll_peer (L : State) (args : List (Option JavaObject)) :
    (pushedAll L args).peer = L.peer := by
  induction args generalizing L with
  | nil => rfl
  | cons obj args ih => rw [pushedAll_cons, ih, pushed_peer]

@[simp] theorem pushedAll_registry (L : State) (args : List (Option JavaObject)) :
    (pushedAll L args).registry = L.registry := by
  induction args generalizing L with
  | nil => rfl
  | cons obj args ih => rw [pushedAll_cons, ih, pushed_registry]

theorem length_images (L : State) (args : List (Option JavaObject)) :
    (images L args).length + foreign L.peer args = args.length := by
  induction args generalizing L with
  | nil => rfl
  | cons obj args ih =>
    have hrest := ih (pushed L obj)
    rw [pushed_peer] at hrest
    simp only [images, foreign, List.length_append, List.countP_cons, List.length_cons] at hrest ⊢
    by_cases hown : isOwn L.peer obj
    · simp only [hown, if_true, List.length_singleton, Bool.not_true]
      simp only [Bool.false_eq_true, if_false]
      omega
    · simp only [hown]
      simp only [Bool.false_eq_true, if_false, Bool.not_false, if_true, List.length_nil]
      omega

theorem foreign_eq_zero_iff {peer : Nat} {args : List (Option JavaObject)} :
    foreign peer args = 0 ↔ ∀ obj ∈ args, Own peer obj := by
  unfold foreign
  rw [List.countP_eq_zero]
  constructor
  · intro h obj hobj
    exact isOwn_iff.mp (by simpa using h obj hobj)
  · intro h obj hobj
    simpa using isOwn_iff.mpr (h obj hobj)

theorem images_eq_nil_iff {L : State} {args : List (Option JavaObject)} :
    images L args = [] ↔ ∀ obj ∈ args, ¬ Own L.peer obj := by
  have hlength := length_images L args
  have hforeign : foreign L.peer args = args.length ↔ ∀ obj ∈ args, ¬ Own L.peer obj := by
    unfold foreign
    rw [List.countP_eq_length]
    exact forall₂_congr fun obj _ => by rw [← isOwn_iff]; simp
  rw [← List.length_eq_zero_iff, ← hforeign]
  omega

/-- The objects are pushed in turn, each as one value, from the state `L` to the state `L'`. -/
inductive PushedAs (host : Host) : State → List (Option JavaObject) → List Value → State → Prop
  | nil (L : State) : PushedAs host L [] [] L
  | cons {L L₁ L' : State} {obj : Option JavaObject} {args : List (Option JavaObject)} {v : Value}
      {vs : List Value} (push : Conversion.pushObjectValue host L obj = .ok L₁)
      (value : L₁.stack = L.stack ++ [v]) (rest : PushedAs host L₁ args vs L') :
      PushedAs host L (obj :: args) (v :: vs) L'

theorem denial_of_push {host : Host} {L L' : State} {obj : Option JavaObject}
    (h : Conversion.pushObjectValue host L obj = .ok L') :
    denial host obj = none ∧ L' = pushed L obj := by
  rw [pushObjectValue_eq] at h
  cases hdenial : denial host obj with
  | some e =>
    rw [hdenial] at h
    cases h
  | none =>
    rw [hdenial] at h
    cases h
    exact ⟨rfl, rfl⟩

theorem own_of_value {L : State} {obj : Option JavaObject} {v : Value}
    (h : (pushed L obj).stack = L.stack ++ [v]) : isOwn L.peer obj ∧ v = image L obj := by
  rw [stack_pushed] at h
  have hsame := List.append_cancel_left h
  by_cases hown : isOwn L.peer obj
  · rw [if_pos hown] at hsame
    obtain rfl : image L obj = v := by simpa using hsame
    exact ⟨hown, rfl⟩
  · rw [if_neg hown] at hsame
    cases hsame

/-- The values are the images of the objects, none of which is denied or of another state. -/
theorem PushedAs.spec {host : Host} {L L' : State} {args : List (Option JavaObject)}
    {vs : List Value} (h : PushedAs host L args vs L') :
    (∀ obj ∈ args, denial host obj = none) ∧ foreign L.peer args = 0 ∧ vs = images L args ∧
      L' = pushedAll L args := by
  induction h with
  | nil => exact ⟨by simp, rfl, rfl, rfl⟩
  | @cons L L₁ L' obj args v vs push value rest ih =>
    obtain ⟨hdenial, rfl⟩ := denial_of_push push
    obtain ⟨hown, rfl⟩ := own_of_value value
    obtain ⟨hrest, hforeign, rfl, rfl⟩ := ih
    rw [pushed_peer] at hforeign
    refine ⟨?_, ?_, ?_, rfl⟩
    · intro o ho
      rcases List.mem_cons.mp ho with rfl | ho
      · exact hdenial
      · exact hrest o ho
    · unfold foreign at hforeign ⊢
      rw [List.countP_cons, hforeign, hown]
      rfl
    · rw [images, if_pos hown]
      rfl

section Code
variable {σ : Type} (env : Env σ)

def Accepted (args : List (Option JavaObject)) : Prop :=
  ∀ obj ∈ args, denial env.host obj = none

/-- The exception for a denied object. -/
def deniedWith (e : LuaException) : Stop := .throws (.luaException (some (javaString e.message)))

theorem pushObjectValue_run (obj : Option JavaObject) (w : World σ) :
    LuaState.pushObjectValue env obj w =
      match denial env.host obj with
      | some e => .error (deniedWith e) w
      | none => .ok () { w with lua := pushed w.lua obj } := by
  unfold LuaState.pushObjectValue LuaState.liftState
  simp only [pushObjectValue_eq]
  cases denial env.host obj <;> rfl

variable {env}

theorem pushAll_of_accepted {args : List (Option JavaObject)} (h : Accepted env args)
    (w : World σ) :
    LuaObject.pushAll env args w = .ok () { w with lua := pushedAll w.lua args } := by
  induction args generalizing w with
  | nil => rfl
  | cons obj args ih =>
    have hobj := pushObjectValue_run env obj w
    rw [h obj List.mem_cons_self] at hobj
    rw [LuaObject.pushAll, bind_of_ok hobj]
    exact ih (fun o ho => h o (List.mem_cons_of_mem obj ho)) _

variable (env) in
def isAccepted (obj : Option JavaObject) : Bool := (denial env.host obj).isNone

/-- What has been pushed before the object that is denied stays on the stack. -/
theorem pushAll_of_denied {args : List (Option JavaObject)} (h : ¬ Accepted env args)
    (w : World σ) :
    ∃ e, LuaObject.pushAll env args w = .error (deniedWith e)
      { w with lua := pushedAll w.lua (args.takeWhile (isAccepted env)) } := by
  induction args generalizing w with
  | nil => exact absurd (by simp [Accepted]) h
  | cons obj args ih =>
    have hobj := pushObjectValue_run env obj w
    cases hdenial : denial env.host obj with
    | some e =>
      have hrejected : isAccepted env obj = false := by rw [isAccepted, hdenial]; rfl
      rw [hdenial] at hobj
      rw [List.takeWhile_cons, hrejected]
      exact ⟨e, bind_of_error hobj⟩
    | none =>
      have haccepted : isAccepted env obj = true := by rw [isAccepted, hdenial]; rfl
      rw [hdenial] at hobj
      have hrest : ¬ Accepted env args := fun hargs => h fun o ho => by
        rcases List.mem_cons.mp ho with rfl | ho
        · exact hdenial
        · exact hargs o ho
      obtain ⟨e, hrun⟩ := ih hrest { w with lua := pushed w.lua obj }
      rw [List.takeWhile_cons, haccepted, LuaObject.pushAll, bind_of_ok hobj]
      exact ⟨e, hrun⟩

end Code

/-! ### With other states open -/

/-- The open states by their peers, each with a Lua universe of its own. -/
abbrev States := Nat → State

section States
variable {p q : Nat}

/-- A native method of the state `p`. -/
def native (p : Nat) (f : State → State) : EStateM LuaException States Unit :=
  modify fun S => Function.update S p (f (S p))

/-- `LuaObject.push`, a method of the state that the object belongs to. -/
def pushLuaObject (peer : Nat) (ref : Int) : EStateM LuaException States Unit :=
  native peer fun L => L.push (L.registry.rawGetI ref)

def pushJavaObject (host : Host) (p : Nat) (obj : JavaObject) :
    EStateM LuaException States Unit := do
  match checkJavaObj host obj with
  | .error e => throw e
  | .ok _ => native p (·.pushUserdata obj)

def pushJavaArray (p : Nat) (obj : JavaObject) : EStateM LuaException States Unit :=
  if obj.isArray then native p (·.pushUserdata obj)
  else throw ⟨"Object is not an array."⟩

def pushObjectValue (host : Host) (p : Nat) :
    Option JavaObject → EStateM LuaException States Unit
  | none => native p (·.push .nil)
  | some obj =>
    match obj, obj.doubleValue with
    | .boolean b, _ => native p (·.push (.boolean b))
    | _, some x => native p (·.push (.number x))
    | .string s, _ => native p (·.push (.string (cString (encode s))))
    | .javaFunction _ _, _ => native p (pushJavaFunction · obj)
    | .luaObject peer ref, _ => pushLuaObject peer ref
    | _, _ => if obj.isArray then pushJavaArray p obj else pushJavaObject host p obj

/-- One new value on the stack of `p` and nothing on the others, or an exception and nothing new on
any. -/
def PushesOne (host : Host) (p : Nat) (obj : Option JavaObject) (S : States) : Prop :=
  Ends (pushObjectValue host p obj) S
    (fun _ S' => (∃ v, (S' p).stack = (S p).stack ++ [v]) ∧
      ∀ q, q ≠ p → (S' q).stack = (S q).stack)
    fun _ S' => ∀ q, (S' q).stack = (S q).stack

/-- A method that touches only the state `p` and does there what it does alone. -/
def Local (p : Nat) (c : EStateM LuaException States Unit)
    (f : State → Except LuaException State) : Prop :=
  ∀ S, c S =
    match f (S p) with
    | .ok L => .ok () (Function.update S p L)
    | .error e => .error e S

theorem local_pushJavaObject (host : Host) (obj : JavaObject) :
    Local p (pushJavaObject host p obj) (Conversion.pushJavaObject host · obj) := by
  intro S
  simp only [pushJavaObject, Conversion.pushJavaObject]
  cases checkJavaObj host obj <;> rfl

theorem local_pushJavaArray (obj : JavaObject) :
    Local p (pushJavaArray p obj) (Conversion.pushJavaArray · obj) := by
  intro S
  simp only [pushJavaArray, Conversion.pushJavaArray]
  split <;> rfl

/-- But for a `LuaObject`, the other states do not matter. -/
theorem local_pushObjectValue (host : Host) {obj : Option JavaObject}
    (hobj : ∀ peer ref, obj ≠ some (.luaObject peer ref)) :
    Local p (pushObjectValue host p obj) (Conversion.pushObjectValue host · obj) := by
  cases obj with
  | none => exact fun _ => rfl
  | some obj =>
    cases obj with
    | luaObject peer ref => exact absurd rfl (hobj peer ref)
    | boolean | byte | short | integer | long | float | double | otherNumber | string =>
      exact fun _ => rfl
    | javaFunction => exact fun _ => rfl
    | array component ref => exact fun S => local_pushJavaArray (.array component ref) S
    | byteArray bytes => exact fun S => local_pushJavaArray (.byteArray bytes) S
    | luaException ref => exact fun S => local_pushJavaObject host (.luaException ref) S
    | javaPackage ref => exact fun S => local_pushJavaObject host (.javaPackage ref) S
    | character c => exact fun S => local_pushJavaObject host (.character c) S
    | object id ref => exact fun S => local_pushJavaObject host (.object id ref) S

/-- `pushObjectValue` pushes one value on its own state exactly if it is not given a `LuaObject` of
another one. -/
theorem pushesOne_iff (host : Host) (p : Nat) (obj : Option JavaObject) (S : States) :
    PushesOne host p obj S ↔ Own p obj := by
  by_cases hobj : ∃ peer ref, obj = some (.luaObject peer ref)
  · obtain ⟨peer, ref, rfl⟩ := hobj
    have hrun : pushObjectValue host p (some (.luaObject peer ref)) S =
      .ok () (Function.update S peer ((S peer).push ((S peer).registry.rawGetI ref))) := rfl
    unfold PushesOne Ends
    rw [hrun]
    constructor
    · rintro ⟨⟨v, hv⟩, _⟩ L r hobj
      cases hobj
      by_contra hne
      rw [Function.update_of_ne (Ne.symm hne)] at hv
      simp at hv
    · intro hown
      obtain rfl := hown peer ref rfl
      refine ⟨⟨_, by rw [Function.update_self]; rfl⟩, fun q hq => ?_⟩
      rw [Function.update_of_ne hq]
  · have hother : ∀ peer ref, obj ≠ some (.luaObject peer ref) := fun peer ref h =>
      hobj ⟨peer, ref, h⟩
    have hown : Own p obj := fun L ref h => absurd h (hother L ref)
    have hlocal := local_pushObjectValue (p := p) host hother S
    apply iff_of_true ?_ hown
    unfold PushesOne Ends
    cases hpush : Conversion.pushObjectValue host (S p) obj with
    | error e =>
      simp only [hpush] at hlocal
      rw [hlocal]
      exact fun q => rfl
    | ok L =>
      simp only [hpush] at hlocal
      rw [hlocal]
      have hown' : Own (S p).peer obj := fun L ref h => absurd h (hother L ref)
      obtain ⟨v, hv⟩ := stack_of_pushObjectValue hpush hown'
      refine ⟨⟨v, by rw [Function.update_self, hv]⟩, fun q hq => ?_⟩
      rw [Function.update_of_ne hq]

/-- The states 1 and 2; the `LuaObject` of state 2 has the reference 5. -/
def twoStates : States := fun p => ⟨p, [], ⟨fun _ => .number (.ofInt _ 7), 9⟩, []⟩

def plainHost : Host :=
  ⟨.plain, decode, fun _ => "", fun _ _ _ => .classNotFound "", none⟩

theorem foreign_pushed_elsewhere :
    ¬ PushesOne plainHost 1 (some (.luaObject 2 5)) twoStates ∧
      ∃ S', pushObjectValue plainHost 1 (some (.luaObject 2 5)) twoStates = .ok () S' ∧
        (S' 1).stack = [] ∧ (S' 2).stack = [.number (.ofInt _ 7)] := by
  refine ⟨fun h => ?_, _, rfl, rfl, rfl⟩
  obtain ⟨⟨v, hv⟩, _⟩ := h
  have hempty : ([] : Stack) = [v] := hv
  cases hempty

end States

end JLua.Pushing
