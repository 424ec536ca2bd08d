import JLua.Routing
import JLua.Stack

/-!
# Two handles and their stacks

Every native operation of a `LuaState` works on the `lua_State` that its `CPtr` points to. So two
handles have stacks of their own exactly if their peers differ.
-/

namespace JLua.Threads

open JLua.Routing StateFactory
set_option autoImplicit false

/-- The globals belong to the universe, known by its main thread; the stacks to the threads. -/
structure Machine where
  world : Routing.World
  stackOf : Nat → Stack
  globals : Nat → String → Value

/-- `none` is the `NullPointerException` of a closed handle. -/
def getStateFromCPtr (m : Machine) (r : Nat) : Option Nat :=
  m.world.factory.objects[r]?.bind (·.luaState)

def universeOf (m : Machine) (p : Nat) : Option Universe := m.world.universes.find? (p ∈ ·.threads)

/-! ### Operations through a handle -/

def luaSettop (L : Stack) (idx : Int) : Stack :=
  if 0 ≤ idx then L.take idx.toNat ++ List.replicate (idx.toNat - L.length) .nil
  else luaPop L (-idx - 1).toNat

inductive StackOperation where
  | push (v : Value)
  | pop (n : Nat)
  | setTop (idx : Int)
  | insert (idx : Int)
  | remove (idx : Int)

def StackOperation.run (L : Stack) : StackOperation → Stack
  | push v => L ++ [v]
  | pop n => luaPop L n
  | setTop idx => luaSettop L idx
  | insert idx => luaInsert L idx
  | remove idx => luaRemove L idx

def Machine.setStack (m : Machine) (p : Nat) (L : Stack) : Machine :=
  { m with stackOf := Function.update m.stackOf p L }

def perform (m : Machine) (r : Nat) (op : StackOperation) : Option Machine :=
  (getStateFromCPtr m r).map fun p => m.setStack p (op.run (m.stackOf p))

def performAll (m : Machine) (r : Nat) : List StackOperation → Option Machine
  | [] => some m
  | op :: ops => (perform m r op).bind fun m => performAll m r ops

/-- The stack that is observed through a handle. -/
def stack (m : Machine) (r : Nat) : Option Stack := (getStateFromCPtr m r).map m.stackOf

def top (m : Machine) (r : Nat) : Option Value := (stack m r).map fun L => L.getLast?.getD .nil

def setGlobal (m : Machine) (r : Nat) (name : String) : Option Machine := do
  let p ← getStateFromCPtr m r
  let u ← universeOf m p
  let v ← top m r
  let m := m.setStack p (luaPop (m.stackOf p) 1)
  pure { m with
    globals := Function.update m.globals u.main (Function.update (m.globals u.main) name v) }

def getGlobal (m : Machine) (r : Nat) (name : String) : Option Machine := do
  let p ← getStateFromCPtr m r
  let u ← universeOf m p
  pure (m.setStack p (m.stackOf p ++ [m.globals u.main name]))

/-! ### newThread -/

/-- The thread is left on the stack of its creator. The `CPtr` that is handed out gets the
peer `L`, not the new thread. -/
def newthread (m : Machine) (L new : Nat) : Machine × Nat :=
  let m := (m.setStack new []).setStack L (m.stackOf L ++ [.thread new])
  ({ m with world := { m.world with universes := luaNewthread m.world.universes L new } }, L)

/-- The machine afterwards, and the new handle. -/
def newThread (m : Machine) (r new : Nat) : Option (Machine × Nat) := do
  let L ← getStateFromCPtr m r
  let (m, ptr) := newthread m L new
  let (w, l) ← newHandle m.world ptr
  let (states, _) ← insertLuaState w.factory l ptr
  pure ({ m with world := { w with factory := ⟨w.factory.objects, states⟩ } }, l)

/-- What the handle `t` of a thread `new` is to be for the handle `r` of its creator. -/
structure Independent (m : Machine) (r t new : Nat) : Prop where
  peer : getStateFromCPtr m t = some new
  distinct : getStateFromCPtr m r ≠ some new
  frame : ∀ ops m', performAll m t ops = some m' → stack m' r = stack m r
  frame' : ∀ ops m', performAll m r ops = some m' → stack m' t = stack m t
  visible : ∀ name m₁ m₂, setGlobal m t name = some m₁ → getGlobal m₁ r name = some m₂ →
    top m₂ r = top m t
  visible' : ∀ name m₁ m₂, setGlobal m r name = some m₁ → getGlobal m₁ t name = some m₂ →
    top m₂ t = top m r

@[simp] theorem getStateFromCPtr_setStack (m : Machine) (p : Nat) (L : Stack) (r : Nat) :
    getStateFromCPtr (m.setStack p L) r = getStateFromCPtr m r := rfl

@[simp] theorem stackOf_setStack (m : Machine) (p : Nat) (L : Stack) :
    (m.setStack p L).stackOf p = L := by
  simp [Machine.setStack]

theorem stackOf_setStack_of_ne (m : Machine) {p q : Nat} (L : Stack) (h : q ≠ p) :
    (m.setStack p L).stackOf q = m.stackOf q := by
  simp [Machine.setStack, h]

theorem stack_eq {m : Machine} {r p : Nat} (h : getStateFromCPtr m r = some p) :
    stack m r = some (m.stackOf p) := by
  simp [stack, h]

theorem stack_setStack {m : Machine} {r p : Nat} (h : getStateFromCPtr m r = some p) (L : Stack) :
    stack (m.setStack p L) r = some L := by
  have hr : getStateFromCPtr (m.setStack p L) r = some p := h
  rw [stack_eq hr, stackOf_setStack]

theorem stack_setStack_of_ne {m : Machine} {r p q : Nat} (h : getStateFromCPtr m r = some q)
    (hne : q ≠ p) (L : Stack) : stack (m.setStack p L) r = stack m r := by
  have hr : getStateFromCPtr (m.setStack p L) r = some q := h
  rw [stack_eq hr, stack_eq h, stackOf_setStack_of_ne m L hne]

theorem top_setStack {m : Machine} {r p : Nat} (h : getStateFromCPtr m r = some p) (L : Stack)
    (v : Value) : top (m.setStack p (L ++ [v])) r = some v := by
  simp [top, stack_setStack h]

/-- Any number of operations changes the one stack that the handle points to. -/
theorem performAll_eq {m : Machine} {r p : Nat} (h : getStateFromCPtr m r = some p)
    (ops : List StackOperation) :
    performAll m r ops = some (m.setStack p (ops.foldl StackOperation.run (m.stackOf p))) := by
  induction ops generalizing m with
  | nil => simp [performAll, Machine.setStack]
  | cons op ops ih =>
    have hrest := ih (m := m.setStack p (op.run (m.stackOf p))) h
    rw [stackOf_setStack] at hrest
    simp only [performAll, perform, h, Option.map_some, Option.bind_some, hrest, List.foldl_cons]
    simp [Machine.setStack]

theorem performAll_frame {m m' : Machine} {r t p q : Nat} (hr : getStateFromCPtr m r = some p)
    (ht : getStateFromCPtr m t = some q) (hne : q ≠ p) {ops : List StackOperation}
    (h : performAll m r ops = some m') : stack m' t = stack m t := by
  rw [performAll_eq hr] at h
  obtain rfl := Option.some.inj h
  exact stack_setStack_of_ne ht hne _

theorem getGlobal_setGlobal {m m₁ m₂ : Machine} {r t p q : Nat} {name : String}
    (hr : getStateFromCPtr m r = some p) (ht : getStateFromCPtr m t = some q)
    (hu : universeOf m p = universeOf m q) (hset : setGlobal m r name = some m₁)
    (hget : getGlobal m₁ t name = some m₂) : top m₂ t = top m r := by
  simp only [setGlobal, Option.bind_eq_bind, Option.bind_eq_some_iff, Option.pure_def] at hset
  obtain ⟨p', hp', u, hup, v, hv, hm₁⟩ := hset
  obtain rfl := Option.some.inj (hr.symm.trans hp')
  obtain rfl := Option.some.inj hm₁
  simp only [getGlobal, Option.bind_eq_bind, Option.bind_eq_some_iff, Option.pure_def] at hget
  obtain ⟨q', hq', u', hu', hm₂⟩ := hget
  obtain rfl : q = q' := Option.some.inj (ht.symm.trans hq')
  obtain rfl : u = u' := Option.some.inj (hup.symm.trans (hu.trans hu'))
  obtain rfl := Option.some.inj hm₂
  rw [top_setStack hq', hv]
  simp

/-- Handles into one universe are independent exactly if the new one points to the new thread and
the old one does not. -/
theorem independent_iff {m : Machine} {r t p q : Nat} (new : Nat)
    (hr : getStateFromCPtr m r = some p) (ht : getStateFromCPtr m t = some q)
    (hu : universeOf m p = universeOf m q) :
    Independent m r t new ↔ q = new ∧ p ≠ new := by
  constructor
  · intro h
    have hpeer := h.peer
    have hdistinct := h.distinct
    rw [ht, Option.some.injEq] at hpeer
    rw [hr, Ne, Option.some.injEq] at hdistinct
    exact ⟨hpeer, hdistinct⟩
  · rintro ⟨rfl, hne⟩
    exact
      { peer := ht
        distinct := by simpa [hr] using hne
        frame := fun ops m' h => performAll_frame ht hr hne h
        frame' := fun ops m' h => performAll_frame hr ht (Ne.symm hne) h
        visible := fun name m₁ m₂ => getGlobal_setGlobal ht hr hu.symm
        visible' := fun name m₁ m₂ => getGlobal_setGlobal hr ht hu }

/-- The old handle keeps its peer, and the new one gets the same. -/
theorem newThread_peer {m m' : Machine} {r t new : Nat} (h : newThread m r new = some (m', t)) :
    ∃ p, getStateFromCPtr m r = some p ∧ getStateFromCPtr m' r = some p ∧
      getStateFromCPtr m' t = some p := by
  simp only [newThread, newthread, newHandle, Option.bind_eq_bind, Option.bind_eq_some_iff,
    Option.pure_def] at h
  obtain ⟨p, hp, ⟨w, l⟩, ⟨⟨states, i⟩, _, hw⟩, ⟨states', j⟩, _, hm'⟩ := h
  obtain ⟨rfl, rfl⟩ := Prod.mk.inj (Option.some.inj hw)
  obtain ⟨rfl, rfl⟩ := Prod.mk.inj (Option.some.inj hm')
  refine ⟨p, hp, ?_, by simp [getStateFromCPtr, Machine.setStack]⟩
  obtain ⟨o, ho, hpeer⟩ := Option.bind_eq_some_iff.mp hp
  exact Option.bind_eq_some_iff.mpr ⟨o, getElem?_append_of_some ho, hpeer⟩

/-- Whatever is done through the new handle is done to the stack of the old one. -/
theorem newThread_aliases {m m' : Machine} {r t new : Nat}
    (h : newThread m r new = some (m', t)) (ops : List StackOperation) :
    performAll m' t ops = performAll m' r ops := by
  obtain ⟨p, _, hr, ht⟩ := newThread_peer h
  rw [performAll_eq hr, performAll_eq ht]

/-- No thread that `newThread` makes has a stack of its own for its handle. -/
theorem newThread_not_independent {m m' : Machine} {r t new : Nat}
    (h : newThread m r new = some (m', t)) : ¬ Independent m' r t new := by
  intro hindependent
  obtain ⟨p, _, hr, ht⟩ := newThread_peer h
  obtain ⟨hnew, hother⟩ := (independent_iff new hr ht rfl).mp hindependent
  exact hother hnew

/-- One state has been created, with an empty stack. -/
def oneState : Machine where
  world := ⟨⟨[⟨some 8, 0⟩], [some 0]⟩, [⟨8, [], 0, 8⟩]⟩
  stackOf _ := []
  globals _ _ := .nil

theorem newThread_not_independent_first : ∃ m' t, newThread oneState 0 16 = some (m', t) ∧
    ¬ Independent m' 0 t 16 :=
  ⟨_, 1, rfl, newThread_not_independent (m := oneState) (r := 0) rfl⟩

/-- The new handle points to the old `lua_State`, and a value pushed through it appears on the
stack of the old handle, above the thread. -/
theorem push_through_thread : ∃ m' m'', newThread oneState 0 16 = some (m', 1) ∧
    getStateFromCPtr m' 1 = some 8 ∧ performAll m' 1 [.push (.boolean true)] = some m'' ∧
    stack m' 0 = some [.thread 16] ∧ stack m'' 0 = some [.thread 16, .boolean true] ∧
    ¬ Independent m' 0 1 16 := by
  refine ⟨_, _, rfl, rfl, rfl, rfl, rfl, ?_⟩
  intro h
  exact absurd h.peer (by decide)

end JLua.Threads
