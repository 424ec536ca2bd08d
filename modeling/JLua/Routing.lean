import JLua.StateFactory

/-!
# From a running lua_State to the LuaState of its callbacks

A Lua universe is a main thread with its coroutines. All of them share one registry, hence one
`JLuaStateIndex`, which every `jlua_open` rewrites; each has a stack of its own. A JLua C
function reads the index on whatever thread it runs, and the Java side resolves it with
`getExistingState`.
-/

namespace JLua.Routing

open StateFactory TransitionRuns
set_option autoImplicit false

/-- `stateIndex` is the registry entry `JLuaStateIndex`. `opened` is history: the thread the
last `jlua_open` of this universe was called for. -/
structure Universe where
  main : Nat
  coroutines : List Nat
  stateIndex : Nat
  opened : Nat
  deriving DecidableEq, Repr

def Universe.threads (u : Universe) : List Nat := u.main :: u.coroutines

structure World where
  factory : Factory
  universes : List Universe

def init : World := ⟨StateFactory.init, []⟩

/-- `jlua_open` called on `p` writes the registry of the universe of `p`. -/
def opening (p stateId : Nat) (u : Universe) : Universe :=
  if p ∈ u.threads then { u with stateIndex := stateId, opened := p } else u

def jluaOpen (us : List Universe) (p stateId : Nat) : List Universe := us.map (opening p stateId)

/-- `lua_newthread` called on `p` adds a thread to the universe of `p`. -/
def spawning (p new : Nat) (u : Universe) : Universe :=
  if p ∈ u.threads then { u with coroutines := new :: u.coroutines } else u

def luaNewthread (us : List Universe) (p new : Nat) : List Universe := us.map (spawning p new)

/-- `lua_close` called on any thread destroys its whole universe. -/
def luaClose (us : List Universe) (p : Nat) : List Universe :=
  us.filter fun u => p ∉ u.threads

def newLuaState (w : World) (peer : Nat) : World :=
  let i := getNextStateIndex w.factory.states
  ⟨(StateFactory.newLuaState w.factory peer).1, w.universes ++ [⟨peer, [], i, peer⟩]⟩

/-- The constructor `LuaState(CPtr)`, with the reference of the new object. When
`insertLuaState` throws, `jlua_open` is not reached and no object results. -/
def newHandle (w : World) (p : Nat) : Option (World × Nat) := do
  let r := w.factory.objects.length
  let (states, i) ← insertLuaState w.factory r p
  pure (⟨⟨w.factory.objects ++ [⟨some p, i⟩], states⟩, jluaOpen w.universes p i⟩, r)

/-- `_newthread` hands out the pointer of the `lua_State` it was called on, not of the thread
it made; `newThread` then registers the handle once more. -/
def newThread (w : World) (p new : Nat) : World :=
  let w₁ : World := { w with universes := luaNewthread w.universes p new }
  match newHandle w₁ p with
  | none => w₁
  | some (w₂, r) =>
    match insertLuaState w₂.factory r p with
    | none => w₂
    | some (states, _) => { w₂ with factory := ⟨w₂.factory.objects, states⟩ }

/-- `_toThread` hands out the pointer `q` of the thread found on the stack. -/
def toThread (w : World) (q : Nat) : World := ((newHandle w q).map Prod.fst).getD w

def close (w : World) (L p : Nat) : World :=
  match StateFactory.close w.factory L with
  | none => w
  | some f => ⟨f, luaClose w.universes p⟩

/-- The peer of the state that a callback made on the thread `l` is given: `none` is the
exception of `getExistingState`, a `null` slot or a closed state. -/
def callbackPeer (w : World) (l : Nat) : Option Nat := do
  let u ← w.universes.find? (l ∈ ·.threads)
  let slot ← getExistingState w.factory u.stateIndex
  let r ← slot
  let o ← w.factory.objects[r]?
  o.luaState

/-- What the callback reads at the positions `2..top` of the stack it is given. -/
def argumentsRead {V : Type} (w : World) (stackOf : Nat → List V) (l : Nat) : Option (List V) :=
  (callbackPeer w l).map fun p => (stackOf p).drop 1

/-- The callback made on `l` works on `l`, and so reads what the C function was given. -/
def Routed {V : Type} (w : World) (stackOf : Nat → List V) (l : Nat) : Prop :=
  callbackPeer w l = some l ∧ argumentsRead w stackOf l = some ((stackOf l).drop 1)

/-- Every `lua_State` in use, and every pointer a handle still holds. -/
def InUse (w : World) (p : Nat) : Prop :=
  (∃ u ∈ w.universes, p ∈ u.threads) ∨ ∃ o ∈ w.factory.objects, o.luaState = some p

def Fresh (w : World) (p : Nat) : Prop := p ≠ 0 ∧ ¬ InUse w p

inductive Action where
  | newLuaState (peer : Nat)
  | coroutine (p new : Nat)
  | newThread (L new : Nat)
  | toThread (L q : Nat)
  | close (L : Nat)

def HandleOf (w : World) (L p : Nat) (u : Universe) : Prop :=
  (∃ o, w.factory.objects[L]? = some o ∧ o.luaState = some p) ∧ u ∈ w.universes ∧
    p ∈ u.threads

inductive Step : World → Action → World → Prop where
  | newLuaState {w : World} {peer : Nat} (fresh : Fresh w peer) :
      Step w (.newLuaState peer) (newLuaState w peer)
  | coroutine {w : World} {p new : Nat} {u : Universe} (hu : u ∈ w.universes)
      (hp : p ∈ u.threads) (fresh : Fresh w new) :
      Step w (.coroutine p new) { w with universes := luaNewthread w.universes p new }
  | newThread {w : World} {L p new : Nat} {u : Universe} (hL : HandleOf w L p u)
      (fresh : Fresh w new) : Step w (.newThread L new) (newThread w p new)
  | toThread {w : World} {L p q : Nat} {u : Universe} (hL : HandleOf w L p u)
      (hq : q ∈ u.threads) : Step w (.toThread L q) (toThread w q)
  | close {w : World} {L p : Nat} {u : Universe} (hL : HandleOf w L p u) :
      Step w (.close L) (close w L p)

/-- No state stands above a cleared slot when a state is created. -/
def InPlace (w : World) : Action → Prop
  | .newLuaState _ => NoGap w.factory
  | _ => True

def SlotPeer (f : Factory) (i p : Nat) : Prop :=
  ∃ r o, Holds f i r ∧ f.objects[r]? = some o ∧ o.luaState = some p

/-- What routing rests on: the slot of every handle of an open universe, and the slot named in
its registry, hold a state with the right peer. -/
structure Inv (w : World) : Prop where
  wellFormed : WellFormed w.factory
  nonzero : ∀ u ∈ w.universes, ∀ t ∈ u.threads, t ≠ 0
  disjoint : ∀ u ∈ w.universes, ∀ v ∈ w.universes, ∀ t, t ∈ u.threads → t ∈ v.threads → u = v
  handles : ∀ L p u, HandleOf w L p u →
    ∀ o, w.factory.objects[L]? = some o → SlotPeer w.factory o.stateId p
  opened : ∀ u ∈ w.universes, u.opened ∈ u.threads ∧ SlotPeer w.factory u.stateIndex u.opened

structure Extends (f f' : Factory) : Prop where
  holds : ∀ i r, Holds f i r → Holds f' i r
  objects : ∀ (r : Nat) (o : LuaState), f.objects[r]? = some o → f'.objects[r]? = some o

theorem SlotPeer.extend {f f' : Factory} {i p : Nat} (h : SlotPeer f i p)
    (he : Extends f f') : SlotPeer f' i p := by
  obtain ⟨r, o, hr, ho, hp⟩ := h
  exact ⟨r, o, he.holds i r hr, he.objects r o ho, hp⟩

theorem getElem?_append_of_some {α : Type} {xs ys : List α} {i : Nat} {x : α}
    (h : xs[i]? = some x) : (xs ++ ys)[i]? = some x := by
  rw [List.getElem?_append_left (List.getElem?_eq_some_iff.mp h).1, h]

theorem getElem?_snoc_cases {α : Type} {xs : List α} {x y : α} {i : Nat}
    (h : (xs ++ [x])[i]? = some y) : xs[i]? = some y ∨ (i = xs.length ∧ y = x) := by
  rw [List.getElem?_append] at h
  split at h
  · exact Or.inl h
  · have hi : i - xs.length = 0 := by
      by_contra hne
      simp [hne] at h
    exact Or.inr ⟨by omega, by simpa [hi, eq_comm] using h⟩

theorem getCPtrPeer_eq_iff {o : LuaState} {p : Nat} (hp : p ≠ 0) :
    o.getCPtrPeer = p ↔ o.luaState = some p := by
  cases h : o.luaState <;> simp [LuaState.getCPtrPeer, h, Ne.symm hp]

@[simp] theorem opening_threads (p i : Nat) (u : Universe) :
    (opening p i u).threads = u.threads := by
  unfold opening
  split <;> rfl

@[simp] theorem opening_main (p i : Nat) (u : Universe) : (opening p i u).main = u.main := by
  unfold opening
  split <;> rfl

theorem opening_of_mem {p : Nat} {u : Universe} (hp : p ∈ u.threads) (i : Nat) :
    opening p i u = { u with stateIndex := i, opened := p } := if_pos hp

theorem opening_of_not_mem {p : Nat} {u : Universe} (hp : p ∉ u.threads) (i : Nat) :
    opening p i u = u := if_neg hp

theorem mem_spawning {p new t : Nat} {u : Universe} :
    t ∈ (spawning p new u).threads ↔ t ∈ u.threads ∨ (t = new ∧ p ∈ u.threads) := by
  unfold spawning
  split <;> grind [Universe.threads]

@[simp] theorem spawning_main (p new : Nat) (u : Universe) :
    (spawning p new u).main = u.main := by
  unfold spawning
  split <;> rfl

@[simp] theorem spawning_opened (p new : Nat) (u : Universe) :
    (spawning p new u).opened = u.opened := by
  unfold spawning
  split <;> rfl

@[simp] theorem spawning_stateIndex (p new : Nat) (u : Universe) :
    (spawning p new u).stateIndex = u.stateIndex := by
  unfold spawning
  split <;> rfl

/-- Threads are real pointers, and no two universes share one. -/
structure Sound (us : List Universe) : Prop where
  nonzero : ∀ u ∈ us, ∀ t ∈ u.threads, t ≠ 0
  disjoint : ∀ u ∈ us, ∀ v ∈ us, ∀ t, t ∈ u.threads → t ∈ v.threads → u = v

theorem Sound.jluaOpen {us : List Universe} (h : Sound us) (p i : Nat) :
    Sound (jluaOpen us p i) where
  nonzero := by
    intro v hv
    obtain ⟨u, hu, rfl⟩ := List.mem_map.mp hv
    simpa using h.nonzero u hu
  disjoint := by
    intro v hv v' hv' t ht ht'
    obtain ⟨u, hu, rfl⟩ := List.mem_map.mp hv
    obtain ⟨u', hu', rfl⟩ := List.mem_map.mp hv'
    rw [opening_threads] at ht ht'
    rw [h.disjoint u hu u' hu' t ht ht']

/-- A new thread is in the universe of its creator only. -/
theorem Sound.luaNewthread {us : List Universe} {p new : Nat} (h : Sound us) (hnew : new ≠ 0)
    (unused : ∀ u ∈ us, new ∉ u.threads) : Sound (luaNewthread us p new) where
  nonzero := by
    intro v hv t ht
    obtain ⟨u, hu, rfl⟩ := List.mem_map.mp hv
    rcases mem_spawning.mp ht with ht | ⟨rfl, _⟩
    · exact h.nonzero u hu t ht
    · exact hnew
  disjoint := by
    intro v hv v' hv' t ht ht'
    obtain ⟨u, hu, rfl⟩ := List.mem_map.mp hv
    obtain ⟨u', hu', rfl⟩ := List.mem_map.mp hv'
    rcases mem_spawning.mp ht with ht | ⟨rfl, hp⟩ <;>
      rcases mem_spawning.mp ht' with ht' | ⟨hn, hp'⟩
    · rw [h.disjoint u hu u' hu' t ht ht']
    · exact absurd (hn ▸ ht) (unused u hu)
    · exact absurd ht' (unused u' hu')
    · rw [h.disjoint u hu u' hu' p hp hp']

theorem Sound.snoc {us : List Universe} {peer i opened : Nat} (h : Sound us) (hpeer : peer ≠ 0)
    (unused : ∀ u ∈ us, peer ∉ u.threads) : Sound (us ++ [⟨peer, [], i, opened⟩]) where
  nonzero := by
    intro v hv t ht
    rcases List.mem_append.mp hv with hv | hv
    · exact h.nonzero v hv t ht
    · obtain rfl := List.mem_singleton.mp hv
      obtain rfl : t = peer := by simpa [Universe.threads] using ht
      exact hpeer
  disjoint := by
    intro v hv v' hv' t ht ht'
    rcases List.mem_append.mp hv with hold | hv <;> rcases List.mem_append.mp hv' with hold' | hv'
    · exact h.disjoint v hold v' hold' t ht ht'
    · obtain rfl := List.mem_singleton.mp hv'
      obtain rfl : t = peer := by simpa [Universe.threads] using ht'
      exact absurd ht (unused v hold)
    · obtain rfl := List.mem_singleton.mp hv
      obtain rfl : t = peer := by simpa [Universe.threads] using ht
      exact absurd ht' (unused v' hold')
    · rw [List.mem_singleton.mp hv, List.mem_singleton.mp hv']

theorem mem_luaClose {us : List Universe} {p : Nat} {u : Universe} :
    u ∈ luaClose us p ↔ u ∈ us ∧ p ∉ u.threads := by
  simp [luaClose]

theorem Sound.luaClose {us : List Universe} (h : Sound us) (p : Nat) : Sound (luaClose us p) where
  nonzero := fun v hv => h.nonzero v (mem_luaClose.mp hv).1
  disjoint := fun v hv v' hv' => h.disjoint v (mem_luaClose.mp hv).1 v' (mem_luaClose.mp hv').1

theorem Inv.sound {w : World} (h : Inv w) : Sound w.universes := ⟨h.nonzero, h.disjoint⟩

theorem Fresh.unused {w : World} {p : Nat} (h : Fresh w p) : ∀ u ∈ w.universes, p ∉ u.threads :=
  fun u hu hp => h.2 (Or.inl ⟨u, hu, hp⟩)

theorem insertLuaState_of_slotPeer {f : Factory} {i p : Nat} (hp : p ≠ 0)
    (h : SlotPeer f i p) (L : Nat) : ∃ j, insertLuaState f L p = some (f.states, j) := by
  obtain ⟨r, o, hr, ho, hop⟩ := h
  cases hf : findPeer f.objects p f.states with
  | some j => exact ⟨j, by simp [insertLuaState, hf]⟩
  | none => exact absurd ((getCPtrPeer_eq_iff hp).mpr hop) (findPeer_eq_none hf hr ho)

/-- What a constructor `LuaState(CPtr)` that returns has done: no slot in use has changed, and
the new handle's own slot has its peer. -/
structure NewHandle (w : World) (p i : Nat) (w' : World) : Prop where
  universes : w'.universes = jluaOpen w.universes p i
  objects : w'.factory.objects = w.factory.objects ++ [⟨some p, i⟩]
  length : w'.factory.states.length = w.factory.states.length
  keeps : Extends w.factory w'.factory
  slot : SlotPeer w'.factory i p
  slots : ∀ j k, Holds w'.factory j k → Holds w.factory j k ∨ k = w.factory.objects.length
  full : (∀ j : Nat, w.factory.states[j]? ≠ some none) → w'.factory.states = w.factory.states

theorem newHandle_spec {w w' : World} {p r : Nat} (hp : p ≠ 0)
    (h : newHandle w p = some (w', r)) : ∃ i, NewHandle w p i w' := by
  simp only [newHandle, Option.bind_eq_bind, Option.bind_eq_some_iff] at h
  obtain ⟨⟨states, i⟩, hins, hres⟩ := h
  obtain ⟨rfl, rfl⟩ := Prod.mk.inj (Option.some.inj hres)
  refine ⟨i, ?_⟩
  have hobjects : ∀ (r : Nat) (o : LuaState), w.factory.objects[r]? = some o →
      (w.factory.objects ++ [⟨some p, i⟩])[r]? = some o := fun _ _ h => getElem?_append_of_some h
  rcases insertLuaState_cases hins with ⟨rfl, r, o, hr, ho, hop⟩ | ⟨rfl, hfree⟩
  · exact
      { universes := rfl, objects := rfl, length := rfl
        keeps := ⟨fun _ _ h => h, hobjects⟩
        slot := ⟨r, o, hr, hobjects r o ho, (getCPtrPeer_eq_iff hp).mp hop⟩
        slots := fun _ _ h => Or.inl h
        full := fun _ => rfl }
  · have hlt := (List.getElem?_eq_some_iff.mp hfree).1
    refine
      { universes := rfl, objects := rfl, length := List.length_set
        keeps := ⟨fun j k h => ?_, hobjects⟩
        slot := ⟨w.factory.objects.length, ⟨some p, i⟩, ?_, by simp, rfl⟩
        slots := fun j k h => ?_
        full := fun hfull => absurd hfree (hfull i) }
    · have hne : i ≠ j := by
        rintro rfl
        rw [Holds, hfree] at h
        simp at h
      simpa [Holds, List.getElem?_set_ne hne] using h
    · simp [Holds, hlt]
    · by_cases hij : i = j
      · subst j
        simp only [Holds, List.getElem?_set_self hlt, Option.some.injEq] at h
        exact Or.inr h.symm
      · simp only [Holds, List.getElem?_set_ne hij] at h
        exact Or.inl h

theorem inv_init : Inv init where
  wellFormed := wellFormed_init
  nonzero := by simp [init]
  disjoint := by simp [init]
  handles := by rintro L p u ⟨⟨o, ho, _⟩, _⟩; simp [init, StateFactory.init] at ho
  opened := by simp [init]

theorem NewHandle.wellFormed {w w' : World} {p i : Nat} (h : NewHandle w p i w')
    (hw : WellFormed w.factory) : WellFormed w'.factory := by
  constructor
  · intro j k hk
    rw [h.objects, List.length_append]
    rcases h.slots j k hk with hk | rfl
    · exact Nat.lt_succ_of_lt (hw.created j k hk)
    · exact Nat.lt_succ_self _
  · intro o ho
    rw [h.objects] at ho
    rcases List.mem_append.mp ho with ho | ho
    · exact h.length ▸ hw.inBounds o ho
    · obtain rfl := List.mem_singleton.mp ho
      obtain ⟨k, _, hk, _⟩ := h.slot
      exact (List.getElem?_eq_some_iff.mp hk).1

theorem NewHandle.inv {w w' : World} {p i : Nat} (h : NewHandle w p i w') (hw : Inv w) :
    Inv w' where
  wellFormed := h.wellFormed hw.wellFormed
  nonzero := h.universes ▸ (hw.sound.jluaOpen p i).nonzero
  disjoint := h.universes ▸ (hw.sound.jluaOpen p i).disjoint
  handles := by
    rintro L q v ⟨⟨o, ho, hq⟩, hv, hqv⟩ o' ho'
    obtain rfl : o = o' := Option.some.inj (ho.symm.trans ho')
    rw [h.universes] at hv
    obtain ⟨u, hu, rfl⟩ := List.mem_map.mp hv
    rw [opening_threads] at hqv
    rw [h.objects] at ho
    rcases getElem?_snoc_cases ho with hold | ⟨_, rfl⟩
    · exact (hw.handles L q u ⟨⟨o, hold, hq⟩, hu, hqv⟩ o hold).extend h.keeps
    · obtain rfl : p = q := Option.some.inj hq
      exact h.slot
  opened := by
    rw [h.universes]
    intro v hv
    obtain ⟨u, hu, rfl⟩ := List.mem_map.mp hv
    by_cases hp : p ∈ u.threads
    · rw [opening_of_mem hp]
      exact ⟨hp, h.slot⟩
    · rw [opening_of_not_mem hp]
      exact ⟨(hw.opened u hu).1, (hw.opened u hu).2.extend h.keeps⟩

/-- A new thread is not in use, so it is in one universe only and no handle has it. -/
theorem inv_luaNewthread {w : World} {p new : Nat} (hw : Inv w) (fresh : Fresh w new) :
    Inv { w with universes := luaNewthread w.universes p new } where
  wellFormed := hw.wellFormed
  nonzero := (hw.sound.luaNewthread fresh.1 fresh.unused).nonzero
  disjoint := (hw.sound.luaNewthread fresh.1 fresh.unused).disjoint
  handles := by
    rintro L q v ⟨⟨o, ho, hq⟩, hv, hqv⟩ o' ho'
    obtain ⟨u, hu, rfl⟩ := List.mem_map.mp hv
    rcases mem_spawning.mp hqv with hqu | ⟨rfl, _⟩
    · exact hw.handles L q u ⟨⟨o, ho, hq⟩, hu, hqu⟩ o' ho'
    · exact absurd (Or.inr ⟨o, List.mem_of_getElem? ho, hq⟩) fresh.2
  opened := by
    intro v hv
    obtain ⟨u, hu, rfl⟩ := List.mem_map.mp hv
    rw [spawning_opened, spawning_stateIndex]
    exact ⟨mem_spawning.mpr (Or.inl (hw.opened u hu).1), (hw.opened u hu).2⟩

theorem extends_newLuaState {f : Factory} (hgap : NoGap f) (peer : Nat) :
    Extends f (StateFactory.newLuaState f peer).1 where
  holds := by
    intro i r h
    apply (holds_newLuaState f peer i r).mpr
    have hle : i ≤ getNextStateIndex f.states := by
      by_contra hgt
      exact (noGap_iff f).mp hgap i r (by omega) h
    have hne : i ≠ getNextStateIndex f.states := by
      rintro rfl
      have hfree := getElem?_getNextStateIndex f.states
      rw [Holds] at h
      simp [h] at hfree
    exact Or.inl ⟨by omega, h⟩
  objects := fun _ _ h => getElem?_append_of_some h

theorem inv_newLuaState {w : World} {peer : Nat} (hw : Inv w) (fresh : Fresh w peer)
    (hgap : NoGap w.factory) : Inv (newLuaState w peer) := by
  have hext := extends_newLuaState hgap peer
  have hnew : SlotPeer (StateFactory.newLuaState w.factory peer).1
      (getNextStateIndex w.factory.states) peer :=
    ⟨w.factory.objects.length, ⟨some peer, getNextStateIndex w.factory.states⟩,
      (holds_newLuaState w.factory peer _ _).mpr (Or.inr (Or.inl ⟨rfl, rfl⟩)),
      by simp [StateFactory.newLuaState], rfl⟩
  have hsound : Sound (newLuaState w peer).universes := hw.sound.snoc fresh.1 fresh.unused
  have mem : ∀ v, v ∈ (newLuaState w peer).universes →
      v ∈ w.universes ∨ v = ⟨peer, [], getNextStateIndex w.factory.states, peer⟩ := by
    intro v hv
    simpa [newLuaState] using hv
  refine ⟨wellFormed_newLuaState hw.wellFormed peer, hsound.nonzero, hsound.disjoint, ?_, ?_⟩
  · rintro L q v ⟨⟨o, ho, hq⟩, hv, hqv⟩ o' ho'
    obtain rfl : o = o' := Option.some.inj (ho.symm.trans ho')
    rcases getElem?_snoc_cases ho with hold | ⟨_, rfl⟩
    · rcases mem v hv with hv | rfl
      · exact (hw.handles L q v ⟨⟨o, hold, hq⟩, hv, hqv⟩ o hold).extend hext
      · obtain rfl : q = peer := by simpa [Universe.threads] using hqv
        exact absurd (Or.inr ⟨o, List.mem_of_getElem? hold, hq⟩) fresh.2
    · obtain rfl : peer = q := Option.some.inj hq
      exact hnew
  · intro v hv
    rcases mem v hv with hv | rfl
    · exact ⟨(hw.opened v hv).1, (hw.opened v hv).2.extend hext⟩
    · exact ⟨by simp [Universe.threads], hnew⟩

/-- Closing a handle clears its slot, and every slot another open universe relies on holds a
peer of that universe. -/
theorem inv_close {w : World} {L p : Nat} {u : Universe} (hw : Inv w) (hL : HandleOf w L p u) :
    Inv (close w L p) := by
  obtain ⟨⟨o, ho, hop⟩, hu, hpu⟩ := hL
  have hslot := hw.handles L p u ⟨⟨o, ho, hop⟩, hu, hpu⟩ o ho
  have hclose := close_eq hw.wellFormed ho
  have hlt := (List.getElem?_eq_some_iff.mp ho).1
  have keep : ∀ v : Universe, p ∉ v.threads → ∀ j q, q ∈ v.threads → SlotPeer w.factory j q →
      SlotPeer ⟨w.factory.objects.set L { o with luaState := none },
        w.factory.states.set o.stateId none⟩ j q := by
    rintro v hv j q hq ⟨r, o', hr, ho', hoq⟩
    have hpq : p ≠ q := by
      rintro rfl
      exact hv hq
    have hrL : L ≠ r := by
      rintro rfl
      obtain rfl : o = o' := Option.some.inj (ho.symm.trans ho')
      exact hpq (Option.some.inj (hop.symm.trans hoq))
    have hj : o.stateId ≠ j := by
      rintro rfl
      obtain ⟨r₂, o₂, hr₂, ho₂, hop₂⟩ := hslot
      obtain rfl : r₂ = r := Option.some.inj (Option.some.inj (hr₂.symm.trans hr))
      obtain rfl : o₂ = o' := Option.some.inj (ho₂.symm.trans ho')
      exact hpq (Option.some.inj (hop₂.symm.trans hoq))
    exact ⟨r, o', by simpa [Holds, List.getElem?_set_ne hj] using hr,
      by simpa [List.getElem?_set_ne hrL] using ho', hoq⟩
  have hsound := hw.sound.luaClose p
  simp only [close, hclose]
  refine ⟨wellFormed_close hw.wellFormed ho hclose, hsound.nonzero, hsound.disjoint, ?_, ?_⟩
  · rintro K q v ⟨⟨o₁, ho₁, hoq⟩, hv, hqv⟩ o' ho'
    obtain rfl : o₁ = o' := Option.some.inj (ho₁.symm.trans ho')
    have hKL : L ≠ K := by
      rintro rfl
      simp only [List.getElem?_set_self hlt, Option.some.injEq] at ho₁
      subst o₁
      simp at hoq
    simp only [List.getElem?_set_ne hKL] at ho₁
    obtain ⟨hv, hpv⟩ := mem_luaClose.mp hv
    exact keep v hpv _ q hqv (hw.handles K q v ⟨⟨o₁, ho₁, hoq⟩, hv, hqv⟩ o₁ ho₁)
  · intro v hv
    obtain ⟨hv, hpv⟩ := mem_luaClose.mp hv
    exact ⟨(hw.opened v hv).1, keep v hpv _ _ (hw.opened v hv).1 (hw.opened v hv).2⟩

/-- The second `insertLuaState` of `newThread` finds what the first one left. -/
theorem newThread_eq {w : World} {p : Nat} (hp : p ≠ 0) (new : Nat) :
    newThread w p new = toThread { w with universes := luaNewthread w.universes p new } p := by
  unfold newThread toThread
  cases h : newHandle { w with universes := luaNewthread w.universes p new } p with
  | none => simp [h]
  | some res =>
    obtain ⟨w₂, r⟩ := res
    obtain ⟨i, hnew⟩ := newHandle_spec hp h
    obtain ⟨j, hj⟩ := insertLuaState_of_slotPeer hp hnew.slot r
    simp [h, hj]

theorem inv_toThread {w : World} {q : Nat} (hw : Inv w) (hq : q ≠ 0) : Inv (toThread w q) := by
  unfold toThread
  cases h : newHandle w q with
  | none => exact hw
  | some res =>
    obtain ⟨i, hnew⟩ := newHandle_spec hq h
    exact hnew.inv hw

theorem inv_step {w w' : World} {a : Action} (hw : Inv w) (ok : InPlace w a)
    (h : Step w a w') : Inv w' := by
  cases h with
  | newLuaState fresh => exact inv_newLuaState hw fresh ok
  | coroutine hu hp fresh => exact inv_luaNewthread hw fresh
  | @newThread L p new u hL fresh =>
    have hp := hw.nonzero u hL.2.1 p hL.2.2
    rw [newThread_eq hp]
    exact inv_toThread (inv_luaNewthread hw fresh) hp
  | @toThread L p q u hL hq => exact inv_toThread hw (hw.nonzero u hL.2.1 q hq)
  | close hL => exact inv_close hw hL

theorem callbackPeer_eq {w : World} (hw : Inv w) {u : Universe} (hu : u ∈ w.universes)
    {l : Nat} (hl : l ∈ u.threads) : callbackPeer w l = some u.opened := by
  obtain ⟨_, r, o, hr, ho, hop⟩ := hw.opened u hu
  have hfind : w.universes.find? (l ∈ ·.threads) = some u := by
    cases hf : w.universes.find? (l ∈ ·.threads) with
    | none => exact absurd hl (by simpa using List.find?_eq_none.mp hf u hu)
    | some v =>
      have hlv : l ∈ v.threads := by simpa using List.find?_some hf
      rw [hw.disjoint u hu v (List.mem_of_find?_eq_some hf) l hl hlv]
  rw [Holds] at hr
  simp [callbackPeer, hfind, getExistingState, hr, ho, hop]

def NeverCloses (_ : World) : Action → Prop
  | .close _ => False
  | _ => True

/-- While nothing has been closed there is no free slot, so `insertLuaState` throws for every
peer it does not find, and only main threads are ever opened. -/
structure MainOnly (w : World) : Prop where
  full : ∀ j : Nat, w.factory.states[j]? ≠ some none
  mains : ∀ i p, SlotPeer w.factory i p → ∀ u ∈ w.universes, p ∈ u.threads → p = u.main
  opened : ∀ u ∈ w.universes, u.opened = u.main

theorem mainOnly_init : MainOnly init where
  full := by simp [init, StateFactory.init]
  mains := by simp [init]
  opened := by simp [init]

theorem MainOnly.noGap {w : World} (hm : MainOnly w) : NoGap w.factory :=
  fun i _ _ _ hi => absurd hi (hm.full i)

theorem slotPeer_newLuaState {f : Factory} {peer i p : Nat}
    (h : SlotPeer (StateFactory.newLuaState f peer).1 i p) :
    p = peer ∨ ∃ j, SlotPeer f j p := by
  obtain ⟨r, o, hr, ho, hop⟩ := h
  rcases getElem?_snoc_cases ho with hold | ⟨_, rfl⟩
  · have hlt := (List.getElem?_eq_some_iff.mp hold).1
    rcases (holds_newLuaState f peer i r).mp hr with ⟨_, hr⟩ | ⟨_, rfl⟩ | ⟨_, hr⟩
    · exact Or.inr ⟨_, r, o, hr, hold, hop⟩
    · exact absurd hlt (Nat.lt_irrefl _)
    · exact Or.inr ⟨_, r, o, hr, hold, hop⟩
  · exact Or.inl (Option.some.inj hop).symm

theorem mainOnly_newLuaState {w : World} {peer : Nat} (hm : MainOnly w)
    (fresh : Fresh w peer) : MainOnly (newLuaState w peer) := by
  have mem : ∀ v, v ∈ (newLuaState w peer).universes →
      v ∈ w.universes ∨ v = ⟨peer, [], getNextStateIndex w.factory.states, peer⟩ := by
    intro v hv
    simpa [newLuaState] using hv
  constructor
  · intro j
    simp only [newLuaState, StateFactory.newLuaState, List.getElem?_insertIdx]
    split
    · exact hm.full j
    · split
      · split <;> simp
      · exact hm.full (j - 1)
  · intro i p hp v hv hpv
    rcases mem v hv with hold | rfl
    · rcases slotPeer_newLuaState hp with rfl | ⟨j, hj⟩
      · exact absurd (Or.inl ⟨v, hold, hpv⟩) fresh.2
      · exact hm.mains j p hj v hold hpv
    · simpa [Universe.threads] using hpv
  · intro v hv
    rcases mem v hv with hold | rfl
    · exact hm.opened v hold
    · rfl

theorem mainOnly_luaNewthread {w : World} {p new : Nat} (hm : MainOnly w)
    (fresh : Fresh w new) :
    MainOnly { w with universes := luaNewthread w.universes p new } where
  full := hm.full
  mains := by
    intro i q hq v hv hqv
    obtain ⟨u, hu, rfl⟩ := List.mem_map.mp hv
    rw [spawning_main]
    rcases mem_spawning.mp hqv with hqu | ⟨rfl, _⟩
    · exact hm.mains i q hq u hu hqu
    · obtain ⟨r, o, _, ho, hoq⟩ := hq
      exact absurd (Or.inr ⟨o, List.mem_of_getElem? ho, hoq⟩) fresh.2
  opened := by
    intro v hv
    obtain ⟨u, hu, rfl⟩ := List.mem_map.mp hv
    rw [spawning_main, spawning_opened]
    exact hm.opened u hu

theorem mainOnly_toThread {w : World} {q : Nat} (hw : Inv w) (hm : MainOnly w) (hq : q ≠ 0) :
    MainOnly (toThread w q) := by
  unfold toThread
  cases h : newHandle w q with
  | none => exact hm
  | some res =>
    obtain ⟨w', r⟩ := res
    obtain ⟨i, hnew⟩ := newHandle_spec hq h
    -- the list has not changed, so the state found was registered before
    have hstates := hnew.full hm.full
    have hback : ∀ j p, SlotPeer w'.factory j p → SlotPeer w.factory j p := by
      rintro j p ⟨k, o, hk, ho, hop⟩
      rw [Holds, hstates] at hk
      rw [hnew.objects] at ho
      rcases getElem?_snoc_cases ho with hold | ⟨rfl, _⟩
      · exact ⟨k, o, hk, hold, hop⟩
      · exact absurd (hw.wellFormed.created j _ hk) (Nat.lt_irrefl _)
    constructor
    · simpa [hstates] using hm.full
    · intro j p hp v hv hpv
      simp only [Option.map_some, Option.getD_some, hnew.universes] at hv
      obtain ⟨u, hu, rfl⟩ := List.mem_map.mp hv
      rw [opening_threads] at hpv
      rw [opening_main]
      exact hm.mains j p (hback j p hp) u hu hpv
    · intro v hv
      simp only [Option.map_some, Option.getD_some, hnew.universes] at hv
      obtain ⟨u, hu, rfl⟩ := List.mem_map.mp hv
      by_cases hqu : q ∈ u.threads
      · rw [opening_of_mem hqu]
        exact hm.mains i q (hback i q hnew.slot) u hu hqu
      · rw [opening_of_not_mem hqu]
        exact hm.opened u hu

theorem mainOnly_step {w w' : World} {a : Action} (hw : Inv w) (hm : MainOnly w)
    (ok : NeverCloses w a) (h : Step w a w') : MainOnly w' := by
  cases h with
  | newLuaState fresh => exact mainOnly_newLuaState hm fresh
  | coroutine hu hp fresh => exact mainOnly_luaNewthread hm fresh
  | @newThread L p new u hL fresh =>
    have hp := hw.nonzero u hL.2.1 p hL.2.2
    rw [newThread_eq hp]
    exact mainOnly_toThread (inv_luaNewthread hw fresh) (mainOnly_luaNewthread hm fresh) hp
  | @toThread L p q u hL hq => exact mainOnly_toThread hw hm (hw.nonzero u hL.2.1 q hq)
  | close => exact ok.elim

theorem routed_iff {V : Type} {w : World} {stackOf : Nat → List V} {l : Nat} :
    Routed w stackOf l ↔ callbackPeer w l = some l :=
  ⟨And.left, fun h => ⟨h, by simp [argumentsRead, h]⟩⟩

theorem mainOnly_of_neverCloses {log : List (World × Action)} {w : World}
    (run : Run Step init log w) (ok : Meets NeverCloses log) : Inv w ∧ MainOnly w := by
  refine (run.visits_of_meets (P := fun w => Inv w ∧ MainOnly w) ⟨inv_init, mainOnly_init⟩
    ?_ ok).2
  rintro v a v' ⟨hv, hm⟩ hok hs
  have inPlace : InPlace v a := by
    cases a with
    | newLuaState peer => exact hm.noGap
    | coroutine | newThread | toThread | close => trivial
  exact ⟨inv_step hv inPlace hs, mainOnly_step hv hm hok hs⟩

/-- Where a callback ends up. In general it is the state of the thread opened last, provided
that no `newLuaState` has shifted a registered state; and if nothing has been closed, that
thread is the main one. -/
theorem callback_routed_iff {V : Type} (stackOf : Nat → List V) {log : List (World × Action)}
    {w : World} (run : Run Step init log w) {u : Universe} (hu : u ∈ w.universes) {l : Nat}
    (hl : l ∈ u.threads) :
    (Meets InPlace log → (Routed w stackOf l ↔ l = u.opened)) ∧
    (Meets NeverCloses log → (Routed w stackOf l ↔ l = u.main)) := by
  simp only [routed_iff]
  constructor
  · intro ok
    have hw := (run.visits_of_meets inv_init (fun _ _ _ => inv_step) ok).2
    rw [callbackPeer_eq hw hu hl, Option.some.injEq, eq_comm]
  · intro ok
    obtain ⟨hw, hm⟩ := mainOnly_of_neverCloses run ok
    rw [callbackPeer_eq hw hu hl, hm.opened u hu, Option.some.injEq, eq_comm]

def oneState : Factory := ⟨[⟨some 8, 0⟩], [some 0]⟩

theorem run_coroutine :
    Run Step init [(init, .newLuaState 8), (⟨oneState, [⟨8, [], 0, 8⟩]⟩, .coroutine 8 16)]
      ⟨oneState, [⟨8, [16], 0, 8⟩]⟩ :=
  .next (.next .start
      (@Step.newLuaState init 8 ⟨by decide, by simp [InUse, init, StateFactory.init]⟩))
    (.coroutine (w := ⟨oneState, [⟨8, [], 0, 8⟩]⟩) (u := ⟨8, [], 0, 8⟩) (by simp)
      (by simp [Universe.threads]) ⟨by decide, by simp [InUse, oneState, Universe.threads]⟩)

theorem callback_routed_iff_coroutine :
    Routed ⟨oneState, [⟨8, [16], 0, 8⟩]⟩ (fun l => [l, l + 1]) 8 :=
  ((callback_routed_iff (fun l => [l, l + 1]) run_coroutine (u := ⟨8, [16], 0, 8⟩) (by simp)
    (l := 8) (by simp [Universe.threads])).2 (by simp [Meets, NeverCloses])).mpr rfl

/-- The callback made on the coroutine is given the main thread and reads its stack. -/
theorem callback_of_coroutine_misrouted :
    Run Step init [(init, .newLuaState 8), (⟨oneState, [⟨8, [], 0, 8⟩]⟩, .coroutine 8 16)]
      ⟨oneState, [⟨8, [16], 0, 8⟩]⟩ ∧
    ¬ Routed ⟨oneState, [⟨8, [16], 0, 8⟩]⟩ (fun l => [l, l + 1]) 16 ∧
    argumentsRead ⟨oneState, [⟨8, [16], 0, 8⟩]⟩ (fun l => [l, l + 1]) 16 = some [9] := by
  refine ⟨run_coroutine, fun h => ?_, by decide⟩
  exact absurd h.1 (by decide)

end JLua.Routing
