import JLua.Routing

/-!
# LuaObjects and closed universes

Several `LuaState` handles may belong to one Lua universe, and `close` destroys the universe for
all of them, but empties the handle it is called on only. `LuaObject.finalize` looks at its own
handle before it calls `LunRef`.
-/

namespace JLua.Handles

open JLua.Routing StateFactory TransitionRuns
set_option autoImplicit false

/-- A `LuaObject` of the handle at `state`; `ref` is `null` if its constructor has thrown. -/
structure LuaObject where
  state : Nat
  ref : Option Int
  finalized : Bool
  deriving DecidableEq

/-- `destroyed` is history: the threads of the universes that have been closed. Peers stand for
`lua_State`s, which no later one is equal to, rather than for their addresses. -/
structure World where
  routing : Routing.World
  destroyed : List Nat
  objects : List LuaObject

def init : World := ⟨Routing.init, [], []⟩

def close (w : World) (L p : Nat) : World :=
  match StateFactory.close w.routing.factory L with
  | none => w
  | some _ =>
    { w with
      routing := Routing.close w.routing L p
      destroyed := w.destroyed ++
        (w.routing.universes.filter (p ∈ ·.threads)).flatMap Universe.threads }

/-- The `lua_State` on which `finalize` executes `LunRef`, if it gets that far: a `null` reference
makes it throw first. -/
def unrefOn (w : World) (o : LuaObject) : Option Nat :=
  match w.routing.factory.objects[o.state]? with
  | some L => if L.getCPtrPeer ≠ 0 then o.ref.map fun _ => L.getCPtrPeer else none
  | none => none

inductive Action where
  | newLuaState (peer : Nat)
  | coroutine (p new : Nat)
  | newThread (L new : Nat)
  | toThread (L q : Nat)
  | newLuaObject (L : Nat) (ref : Option Int)
  | close (L : Nat)
  | finalize (o : Nat)

def Unused (w : World) (p : Nat) : Prop := Fresh w.routing p ∧ p ∉ w.destroyed

/-- What a handle does after its universe has gone is undefined, `finalize` apart. -/
inductive Step : World → Action → World → Prop where
  | newLuaState {w : World} {peer : Nat} (fresh : Unused w peer) :
      Step w (.newLuaState peer) { w with routing := Routing.newLuaState w.routing peer }
  | coroutine {w : World} {p new : Nat} {u : Universe} (hu : u ∈ w.routing.universes)
      (hp : p ∈ u.threads) (fresh : Unused w new) :
      Step w (.coroutine p new)
        { w with
          routing :=
            { w.routing with universes := luaNewthread w.routing.universes p new } }
  | newThread {w : World} {L p new : Nat} {u : Universe} (hL : HandleOf w.routing L p u)
      (fresh : Unused w new) :
      Step w (.newThread L new) { w with routing := Routing.newThread w.routing p new }
  | toThread {w : World} {L p q : Nat} {u : Universe} (hL : HandleOf w.routing L p u)
      (hq : q ∈ u.threads) :
      Step w (.toThread L q) { w with routing := Routing.toThread w.routing q }
  | newLuaObject {w : World} {L p : Nat} {u : Universe} (hL : HandleOf w.routing L p u)
      (ref : Option Int) :
      Step w (.newLuaObject L ref) { w with objects := w.objects ++ [⟨L, ref, false⟩] }
  | close {w : World} {L p : Nat} {u : Universe} (hL : HandleOf w.routing L p u) :
      Step w (.close L) (close w L p)
  | finalize {w : World} {i : Nat} {o : LuaObject} (ho : w.objects[i]? = some o)
      (once : o.finalized = false) :
      Step w (.finalize i) { w with objects := w.objects.set i { o with finalized := true } }

/-- No object that is still to be finalized would execute `LunRef` on a destroyed `lua_State`. -/
def SafeToFinalize (w : World) : Prop :=
  ∀ o ∈ w.objects, o.finalized = false → ∀ p, unrefOn w o = some p → p ∉ w.destroyed

def ClosesAlone (w : World) : Action → Prop
  | .close L => ∀ p u, HandleOf w.routing L p u → ∀ o ∈ w.objects, o.finalized = false →
    o.state ≠ L → ∀ q, unrefOn w o = some q → q ∉ u.threads
  | _ => True

structure Inv (w : World) : Prop where
  wellFormed : WellFormed w.routing.factory
  sound : Sound w.routing.universes
  alive : ∀ u ∈ w.routing.universes, ∀ t ∈ u.threads, t ∉ w.destroyed
  states : ∀ o ∈ w.objects, o.state < w.routing.factory.objects.length

structure Grows (w w' : World) : Prop where
  handles : ∃ more, w'.routing.factory.objects = w.routing.factory.objects ++ more
  destroyed : w'.destroyed = w.destroyed
  objects : w'.objects = w.objects

theorem inv_init : Inv init where
  wellFormed := wellFormed_init
  sound := ⟨by simp [init, Routing.init], by simp [init, Routing.init]⟩
  alive := by simp [init]
  states := by simp [init]

theorem toThread_cases {w : Routing.World} {q : Nat} (hq : q ≠ 0) :
    Routing.toThread w q = w ∨ ∃ i, NewHandle w q i (Routing.toThread w q) := by
  unfold Routing.toThread
  cases h : newHandle w q with
  | none => exact Or.inl rfl
  | some res => exact Or.inr (newHandle_spec hq h)

section Grows
variable {w w' : World}

theorem Grows.unrefOn (h : Grows w w') {o : LuaObject}
    (ho : o.state < w.routing.factory.objects.length) : unrefOn w' o = unrefOn w o := by
  obtain ⟨more, hmore⟩ := h.handles
  rw [Handles.unrefOn, Handles.unrefOn, hmore, List.getElem?_append_left ho]

theorem Grows.safeToFinalize (h : Grows w w') (hw : Inv w) (hs : SafeToFinalize w) :
    SafeToFinalize w' := by
  intro o ho hfin p hp
  rw [h.objects] at ho
  rw [h.unrefOn (hw.states o ho)] at hp
  rw [h.destroyed]
  exact hs o ho hfin p hp

theorem Grows.states (h : Grows w w') (hw : Inv w) :
    ∀ o ∈ w'.objects, o.state < w'.routing.factory.objects.length := by
  obtain ⟨more, hmore⟩ := h.handles
  intro o ho
  rw [h.objects] at ho
  rw [hmore, List.length_append]
  exact Nat.lt_of_lt_of_le (hw.states o ho) (Nat.le_add_right _ _)

end Grows

theorem inv_newHandle {w : World} {q i : Nat} {r : Routing.World} (hw : Inv w)
    (h : NewHandle w.routing q i r) : Inv { w with routing := r } where
  wellFormed := h.wellFormed hw.wellFormed
  sound := by
    dsimp only
    rw [h.universes]
    exact hw.sound.jluaOpen q i
  alive := by
    dsimp only
    rw [h.universes]
    intro v hv t ht
    obtain ⟨u, hu, rfl⟩ := List.mem_map.mp hv
    rw [opening_threads] at ht
    exact hw.alive u hu t ht
  states := Grows.states ⟨⟨_, h.objects⟩, rfl, rfl⟩ hw

theorem inv_toThread {w : World} {q : Nat} (hw : Inv w) (hq : q ≠ 0) :
    Inv { w with routing := Routing.toThread w.routing q } := by
  rcases toThread_cases hq with h | ⟨i, h⟩
  · rw [h]
    exact hw
  · exact inv_newHandle hw h

theorem inv_luaNewthread {w : World} {p new : Nat} (hw : Inv w) (fresh : Unused w new) :
    Inv { w with
      routing := { w.routing with universes := luaNewthread w.routing.universes p new } } where
  wellFormed := hw.wellFormed
  sound := hw.sound.luaNewthread fresh.1.1 fresh.1.unused
  alive := by
    intro v hv t ht
    obtain ⟨u, hu, rfl⟩ := List.mem_map.mp hv
    rcases mem_spawning.mp ht with ht | ⟨rfl, _⟩
    · exact hw.alive u hu t ht
    · exact fresh.2
  states := hw.states

theorem inv_newLuaState {w : World} {peer : Nat} (hw : Inv w) (fresh : Unused w peer) :
    Inv { w with routing := Routing.newLuaState w.routing peer } where
  wellFormed := wellFormed_newLuaState hw.wellFormed peer
  sound := hw.sound.snoc fresh.1.1 fresh.1.unused
  alive := by
    intro v hv t ht
    rcases List.mem_append.mp hv with hv | hv
    · exact hw.alive v hv t ht
    · obtain rfl := List.mem_singleton.mp hv
      obtain rfl : t = peer := by simpa [Universe.threads] using ht
      exact fresh.2
  states := Grows.states ⟨⟨_, rfl⟩, rfl, rfl⟩ hw

theorem close_spec {w : World} {L p : Nat} {u : Universe} (hw : Inv w)
    (hL : HandleOf w.routing L p u) : ∃ o, w.routing.factory.objects[L]? = some o ∧
      (close w L p).routing.factory.objects =
        w.routing.factory.objects.set L { o with luaState := none } ∧
      WellFormed (close w L p).routing.factory ∧
      (close w L p).routing.universes = luaClose w.routing.universes p ∧
      (∀ t, t ∈ (close w L p).destroyed ↔ t ∈ w.destroyed ∨ t ∈ u.threads) ∧
      (close w L p).objects = w.objects := by
  obtain ⟨⟨o, ho, hop⟩, hu, hpu⟩ := hL
  have hclose := close_eq hw.wellFormed ho
  have hcloses : close w L p =
      { w with
        routing := ⟨⟨w.routing.factory.objects.set L { o with luaState := none },
          w.routing.factory.states.set o.stateId none⟩, luaClose w.routing.universes p⟩
        destroyed := w.destroyed ++
          (w.routing.universes.filter (p ∈ ·.threads)).flatMap Universe.threads } := by
    simp only [close, Routing.close, hclose]
  rw [hcloses]
  refine ⟨o, ho, rfl, wellFormed_close hw.wellFormed ho hclose, rfl, fun t => ?_, rfl⟩
  simp only [List.mem_append, List.mem_flatMap, List.mem_filter, decide_eq_true_eq]
  constructor
  · rintro (ht | ⟨v, ⟨hv, hpv⟩, ht⟩)
    · exact Or.inl ht
    · exact Or.inr (hw.sound.disjoint v hv u hu p hpv hpu ▸ ht)
  · rintro (ht | ht)
    · exact Or.inl ht
    · exact Or.inr ⟨u, ⟨hu, hpu⟩, ht⟩

theorem inv_close {w : World} {L p : Nat} {u : Universe} (hw : Inv w)
    (hL : HandleOf w.routing L p u) : Inv (close w L p) := by
  obtain ⟨o, _, hobjects, hformed, huniverses, hdestroyed, hrefs⟩ := close_spec hw hL
  constructor
  · exact hformed
  · exact huniverses ▸ hw.sound.luaClose p
  · rw [huniverses]
    intro v hv t ht hmem
    obtain ⟨hv, hpv⟩ := mem_luaClose.mp hv
    rcases (hdestroyed t).mp hmem with hold | hnew
    · exact hw.alive v hv t ht hold
    · exact hpv (hw.sound.disjoint u hL.2.1 v hv t hnew ht ▸ hL.2.2)
  · rw [hrefs, hobjects, List.length_set]
    exact hw.states

/-- What `finalize` would do after a `close`: nothing for objects of the handle that was closed,
the same as before for all others. -/
theorem unrefOn_close {w : World} {L p : Nat} {u : Universe} (hw : Inv w)
    (hL : HandleOf w.routing L p u) (o : LuaObject) :
    unrefOn (close w L p) o = if o.state = L then none else unrefOn w o := by
  obtain ⟨state, hstate, hobjects, _⟩ := close_spec hw hL
  rw [unrefOn, unrefOn, hobjects]
  by_cases ho : o.state = L
  · have hlt := (List.getElem?_eq_some_iff.mp hstate).1
    rw [if_pos ho, ho, List.getElem?_set_self hlt]
    simp [LuaState.getCPtrPeer]
  · rw [if_neg ho, List.getElem?_set_ne (Ne.symm ho)]

/-- `close` leaves every object safe to finalize exactly if it is the last handle with objects. -/
theorem safeToFinalize_close_iff {w : World} {L p : Nat} {u : Universe} (hw : Inv w)
    (hs : SafeToFinalize w) (hL : HandleOf w.routing L p u) :
    SafeToFinalize (close w L p) ↔ ClosesAlone w (.close L) := by
  obtain ⟨_, _, _, _, _, hdestroyed, hrefs⟩ := close_spec hw hL
  constructor
  · rintro h p' u' hL' o ho hfin hne q hq hmem
    -- the handle has one peer, and the peer is in one universe
    obtain ⟨⟨s, hs', hsp⟩, hu, hpu⟩ := hL
    obtain ⟨⟨s', hs'', hsp'⟩, hu', hpu'⟩ := hL'
    obtain rfl : s = s' := Option.some.inj (hs'.symm.trans hs'')
    obtain rfl : p = p' := Option.some.inj (hsp.symm.trans hsp')
    obtain rfl : u = u' := hw.sound.disjoint u hu u' hu' p hpu hpu'
    refine h o (hrefs ▸ ho) hfin q ?_ ((hdestroyed q).mpr (Or.inr hmem))
    rw [unrefOn_close hw ⟨⟨s, hs', hsp⟩, hu, hpu⟩, if_neg hne, hq]
  · intro h o ho hfin q hq hmem
    rw [hrefs] at ho
    rw [unrefOn_close hw hL] at hq
    split at hq
    · cases hq
    · rename_i hne
      rcases (hdestroyed q).mp hmem with hold | hnew
      · exact hs o ho hfin q hq hold
      · exact h p u hL o ho hfin hne q hq hnew

theorem inv_step {w w' : World} {a : Action} (hw : Inv w) (h : Step w a w') : Inv w' := by
  cases h with
  | newLuaState fresh => exact inv_newLuaState hw fresh
  | coroutine _ _ fresh => exact inv_luaNewthread hw fresh
  | @newThread L p new u hL fresh =>
    have hp := hw.sound.nonzero u hL.2.1 p hL.2.2
    rw [newThread_eq hp]
    exact inv_toThread (inv_luaNewthread hw fresh) hp
  | @toThread L p q u hL hq => exact inv_toThread hw (hw.sound.nonzero u hL.2.1 q hq)
  | @newLuaObject L p u hL ref =>
    refine ⟨hw.wellFormed, hw.sound, hw.alive, fun o ho => ?_⟩
    rcases List.mem_append.mp ho with ho | ho
    · exact hw.states o ho
    · obtain ⟨⟨s, hs, _⟩, _⟩ := hL
      rw [List.mem_singleton.mp ho]
      exact (List.getElem?_eq_some_iff.mp hs).1
  | close hL => exact inv_close hw hL
  | @finalize i o ho once =>
    refine ⟨hw.wellFormed, hw.sound, hw.alive, fun o' ho' => ?_⟩
    rcases List.mem_or_eq_of_mem_set ho' with ho' | rfl
    · exact hw.states o' ho'
    · exact hw.states o (List.mem_of_getElem? ho)

theorem grows_toThread {w : World} {q : Nat} (hq : q ≠ 0) :
    Grows w { w with routing := Routing.toThread w.routing q } := by
  rcases toThread_cases (w := w.routing) hq with h | ⟨i, h⟩
  · exact ⟨⟨[], by rw [h, List.append_nil]⟩, rfl, rfl⟩
  · exact ⟨⟨_, h.objects⟩, rfl, rfl⟩

theorem safeToFinalize_step_iff {w w' : World} {a : Action} (hw : Inv w) (hs : SafeToFinalize w)
    (h : Step w a w') : SafeToFinalize w' ↔ ClosesAlone w a := by
  cases h with
  | @newLuaState peer fresh =>
    have hgrows : Grows w { w with routing := Routing.newLuaState w.routing peer } :=
      ⟨⟨_, rfl⟩, rfl, rfl⟩
    exact iff_of_true (hgrows.safeToFinalize hw hs) trivial
  | coroutine => exact iff_of_true hs trivial
  | @newThread L p new u hL fresh =>
    have hp := hw.sound.nonzero u hL.2.1 p hL.2.2
    rw [newThread_eq hp]
    have hinv := inv_luaNewthread (p := p) hw fresh
    exact iff_of_true ((grows_toThread hp).safeToFinalize hinv hs) trivial
  | @toThread L p q u hL hq =>
    exact iff_of_true ((grows_toThread (hw.sound.nonzero u hL.2.1 q hq)).safeToFinalize hw hs)
      trivial
  | @newLuaObject L p u hL ref =>
    refine iff_of_true (fun o ho hfin q hq => ?_) trivial
    rcases List.mem_append.mp ho with ho | ho
    · exact hs o ho hfin q hq
    · -- the peer of an open handle of an open universe is alive
      obtain ⟨⟨s, hstate, hsp⟩, hu, hpu⟩ := hL
      rw [List.mem_singleton.mp ho] at hq
      have hpeer : s.getCPtrPeer = p := by rw [LuaState.getCPtrPeer, hsp]; rfl
      simp only [unrefOn, hstate, hpeer] at hq
      split at hq
      · obtain ⟨_, _, rfl⟩ := Option.map_eq_some_iff.mp hq
        exact hw.alive u hu p hpu
      · cases hq
  | close hL => exact safeToFinalize_close_iff hw hs hL
  | @finalize i o ho once =>
    refine iff_of_true (fun o' ho' hfin q hq => ?_) trivial
    rcases List.mem_or_eq_of_mem_set ho' with ho' | rfl
    · exact hs o' ho' hfin q hq
    · cases hfin

/-- In every run, finalizing any object at any time is safe exactly if no universe is closed while
another open handle of it has objects that are still to be finalized. -/
theorem safeToFinalize_iff_closesAlone {log : List (World × Action)} {w : World}
    (run : Run Step init log w) : Visits SafeToFinalize log w ↔ Meets ClosesAlone log :=
  run.visits_iff_meets inv_init (by simp [SafeToFinalize, init]) (fun _ _ _ => inv_step)
    (fun _ _ _ => safeToFinalize_step_iff)

instance (w : World) (p : Nat) : Decidable (Unused w p) := by
  unfold Unused Fresh InUse
  infer_instance

/-- Each universe has a handle of its own; closing one leaves the objects of the other alone. -/
theorem safeToFinalize_iff_closesAlone_two :
    ∃ log w, Run Step init log w ∧
      log.map Prod.snd = [.newLuaState 8, .newLuaState 16, .newLuaObject 0 (some 1),
        .newLuaObject 1 (some 1), .finalize 0, .close 0] ∧
      Visits SafeToFinalize log w := by
  have run₁ : Run Step init _ _ := .next .start (.newLuaState (show Unused _ 8 by decide))
  have run₂ := run₁.next (.newLuaState (show Unused _ 16 by decide))
  have run₃ := run₂.next (.newLuaObject (L := 0) (p := 8) (u := ⟨8, [], 0, 8⟩)
    ⟨⟨⟨some 8, 0⟩, by decide, rfl⟩, by decide, by decide⟩ (some 1))
  have run₄ := run₃.next (.newLuaObject (L := 1) (p := 16) (u := ⟨16, [], 1, 16⟩)
    ⟨⟨⟨some 16, 1⟩, by decide, rfl⟩, by decide, by decide⟩ (some 1))
  have run₅ := run₄.next (.finalize (i := 0) rfl rfl)
  have run₆ := run₅.next (.close (L := 0) (p := 8) (u := ⟨8, [], 0, 8⟩)
    ⟨⟨⟨some 8, 0⟩, by decide, rfl⟩, by decide, by decide⟩)
  refine ⟨_, _, run₆, rfl, (safeToFinalize_iff_closesAlone run₆).mpr ?_⟩
  simp only [meets_snoc, meets_nil, ClosesAlone, true_and]
  rintro p u ⟨⟨o, ho, hop⟩, hu, hpu⟩ o' ho' hfin hne q hq hmem
  obtain rfl : ⟨some 8, 0⟩ = o := Option.some.inj ho
  obtain rfl : 8 = p := Option.some.inj hop
  rcases List.mem_cons.mp hu with rfl | hu
  · obtain rfl : q = 8 := List.mem_singleton.mp hmem
    rcases List.mem_cons.mp ho' with rfl | ho'
    · cases hfin
    · obtain rfl := List.mem_singleton.mp ho'
      exact absurd hq (by decide)
  · obtain rfl := List.mem_singleton.mp hu
    exact absurd hpu (by decide)

/-- `newThread` gives a second handle of the same universe. It stays open when the first one is
closed, and a finalizer of one of its objects works on the destroyed `lua_State`. -/
theorem finalize_after_close_of_alias :
    ∃ log w, Run Step init log w ∧
      log.map Prod.snd = [.newLuaState 8, .newThread 0 16, .newLuaObject 1 (some 1), .close 0] ∧
      ∃ o ∈ w.objects, o.finalized = false ∧ unrefOn w o = some 8 ∧ 8 ∈ w.destroyed := by
  have run₁ : Run Step init _ _ := .next .start (.newLuaState (show Unused _ 8 by decide))
  have run₂ := run₁.next (.newThread (L := 0) (p := 8) (u := ⟨8, [], 0, 8⟩)
    ⟨⟨⟨some 8, 0⟩, by decide, rfl⟩, by decide, by decide⟩ (show Unused _ 16 by decide))
  have run₃ := run₂.next (.newLuaObject (L := 1) (p := 8) (u := ⟨8, [16], 0, 8⟩)
    ⟨⟨⟨some 8, 0⟩, by decide, rfl⟩, by decide, by decide⟩ (some 1))
  have run₄ := run₃.next (.close (L := 0) (p := 8) (u := ⟨8, [16], 0, 8⟩)
    ⟨⟨⟨some 8, 0⟩, by decide, rfl⟩, by decide, by decide⟩)
  exact ⟨_, _, run₄, rfl, ⟨1, some 1, false⟩, by decide, rfl, by decide, by decide⟩

end JLua.Handles
