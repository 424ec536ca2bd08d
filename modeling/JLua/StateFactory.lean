import JLua.Lib.Runs
import Mathlib.Data.List.Basic
import Mathlib.Tactic.ByContra

/-!
# LuaStateFactory: the list that maps state indices to LuaState objects

`LuaState` objects live in `objects` and are referred to by their position there, so that the
list `states` can hold the same object twice or keep one that was closed meanwhile. The methods
are `synchronized static`, hence one atomic step each. An `Option` result is an
`IndexOutOfBoundsException`.
-/

namespace JLua.StateFactory

open TransitionRuns
set_option autoImplicit false

/-- The fields of a `LuaState` that the factory and `close` use; `luaState` is the peer of the
`CPtr`, or `none` for `null`. -/
structure LuaState where
  luaState : Option Nat
  stateId : Nat
  deriving DecidableEq, Repr

def LuaState.getCPtrPeer (L : LuaState) : Nat := L.luaState.getD 0

structure Factory where
  objects : List LuaState
  states : List (Option Nat)
  deriving DecidableEq, Repr

def init : Factory := ⟨[], []⟩

def getNextStateIndex : List (Option Nat) → Nat
  | [] => 0
  | none :: _ => 0
  | some _ :: states => getNextStateIndex states + 1

/-- `new LuaState(i)` opens a fresh `lua_State`, and `states.add(i, L)` shifts whatever stands
at `i` and above. -/
def newLuaState (f : Factory) (peer : Nat) : Factory × Nat :=
  let i := getNextStateIndex f.states
  let L := f.objects.length
  (⟨f.objects ++ [⟨some peer, i⟩], f.states.insertIdx i (some L)⟩, L)

/-- The outer `none` is the exception, the inner one a cleared slot. -/
def getExistingState (f : Factory) (index : Nat) : Option (Option Nat) := f.states[index]?

/-- `ArrayList.set`. -/
def setState (states : List (Option Nat)) (i : Nat) (L : Option Nat) :
    Option (List (Option Nat)) :=
  if i < states.length then some (states.set i L) else none

def removeLuaState (states : List (Option Nat)) (idx : Nat) : Option (List (Option Nat)) :=
  setState states idx none

/-- An exception of `removeLuaState` leaves `close` before it has changed anything. -/
def close (f : Factory) (L : Nat) : Option Factory := do
  let o ← f.objects[L]?
  let states ← removeLuaState f.states o.stateId
  pure ⟨f.objects.set L { o with luaState := none }, states⟩

/-- The loop of `insertLuaState`: the first slot whose state has this peer. -/
def findPeer (objects : List LuaState) (peer : Nat) : List (Option Nat) → Option Nat
  | [] => none
  | none :: states => (findPeer objects peer states).map (· + 1)
  | some r :: states =>
    if (objects[r]?.map LuaState.getCPtrPeer) = some peer then some 0
    else (findPeer objects peer states).map (· + 1)

/-- `insertLuaState(L)` for the object at `L`: the list afterwards and the index returned. -/
def insertLuaState (f : Factory) (L peer : Nat) : Option (List (Option Nat) × Nat) :=
  match findPeer f.objects peer f.states with
  | some i => some (f.states, i)
  | none =>
    let i := getNextStateIndex f.states
    (setState f.states i (some L)).map fun states => (states, i)

theorem getNextStateIndex_le (states : List (Option Nat)) :
    getNextStateIndex states ≤ states.length := by
  induction states with
  | nil => exact Nat.le_refl 0
  | cons s states ih => cases s <;> simp [getNextStateIndex, ih]

theorem getElem?_getNextStateIndex (states : List (Option Nat)) :
    states[getNextStateIndex states]? = none ∨
      states[getNextStateIndex states]? = some none := by
  induction states with
  | nil => exact Or.inl rfl
  | cons s states ih => cases s <;> simp_all [getNextStateIndex]

theorem getElem?_lt_getNextStateIndex {states : List (Option Nat)} {i : Nat}
    (hi : i < getNextStateIndex states) : ∃ L, states[i]? = some (some L) := by
  induction states generalizing i with
  | nil => simp [getNextStateIndex] at hi
  | cons s states ih =>
    cases s with
    | none => simp [getNextStateIndex] at hi
    | some L =>
      cases i with
      | zero => exact ⟨L, rfl⟩
      | succ i => exact ih (Nat.lt_of_succ_lt_succ hi)

theorem findPeer_eq_some {objects : List LuaState} {peer i : Nat} {states : List (Option Nat)}
    (h : findPeer objects peer states = some i) :
    ∃ r o, states[i]? = some (some r) ∧ objects[r]? = some o ∧ o.getCPtrPeer = peer := by
  induction states generalizing i with
  | nil => simp [findPeer] at h
  | cons s states ih =>
    have tail : (findPeer objects peer states).map (· + 1) = some i →
        ∃ r o, (s :: states)[i]? = some (some r) ∧ objects[r]? = some o ∧
          o.getCPtrPeer = peer := by
      intro h
      obtain ⟨j, hj, rfl⟩ := Option.map_eq_some_iff.mp h
      simpa using ih hj
    cases s with
    | none => exact tail h
    | some r =>
      simp only [findPeer] at h
      split at h
      · rename_i hr
        obtain ⟨o, ho, hp⟩ := Option.map_eq_some_iff.mp hr
        obtain rfl := Option.some.inj h
        exact ⟨r, o, rfl, ho, hp⟩
      · exact tail h

theorem findPeer_eq_none {objects : List LuaState} {peer : Nat} {states : List (Option Nat)}
    (h : findPeer objects peer states = none) {i r : Nat} {o : LuaState}
    (hi : states[i]? = some (some r)) (ho : objects[r]? = some o) : o.getCPtrPeer ≠ peer := by
  induction states generalizing i with
  | nil => simp at hi
  | cons s states ih =>
    cases i with
    | zero =>
      obtain rfl : s = some r := by simpa using hi
      intro hp
      simp [findPeer, ho, hp] at h
    | succ i =>
      refine ih ?_ (by simpa using hi)
      cases s with
      | none => simpa [findPeer] using h
      | some k =>
        simp only [findPeer] at h
        split at h
        · simp at h
        · simpa using h

theorem insertLuaState_cases {f : Factory} {L peer i : Nat} {states : List (Option Nat)}
    (h : insertLuaState f L peer = some (states, i)) :
    (states = f.states ∧ ∃ r o, f.states[i]? = some (some r) ∧ f.objects[r]? = some o ∧
      o.getCPtrPeer = peer) ∨
    (states = f.states.set i (some L) ∧ f.states[i]? = some none) := by
  unfold insertLuaState at h
  cases hf : findPeer f.objects peer f.states with
  | some j =>
    simp only [hf, Option.some.injEq, Prod.mk.injEq] at h
    obtain ⟨rfl, rfl⟩ := h
    exact Or.inl ⟨rfl, findPeer_eq_some hf⟩
  | none =>
    simp only [hf, setState] at h
    split at h
    · rename_i hlt
      simp only [Option.map_some, Option.some.injEq, Prod.mk.injEq] at h
      obtain ⟨rfl, rfl⟩ := h
      refine Or.inr ⟨rfl, (getElem?_getNextStateIndex f.states).resolve_left ?_⟩
      rw [List.getElem?_eq_getElem hlt]
      exact Option.some_ne_none _
    · simp at h

def Holds (f : Factory) (i L : Nat) : Prop := f.states[i]? = some (some L)

/-- The object `L` has been created, is not closed, and was given the id `i`. -/
def OpenAt (f : Factory) (i L : Nat) : Prop :=
  ∃ o, f.objects[L]? = some o ∧ o.luaState ≠ none ∧ i = o.stateId

def Registered (f : Factory) : Prop := ∀ i L, Holds f i L ↔ OpenAt f i L

/-- What the factory keeps in every run: it refers to created objects only, and the list never
gets shorter than an id it has given. -/
structure WellFormed (f : Factory) : Prop where
  created : ∀ i L, Holds f i L → L < f.objects.length
  inBounds : ∀ o ∈ f.objects, o.stateId < f.states.length

theorem wellFormed_init : WellFormed init := ⟨by simp [Holds, init], by simp [init]⟩

theorem registered_init : Registered init := by
  intro i L
  simp [Holds, OpenAt, init]

def NoGap (f : Factory) : Prop :=
  ∀ i j L, i < j → f.states[i]? = some none → ¬ Holds f j L

theorem noGap_iff (f : Factory) :
    NoGap f ↔ ∀ j L, getNextStateIndex f.states < j → ¬ Holds f j L := by
  constructor
  · intro h j L hj hL
    rcases getElem?_getNextStateIndex f.states with hn | hn
    · have hlen := List.getElem?_eq_none_iff.mp hn
      have hlt := (List.getElem?_eq_some_iff.mp hL).1
      omega
    · exact h _ j L hj hn hL
  · intro h i j L hij hi hL
    rcases Nat.lt_or_ge i (getNextStateIndex f.states) with hlt | hge
    · obtain ⟨K, hK⟩ := getElem?_lt_getNextStateIndex hlt
      simp [hK] at hi
    · exact h j L (by omega) hL

theorem noGap_of_length_le {f : Factory} (h : f.states.length ≤ getNextStateIndex f.states + 1) :
    NoGap f := by
  rw [noGap_iff]
  intro j L hj hL
  have hlt := (List.getElem?_eq_some_iff.mp hL).1
  omega

theorem holds_newLuaState (f : Factory) (peer i L : Nat) :
    Holds (newLuaState f peer).1 i L ↔
      (i < getNextStateIndex f.states ∧ Holds f i L) ∨
      (i = getNextStateIndex f.states ∧ L = f.objects.length) ∨
      (getNextStateIndex f.states < i ∧ Holds f (i - 1) L) := by
  have hle := getNextStateIndex_le f.states
  unfold Holds newLuaState
  rcases Nat.lt_trichotomy i (getNextStateIndex f.states) with hlt | rfl | hgt
  · simp only [List.getElem?_insertIdx_of_lt hlt]
    simp [hlt, Nat.ne_of_lt hlt, Nat.lt_asymm hlt]
  · simp only [List.getElem?_insertIdx_self, hle, if_true]
    simp [eq_comm]
  · simp only [List.getElem?_insertIdx_of_gt hgt]
    simp [hgt, Nat.ne_of_gt hgt, Nat.lt_asymm hgt]

theorem openAt_newLuaState (f : Factory) (peer i L : Nat) :
    OpenAt (newLuaState f peer).1 i L ↔
      OpenAt f i L ∨ (i = getNextStateIndex f.states ∧ L = f.objects.length) := by
  unfold OpenAt newLuaState
  simp only [List.getElem?_append]
  split
  · have hne : L ≠ f.objects.length := by omega
    simp [hne]
  · rename_i hL
    have hnone : f.objects[L]? = none := List.getElem?_eq_none_iff.mpr (by omega)
    simp only [hnone, List.getElem?_singleton]
    by_cases he : L = f.objects.length
    · simp [he]
    · simp [show L - f.objects.length ≠ 0 by omega, he]

/-- `add` at the first free index is harmless exactly if it shifts no state. -/
theorem registered_newLuaState_iff {f : Factory} (hw : WellFormed f) (hr : Registered f)
    (peer : Nat) : Registered (newLuaState f peer).1 ↔ NoGap f := by
  rw [noGap_iff]
  constructor
  · intro h j L hj hL
    -- the state at `j` now stands at `j + 1`, but its id is still `j`
    have hshift := (h (j + 1) L).mp
      ((holds_newLuaState f peer (j + 1) L).mpr (Or.inr (Or.inr ⟨by omega, by simpa using hL⟩)))
    have hlt := hw.created j L hL
    rcases (openAt_newLuaState f peer (j + 1) L).mp hshift with ho | ⟨hi, _⟩
    · obtain ⟨o, hobj, _, hid⟩ := ho
      obtain ⟨o', hobj', _, hid'⟩ := (hr j L).mp hL
      have he : o = o' := Option.some.inj (hobj.symm.trans hobj')
      subst o'
      omega
    · omega
  · intro h i L
    rw [holds_newLuaState, openAt_newLuaState, ← hr i L]
    constructor
    · rintro (⟨_, hL⟩ | hnew | ⟨hi, hL⟩)
      · exact Or.inl hL
      · exact Or.inr hnew
      · rcases Nat.lt_or_ge (getNextStateIndex f.states) (i - 1) with hlt | hge
        · exact absurd hL (h _ _ hlt)
        · have he : i - 1 = getNextStateIndex f.states := by omega
          have hfree := getElem?_getNextStateIndex f.states
          rw [Holds, he] at hL
          simp [hL] at hfree
    · rintro (hL | hnew)
      · refine Or.inl ⟨?_, hL⟩
        by_contra hge
        rcases Nat.lt_or_ge (getNextStateIndex f.states) i with hlt | hle
        · exact h i L hlt hL
        · have he : i = getNextStateIndex f.states := by omega
          have hfree := getElem?_getNextStateIndex f.states
          rw [Holds, he] at hL
          simp [hL] at hfree
      · exact Or.inr (Or.inl hnew)

theorem wellFormed_newLuaState {f : Factory} (hw : WellFormed f) (peer : Nat) :
    WellFormed (newLuaState f peer).1 := by
  have hle := getNextStateIndex_le f.states
  have hobj : (newLuaState f peer).1.objects.length = f.objects.length + 1 := by
    simp [newLuaState]
  have hlen : (newLuaState f peer).1.states.length = f.states.length + 1 := by
    simp [newLuaState, List.length_insertIdx, hle]
  constructor
  · intro i L h
    rw [hobj]
    rcases (holds_newLuaState f peer i L).mp h with ⟨_, hL⟩ | ⟨_, rfl⟩ | ⟨_, hL⟩
    · exact Nat.lt_succ_of_lt (hw.created _ _ hL)
    · exact Nat.lt_succ_self _
    · exact Nat.lt_succ_of_lt (hw.created _ _ hL)
  · intro o ho
    rw [hlen]
    rcases List.mem_append.mp ho with ho | ho
    · exact Nat.lt_succ_of_lt (hw.inBounds o ho)
    · rw [List.mem_singleton.mp ho]
      exact Nat.lt_succ_of_le hle

/-- The id of a created state is inside the list, so `close` throws for none of them. -/
theorem close_eq {f : Factory} (hw : WellFormed f) {L : Nat} {o : LuaState}
    (ho : f.objects[L]? = some o) :
    close f L = some ⟨f.objects.set L { o with luaState := none },
      f.states.set o.stateId none⟩ := by
  have hin := hw.inBounds o (List.mem_of_getElem? ho)
  simp [close, ho, removeLuaState, setState, hin]

theorem registered_close {f f' : Factory} (hw : WellFormed f) (hr : Registered f) {L : Nat}
    {o : LuaState} (ho : f.objects[L]? = some o) (hopen : o.luaState ≠ none)
    (hf' : close f L = some f') : Registered f' := by
  rw [close_eq hw ho] at hf'
  obtain rfl := Option.some.inj hf'
  have hlt := (List.getElem?_eq_some_iff.mp ho).1
  have hslot : Holds f o.stateId L := (hr _ _).mpr ⟨o, ho, hopen, rfl⟩
  intro i K
  by_cases hK : K = L
  · subst K
    -- the closed state stood at its own id only, and that slot is cleared
    constructor
    · intro h
      simp only [Holds, List.getElem?_set] at h
      split at h
      · simp_all
      · obtain ⟨o', ho', _, hid⟩ := (hr i L).mp h
        have he : o = o' := Option.some.inj (ho.symm.trans ho')
        subst o'
        exact absurd hid.symm (by assumption)
    · rintro ⟨o', ho', hopen', _⟩
      simp only [List.getElem?_set_self hlt, Option.some.injEq] at ho'
      subst o'
      exact absurd rfl hopen'
  · have hopen_iff : OpenAt ⟨f.objects.set L { o with luaState := none },
        f.states.set o.stateId none⟩ i K ↔ OpenAt f i K := by
      simp [OpenAt, List.getElem?_set_ne (Ne.symm hK)]
    rw [hopen_iff, ← hr i K]
    by_cases hi : o.stateId = i
    · subst i
      constructor
      · intro h
        simp only [Holds, List.getElem?_set] at h
        simp_all
      · intro h
        rw [Holds, hslot] at h
        exact absurd (Option.some.inj (Option.some.inj h)).symm hK
    · simp [Holds, List.getElem?_set_ne hi]

theorem wellFormed_close {f f' : Factory} (hw : WellFormed f) {L : Nat} {o : LuaState}
    (ho : f.objects[L]? = some o) (hf' : close f L = some f') : WellFormed f' := by
  rw [close_eq hw ho] at hf'
  obtain rfl := Option.some.inj hf'
  constructor
  · intro i K h
    simp only [Holds, List.getElem?_set] at h
    rw [List.length_set]
    split at h
    · split at h <;> simp at h
    · exact hw.created i K h
  · intro p hp
    rw [List.length_set]
    rcases List.mem_or_eq_of_mem_set hp with hp | rfl
    · exact hw.inBounds p hp
    · exact hw.inBounds o (List.mem_of_getElem? ho)

inductive Action where
  | newLuaState (peer : Nat)
  | close (L : Nat)

/-- `_open` returns a fresh non-null pointer, and only a state that is still open is closed. -/
inductive Step : Factory → Action → Factory → Prop where
  | newLuaState {f : Factory} {peer : Nat} (hpeer : peer ≠ 0)
      (hfresh : ∀ o ∈ f.objects, o.luaState ≠ some peer) :
      Step f (.newLuaState peer) (newLuaState f peer).1
  | close {f f' : Factory} {L : Nat} {o : LuaState} (ho : f.objects[L]? = some o)
      (hopen : o.luaState ≠ none) (hf' : close f L = some f') : Step f (.close L) f'

/-- The condition on one call under which it keeps the slots and the ids together. -/
def InPlace (f : Factory) : Action → Prop
  | .newLuaState _ => NoGap f
  | .close _ => True

theorem wellFormed_step {f f' : Factory} {a : Action} (hw : WellFormed f)
    (h : Step f a f') : WellFormed f' := by
  cases h with
  | newLuaState => exact wellFormed_newLuaState hw _
  | close ho _ hf' => exact wellFormed_close hw ho hf'

theorem registered_step_iff {f f' : Factory} {a : Action} (hw : WellFormed f)
    (hr : Registered f) (h : Step f a f') : Registered f' ↔ InPlace f a := by
  cases h with
  | newLuaState => exact registered_newLuaState_iff hw hr _
  | close ho hopen hf' => simp [InPlace, registered_close hw hr ho hopen hf']

/-- In every run, slots and ids agree throughout exactly if no state is created while another
one stands above a cleared slot. -/
theorem registered_iff_inPlace {log : List (Factory × Action)} {f : Factory}
    (run : Run Step init log f) : Visits Registered log f ↔ Meets InPlace log :=
  run.visits_iff_meets wellFormed_init registered_init
    (fun _ _ _ => wellFormed_step) (fun _ _ _ => registered_step_iff)

/-- Two states are created and the second is closed; the third one takes its slot. -/
theorem registered_iff_inPlace_reused :
    Visits Registered
      [(init, Action.newLuaState 8),
       (⟨[⟨some 8, 0⟩], [some 0]⟩, .newLuaState 16),
       (⟨[⟨some 8, 0⟩, ⟨some 16, 1⟩], [some 0, some 1]⟩, .close 1),
       (⟨[⟨some 8, 0⟩, ⟨none, 1⟩], [some 0, none]⟩, .newLuaState 24)]
      ⟨[⟨some 8, 0⟩, ⟨none, 1⟩, ⟨some 24, 1⟩], [some 0, some 2, none]⟩ := by
  refine Iff.mpr (registered_iff_inPlace (.next (.next (.next (.next .start
    (.newLuaState (by decide) (by decide))) (.newLuaState (by decide) (by decide)))
    (.close (o := ⟨some 16, 1⟩) rfl (by decide) rfl))
    (.newLuaState (by decide) (by decide)))) ?_
  have first : NoGap init := noGap_of_length_le (by decide)
  have second : NoGap ⟨[⟨some 8, 0⟩], [some 0]⟩ := noGap_of_length_le (by decide)
  have third : NoGap ⟨[⟨some 8, 0⟩, ⟨none, 1⟩], [some 0, none]⟩ :=
    noGap_of_length_le (by decide)
  simp [Meets, InPlace, first, second, third]

/-- Two states are created and the first is closed; the third one takes its slot and moves the
second, whose id is 1, to slot 2. A callback of the second state then finds `null`. -/
theorem newLuaState_moves_open_state :
    Run Step init
      [(init, .newLuaState 8),
       (⟨[⟨some 8, 0⟩], [some 0]⟩, .newLuaState 16),
       (⟨[⟨some 8, 0⟩, ⟨some 16, 1⟩], [some 0, some 1]⟩, .close 0),
       (⟨[⟨none, 0⟩, ⟨some 16, 1⟩], [none, some 1]⟩, .newLuaState 24)]
      ⟨[⟨none, 0⟩, ⟨some 16, 1⟩, ⟨some 24, 0⟩], [some 2, none, some 1]⟩ ∧
    ¬ Registered ⟨[⟨none, 0⟩, ⟨some 16, 1⟩, ⟨some 24, 0⟩], [some 2, none, some 1]⟩ := by
  constructor
  · exact .next (.next (.next (.next .start (.newLuaState (by decide) (by decide)))
      (.newLuaState (by decide) (by decide))) (.close (o := ⟨some 8, 0⟩) rfl (by decide) rfl))
      (.newLuaState (by decide) (by decide))
  · intro h
    obtain ⟨o, ho, _, hid⟩ := (h 2 1).mp rfl
    obtain rfl : (⟨some 16, 1⟩ : LuaState) = o := Option.some.inj ho
    exact absurd hid (by decide)

/-- In a consistent list every open state is found under its id, and no closed one is found. -/
theorem getExistingState_of_registered {f : Factory} (hr : Registered f) {L : Nat}
    {o : LuaState} (ho : f.objects[L]? = some o) :
    (o.luaState ≠ none → getExistingState f o.stateId = some (some L)) ∧
    (o.luaState = none → ∀ i, getExistingState f i ≠ some (some L)) := by
  refine ⟨fun hopen => (hr _ _).mpr ⟨o, ho, hopen, rfl⟩, fun hclosed i h => ?_⟩
  obtain ⟨o', ho', hopen, _⟩ := (hr i L).mp h
  have he : o = o' := Option.some.inj (ho.symm.trans ho')
  subst o'
  exact hopen hclosed

/-! ### Closing a state twice -/

/-- The calls that Java lets through: a closed state can be closed again. That call clears the
slot of its id once more before the native half is given `null`. -/
inductive CallStep : Factory → Action → Factory → Prop where
  | newLuaState {f : Factory} {peer : Nat} (hpeer : peer ≠ 0)
      (hfresh : ∀ o ∈ f.objects, o.luaState ≠ some peer) :
      CallStep f (.newLuaState peer) (newLuaState f peer).1
  | close {f f' : Factory} {L : Nat} (hf' : close f L = some f') : CallStep f (.close L) f'

theorem close_created {f f' : Factory} {L : Nat} (h : close f L = some f') :
    ∃ o, f.objects[L]? = some o := by
  cases ho : f.objects[L]? with
  | none => simp [close, ho] at h
  | some o => exact ⟨o, rfl⟩

theorem wellFormed_callStep {f f' : Factory} {a : Action} (hw : WellFormed f)
    (h : CallStep f a f') : WellFormed f' := by
  cases h with
  | newLuaState => exact wellFormed_newLuaState hw _
  | close hf' =>
    obtain ⟨o, ho⟩ := close_created hf'
    exact wellFormed_close hw ho hf'

def Closed (f : Factory) (L : Nat) : Prop :=
  ∃ o, f.objects[L]? = some o ∧ o.luaState = none

theorem closed_close {f f' : Factory} (hw : WellFormed f) {L : Nat}
    (h : close f L = some f') : Closed f' L := by
  obtain ⟨o, ho⟩ := close_created h
  have hlt := (List.getElem?_eq_some_iff.mp ho).1
  rw [close_eq hw ho] at h
  obtain rfl := Option.some.inj h
  exact ⟨_, List.getElem?_set_self hlt, rfl⟩

/-- No call opens a state again. -/
theorem closed_callStep {f f' : Factory} {a : Action} (hw : WellFormed f) (h : CallStep f a f')
    {L : Nat} (hL : Closed f L) : Closed f' L := by
  obtain ⟨o, ho, hclosed⟩ := hL
  cases h with
  | newLuaState =>
    have hlt := (List.getElem?_eq_some_iff.mp ho).1
    refine ⟨o, ?_, hclosed⟩
    simp only [newLuaState, List.getElem?_append_left hlt, ho]
  | @close _ K hf' =>
    by_cases hK : K = L
    · subst K
      exact closed_close hw hf'
    · obtain ⟨p, hp⟩ := close_created hf'
      rw [close_eq hw hp] at hf'
      obtain rfl := Option.some.inj hf'
      exact ⟨o, by simp only [List.getElem?_set_ne hK, ho], hclosed⟩

theorem closed_of_run {log : List (Factory × Action)} {f : Factory}
    (run : Run CallStep init log f) {L : Nat} (h : .close L ∈ log.map Prod.snd) : Closed f L := by
  induction run with
  | start => simp at h
  | @next log f f' a run hstep ih =>
    have hw := run.invariant wellFormed_init fun _ _ _ => wellFormed_callStep
    simp only [List.map_append, List.map_cons, List.map_nil, List.mem_append,
      List.mem_singleton] at h
    rcases h with hlog | hlast
    · exact closed_callStep hw hstep (ih hlog)
    · subst hlast
      cases hstep with
      | close hf' => exact closed_close hw hf'

/-- Every open state other than `A` is found under its id as before. -/
def Undisturbed (f f' : Factory) (A : Nat) : Prop :=
  ∀ B i, B ≠ A → OpenAt f i B → getExistingState f' i = getExistingState f i

/-- Clearing the slot of a closed state disturbs an open one exactly if the id of the closed state
has been given away again and the slot is not empty. -/
theorem undisturbed_close_iff {f : Factory} (hw : WellFormed f) {A : Nat} {o : LuaState}
    (ho : f.objects[A]? = some o) (hclosed : o.luaState = none) :
    ∃ f', close f A = some f' ∧ (Undisturbed f f' A ↔
      getExistingState f o.stateId = some none ∨ ∀ B, ¬ OpenAt f o.stateId B) := by
  have hlt := hw.inBounds o (List.mem_of_getElem? ho)
  refine ⟨_, close_eq hw ho, ?_⟩
  have hself : (f.states.set o.stateId none)[o.stateId]? = some none :=
    List.getElem?_set_self hlt
  constructor
  · intro h
    by_contra hnot
    obtain ⟨hslot, hB⟩ := not_or.mp hnot
    obtain ⟨B, hopen⟩ := not_forall_not.mp hB
    have hne : B ≠ A := by
      rintro rfl
      obtain ⟨o', ho', hopen', _⟩ := hopen
      rw [ho, Option.some.injEq] at ho'
      subst o'
      exact hopen' hclosed
    apply hslot
    rw [← h B _ hne hopen]
    exact hself
  · intro h B i _ hopen
    by_cases hi : o.stateId = i
    · subst i
      have hslot := h.resolve_right fun hnone => hnone B hopen
      exact hself.trans hslot.symm
    · exact List.getElem?_set_ne hi

/-- In every run that has closed `A` before, one more `A.close()` leaves the other open states
registered as they are exactly if the slot of `A` is empty or no open state has the id of `A`. -/
theorem closeAgain_iff {log : List (Factory × Action)} {f : Factory}
    (run : Run CallStep init log f) {A : Nat} (hA : .close A ∈ log.map Prod.snd) :
    ∃ o f', f.objects[A]? = some o ∧ close f A = some f' ∧ (Undisturbed f f' A ↔
      getExistingState f o.stateId = some none ∨ ∀ B, ¬ OpenAt f o.stateId B) := by
  have hw := run.invariant wellFormed_init fun _ _ _ => wellFormed_callStep
  obtain ⟨o, ho, hclosed⟩ := closed_of_run run hA
  obtain ⟨f', hf', hiff⟩ := undisturbed_close_iff hw ho hclosed
  exact ⟨o, f', ho, hf', hiff⟩

/-- With no call in between the second `close` finds the slot empty. -/
theorem closeAgain_iff_empty :
    ∃ o f', (⟨[⟨none, 0⟩, ⟨some 16, 1⟩], [none, some 1]⟩ : Factory).objects[0]? = some o ∧
      close ⟨[⟨none, 0⟩, ⟨some 16, 1⟩], [none, some 1]⟩ 0 = some f' ∧
      (Undisturbed ⟨[⟨none, 0⟩, ⟨some 16, 1⟩], [none, some 1]⟩ f' 0 ↔
        getExistingState ⟨[⟨none, 0⟩, ⟨some 16, 1⟩], [none, some 1]⟩ o.stateId = some none ∨
          ∀ B, ¬ OpenAt ⟨[⟨none, 0⟩, ⟨some 16, 1⟩], [none, some 1]⟩ o.stateId B) :=
  have run : Run CallStep init
      [(init, .newLuaState 8), (⟨[⟨some 8, 0⟩], [some 0]⟩, .newLuaState 16),
        (⟨[⟨some 8, 0⟩, ⟨some 16, 1⟩], [some 0, some 1]⟩, .close 0)]
      ⟨[⟨none, 0⟩, ⟨some 16, 1⟩], [none, some 1]⟩ :=
    .next (.next (.next .start (.newLuaState (by decide) (by decide)))
      (.newLuaState (by decide) (by decide))) (.close rfl)
  closeAgain_iff run (by simp)

/-- A state is closed, the next one is given its id and its slot, and the first one is closed
again: the second state is open, but `getExistingState` finds `null` under its id. -/
theorem closeAgain_clears_open_state :
    Run CallStep init
      [(init, .newLuaState 8), (⟨[⟨some 8, 0⟩], [some 0]⟩, .close 0),
       (⟨[⟨none, 0⟩], [none]⟩, .newLuaState 16)]
      ⟨[⟨none, 0⟩, ⟨some 16, 0⟩], [some 1, none]⟩ ∧
    close ⟨[⟨none, 0⟩, ⟨some 16, 0⟩], [some 1, none]⟩ 0 =
      some ⟨[⟨none, 0⟩, ⟨some 16, 0⟩], [none, none]⟩ ∧
    ¬ Undisturbed ⟨[⟨none, 0⟩, ⟨some 16, 0⟩], [some 1, none]⟩
      ⟨[⟨none, 0⟩, ⟨some 16, 0⟩], [none, none]⟩ 0 := by
  refine ⟨.next (.next (.next .start (.newLuaState (by decide) (by decide))) (.close rfl))
    (.newLuaState (by decide) (by decide)), rfl, ?_⟩
  intro h
  have hslot := h 1 0 (by decide) ⟨⟨some 16, 0⟩, rfl, by decide, rfl⟩
  exact absurd hslot (by decide)

/-! ### insertLuaState as find or insert -/

def HasPeer (f : Factory) (peer i : Nat) : Prop :=
  ∃ r o, f.states[i]? = some (some r) ∧ f.objects[r]? = some o ∧ o.getCPtrPeer = peer

/-- An empty slot, or one past the end. -/
def Free (f : Factory) (i : Nat) : Prop := f.states[i]? = none ∨ f.states[i]? = some none

/-- What a call that returns `i` is to leave: the first slot that has the peer, or else a free slot
that the object is put into. A second call finds it there. -/
structure FoundOrInserted (f : Factory) (L peer : Nat) (states : List (Option Nat)) (i : Nat) :
    Prop where
  holds : HasPeer { f with states } peer i
  found : ∀ k, HasPeer f peer k → states = f.states ∧ ∀ j < i, ¬ HasPeer f peer j
  inserted : (∀ k, ¬ HasPeer f peer k) →
    states[i]? = some (some L) ∧ Free f i ∧ ∀ k, k ≠ i → states[k]? = f.states[k]?
  again : insertLuaState { f with states } L peer = some (states, i)

def FindsOrInserts (f : Factory) (L peer : Nat) : Prop :=
  ∃ states i, insertLuaState f L peer = some (states, i) ∧ FoundOrInserted f L peer states i

theorem findPeer_first {objects : List LuaState} {peer i j : Nat} {states : List (Option Nat)}
    (h : findPeer objects peer states = some i) (hj : j < i) :
    ¬ HasPeer ⟨objects, states⟩ peer j := by
  rintro ⟨r, o, hr, ho, hp⟩
  induction states generalizing i j with
  | nil => simp [findPeer] at h
  | cons s states ih =>
    have tail : (findPeer objects peer states).map (· + 1) = some i →
        ∃ k, findPeer objects peer states = some k ∧ i = k + 1 := by
      intro h
      obtain ⟨k, hk, rfl⟩ := Option.map_eq_some_iff.mp h
      exact ⟨k, hk, rfl⟩
    cases j with
    | zero =>
      obtain rfl : s = some r := by simpa using hr
      simp only [findPeer, ho, hp, Option.map_some, if_true, Option.some.injEq] at h
      omega
    | succ j =>
      have hrest : findPeer objects peer states = some (i - 1) := by
        cases s with
        | none =>
          obtain ⟨k, hk, rfl⟩ := tail h
          exact hk
        | some L =>
          simp only [findPeer] at h
          split at h
          · simp only [Option.some.injEq] at h
            omega
          · obtain ⟨k, hk, rfl⟩ := tail h
            exact hk
      have hlt : j < i - 1 := by omega
      exact ih hrest hlt hr ho

theorem findPeer_eq_none_iff {f : Factory} {peer : Nat} :
    findPeer f.objects peer f.states = none ↔ ∀ k, ¬ HasPeer f peer k := by
  constructor
  · rintro h k ⟨r, o, hr, ho, hp⟩
    exact findPeer_eq_none h hr ho hp
  · intro h
    cases hf : findPeer f.objects peer f.states with
    | none => rfl
    | some i => exact absurd (findPeer_eq_some hf) (h i)

theorem getNextStateIndex_lt_iff (states : List (Option Nat)) :
    getNextStateIndex states < states.length ↔ ∃ i : Nat, states[i]? = some none := by
  constructor
  · intro h
    refine ⟨_, (getElem?_getNextStateIndex states).resolve_left ?_⟩
    rw [List.getElem?_eq_getElem h]
    exact Option.some_ne_none _
  · rintro ⟨i, hi⟩
    by_contra hge
    obtain ⟨hlt, _⟩ := List.getElem?_eq_some_iff.mp hi
    have hless : i < getNextStateIndex states := by omega
    obtain ⟨L, hL⟩ := getElem?_lt_getNextStateIndex hless
    simp [hi] at hL

theorem foundOrInserted_of_found {f : Factory} {L peer i : Nat}
    (h : findPeer f.objects peer f.states = some i) : FoundOrInserted f L peer f.states i where
  holds := findPeer_eq_some h
  found _ _ := ⟨rfl, fun _ hj => findPeer_first h hj⟩
  inserted hnone := absurd (findPeer_eq_some h) (hnone i)
  again := by simp [insertLuaState, h]

theorem foundOrInserted_of_inserted {f : Factory} {L i : Nat} {o : LuaState}
    (ho : f.objects[L]? = some o) (hnone : ∀ k, ¬ HasPeer f o.getCPtrPeer k)
    (hi : f.states[i]? = some none) :
    FoundOrInserted f L o.getCPtrPeer (f.states.set i (some L)) i := by
  obtain ⟨hlt, _⟩ := List.getElem?_eq_some_iff.mp hi
  have hself : (f.states.set i (some L))[i]? = some (some L) := List.getElem?_set_self hlt
  have hother : ∀ k, k ≠ i → (f.states.set i (some L))[k]? = f.states[k]? := fun k hk =>
    List.getElem?_set_ne (Ne.symm hk)
  have hholds : HasPeer { f with states := f.states.set i (some L) } o.getCPtrPeer i :=
    ⟨L, o, hself, ho, rfl⟩
  refine ⟨hholds, fun k hk => absurd hk (hnone k), fun _ => ⟨hself, Or.inr hi, hother⟩, ?_⟩
  cases hf : findPeer f.objects o.getCPtrPeer (f.states.set i (some L)) with
  | none => exact absurd hholds (findPeer_eq_none_iff.mp hf i)
  | some j =>
    -- no other slot has the peer, since none had it before
    have hji : j = i := by
      by_contra hne
      obtain ⟨r, p, hr, hp⟩ := findPeer_eq_some hf
      exact hnone j ⟨r, p, (hother j hne).symm.trans hr, hp⟩
    simp [insertLuaState, hf, hji]

/-- `insertLuaState` does what it is for exactly if a slot has the peer already or a slot below
the size of the list is empty: `set` does not append. -/
theorem findsOrInserts_iff {f : Factory} {L : Nat} {o : LuaState} (ho : f.objects[L]? = some o) :
    FindsOrInserts f L o.getCPtrPeer ↔
      (∃ i, HasPeer f o.getCPtrPeer i) ∨ ∃ i : Nat, f.states[i]? = some none := by
  cases hf : findPeer f.objects o.getCPtrPeer f.states with
  | some i =>
    refine iff_of_true ⟨f.states, i, ?_, foundOrInserted_of_found hf⟩
      (Or.inl ⟨i, findPeer_eq_some hf⟩)
    simp [insertLuaState, hf]
  | none =>
    have hnone := findPeer_eq_none_iff.mp hf
    rw [or_iff_right (not_exists.mpr hnone), ← getNextStateIndex_lt_iff]
    constructor
    · rintro ⟨states, i, h, _⟩
      rw [insertLuaState, hf] at h
      obtain ⟨_, hset, _⟩ := Option.map_eq_some_iff.mp h
      by_contra hge
      rw [setState, if_neg hge] at hset
      cases hset
    · intro hlt
      have hfree := (getElem?_getNextStateIndex f.states).resolve_left (by
        rw [List.getElem?_eq_getElem hlt]
        exact Option.some_ne_none _)
      refine ⟨_, _, ?_, foundOrInserted_of_inserted ho hnone hfree⟩
      simp [insertLuaState, hf, setState, hlt]

/-- The first of two states has been closed, and a handle of another peer takes its slot. -/
theorem findsOrInserts_iff_closed :
    FindsOrInserts ⟨[⟨none, 0⟩, ⟨some 16, 1⟩, ⟨some 24, 0⟩], [none, some 1]⟩ 2 24 :=
  (findsOrInserts_iff (o := ⟨some 24, 0⟩) rfl).mpr (Or.inr ⟨0, rfl⟩)

/-- With one open state no slot is free, and `states.set(1, L)` is out of bounds. -/
theorem insertLuaState_full :
    Run Step init [(init, .newLuaState 8)] ⟨[⟨some 8, 0⟩], [some 0]⟩ ∧
      insertLuaState ⟨[⟨some 8, 0⟩, ⟨some 16, 0⟩], [some 0]⟩ 1 16 = none ∧
      ¬ FindsOrInserts ⟨[⟨some 8, 0⟩, ⟨some 16, 0⟩], [some 0]⟩ 1 16 := by
  refine ⟨.next .start (.newLuaState (by decide) (by decide)), rfl, ?_⟩
  rintro ⟨states, i, h, _⟩
  cases h

end JLua.StateFactory
