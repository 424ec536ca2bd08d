import JLua.Lib.ObjectGraph
import JLua.UserdataActions
import Mathlib.Data.List.Nodup

/-!
# Userdata validity

`isJavaObject` trusts a field of the metatable, which scripts can fetch and change, and `gc`
deletes the reference each time that it is called. A state is valid when what passes for a Java
object on the stack holds a live reference of its own.

The invariant is a set of values that the script stays within: it is closed, and no userdata whose
reference is deleted, or whose finalizer is due, is in it.
-/

namespace JLua.UserdataValidity

open UserdataHeap ObjectGraph TransitionRuns
set_option autoImplicit false

variable {s s' : State} {X Y : Set Value}

def holdsReference (s : State) (v : Value) : Bool :=
  ((s.touserdata v).bind fun r => s.globalRefs[r]?).any fun g =>
    decide (Value.userdata g.holder = v) && !g.deleted

def Valid (s : State) : Prop := ∀ v ∈ s.stack, s.isJavaObject v = true → holdsReference s v = true

instance (s : State) : Decidable (Valid s) := inferInstanceAs (Decidable (∀ v ∈ s.stack, _ → _))

/-! ### What the script stays within -/

/-- Values that refer to nothing in the heap, or to what is not allocated yet. -/
def Unallocated (s : State) : Value → Prop
  | .table a => s.tables.length ≤ a
  | .userdata a => s.udata.length ≤ a
  | .function a => s.closures.length ≤ a
  | _ => True

structure Confined (s : State) (X : Set Value) : Prop where
  closed : Closed s.refs s.roots X
  unallocated : ∀ v, Unallocated s v → v ∈ X

def IsFinalized (s : State) (a : Nat) : Prop := ∃ u, s.udata[a]? = some u ∧ u.finalized = true

def IsDeleted (s : State) (r : Nat) : Prop := ∃ g, s.globalRefs[r]? = some g ∧ g.deleted = true

/-- The reference is deleted, or it will be when the finalizer has run. -/
def Doomed (s : State) (a : Nat) : Prop :=
  ∃ r, s.touserdata (.userdata a) = some r ∧ (a ∈ s.tmudata ∨ IsDeleted s r)

/-- References have one holder, the metatables of proxies are valid and without the mark, and
only the finalizer of a queued userdata deletes its reference. -/
structure Books (s : State) : Prop where
  owned : ∀ a r, s.touserdata (.userdata a) = some r →
    ∃ g, s.globalRefs[r]? = some g ∧ g.holder = a
  proxies : ∀ (a : Nat) (u : Udata) (m : Nat), s.udata[a]? = some u → u.block = .empty →
    u.metatable = some m → m ∈ s.validMetatables
  unmarked : ∀ m ∈ s.validMetatables,
    m < s.tables.length ∧ (s.tableAt m).Lacks State.JLUAOBJECTIND
  queuedOnce : s.tmudata.Nodup
  queued : ∀ a ∈ s.tmudata, IsFinalized s a
  spent : ∀ a r, s.touserdata (.userdata a) = some r → IsDeleted s r →
    IsFinalized s a ∧ a ∉ s.tmudata

structure Inv (s : State) (X : Set Value) : Prop where
  confined : Confined s X
  books : Books s
  apart : ∀ a, Doomed s a → Value.userdata a ∉ X

theorem jobject_eq_some {b : Block} {r : Nat} : b.jobject = some r ↔ b = .reference r := by
  cases b <;> simp [Block.jobject]

theorem touserdata_eq_some {a r : Nat} : s.touserdata (.userdata a) = some r ↔
    ∃ u : Udata, s.udata[a]? = some u ∧ u.block = .reference r := by
  simp [State.touserdata, Option.bind_eq_some_iff, jobject_eq_some]

theorem getMetatable_userdata {a m : Nat} : s.getMetatable (.userdata a) = some m ↔
    ∃ u, s.udata[a]? = some u ∧ u.metatable = some m := by
  simp [State.getMetatable, Option.bind_eq_some_iff]

/-- What passes for a Java object in a state with tidy books is a userdata that a push function
made. -/
theorem Books.touserdata_of_isJavaObject (h : Books s) {v : Value} (hv : s.isJavaObject v = true) :
    ∃ a r, v = .userdata a ∧ s.touserdata v = some r := by
  unfold State.isJavaObject at hv
  split at hv
  · rename_i a
    split at hv
    · rename_i m hm
      obtain ⟨u, hu, hum⟩ := getMetatable_userdata.mp hm
      cases hb : u.block with
      | reference r => exact ⟨a, r, rfl, touserdata_eq_some.mpr ⟨u, hu, hb⟩⟩
      | empty =>
        have hnil := (h.unmarked m (h.proxies a u m hu hb hum)).2.get
        simp [State.rawget, hnil] at hv
    · cases hv
  · simp [State.getMetatable] at hv
  · cases hv

theorem Inv.valid (h : Inv s X) : Valid s := by
  intro v hv hjava
  obtain ⟨a, r, rfl, hr⟩ := h.books.touserdata_of_isJavaObject hjava
  obtain ⟨g, hg, rfl⟩ := h.books.owned a r hr
  have hX : Value.userdata g.holder ∈ X :=
    h.confined.closed.roots _ (by simp [State.roots, hv])
  have hlive : g.deleted = false := by
    by_contra hdeleted
    exact h.apart _ ⟨r, hr, .inr ⟨g, hg, by simpa using hdeleted⟩⟩ hX
  simp [holdsReference, hr, hg, hlive]

/-! ### The building blocks keep the invariant -/

theorem Confined.extend (h : Confined s X) (hroots : ∀ v ∈ s'.roots, v ∈ X)
    (hold : ∀ v, Unallocated s' v → Unallocated s v)
    (hrefs : ∀ v ∈ X, ∀ w ∈ s'.refs v, w ∈ s.refs v ∨ w ∈ X) : Confined s' X := by
  constructor
  · constructor
    · exact hroots
    · intro v hv w hw
      rcases hrefs v hv w hw with hw | hw
      · exact h.closed.refs v hv w hw
      · exact hw
  · intro v hv
    exact h.unallocated v (hold v hv)

theorem Inv.globals_mem (h : Inv s X) : s.globals ∈ X :=
  h.confined.closed.roots _ (by simp [State.roots])

theorem Inv.stack_mem (h : Inv s X) {v : Value} (hv : v ∈ s.stack) : v ∈ X :=
  h.confined.closed.roots v (by simp [State.roots, hv])

theorem Inv.registry_mem (h : Inv s X) {v : Value} (hv : v ∈ s.registry) : v ∈ X :=
  h.confined.closed.roots v (by simp [State.roots, hv])

theorem Inv.hold (h : Inv s X) {stack registry : List Value} (hstack : ∀ v ∈ stack, v ∈ X)
    (hregistry : ∀ v ∈ registry, v ∈ X) :
    Inv { s with stack := stack, registry := registry } X := by
  have hb := h.books
  refine ⟨h.confined.extend ?_ (fun v hv => hv) (fun v _ w hw => .inl hw),
    ⟨hb.owned, hb.proxies, hb.unmarked, hb.queuedOnce, hb.queued, hb.spent⟩, h.apart⟩
  intro v hv
  simp only [State.roots, List.cons_append, List.mem_cons, List.mem_append] at hv
  rcases hv with rfl | hv | hv
  · exact h.globals_mem
  · exact hregistry v hv
  · exact hstack v hv

theorem Inv.push (h : Inv s X) {v : Value} (hv : v ∈ X) : Inv (s.push v) X := by
  refine h.hold ?_ (fun _ => h.registry_mem)
  intro w hw
  rcases List.mem_append.mp hw with hw | hw
  · exact h.stack_mem hw
  · obtain rfl := List.mem_singleton.mp hw
    exact hv

theorem Inv.raise (h : Inv s X) (message : String) : Inv (s.raise message) X :=
  h.push (h.confined.unallocated _ trivial)

theorem Inv.newTable (h : Inv s X) {t : Table} (ht : ∀ w ∈ t.refs, w ∈ X) :
    Inv (s.newTable t) X := by
  have hb := h.books
  refine ⟨h.confined.extend h.confined.closed.roots ?_ ?_,
    ⟨hb.owned, hb.proxies, ?_, hb.queuedOnce, hb.queued, hb.spent⟩, h.apart⟩
  · intro v hv
    cases v with
    | table a =>
      simp only [Unallocated, State.newTable, List.length_append, List.length_singleton] at hv ⊢
      omega
    | _ => exact hv
  · intro v _ w hw
    rcases State.mem_refs_newTable hw with hw | hw
    · exact .inl hw
    · exact .inr (ht w hw)
  · intro m hm
    obtain ⟨hlt, hlacks⟩ := hb.unmarked m hm
    rw [State.tableAt_newTable, if_neg (by omega)]
    refine ⟨?_, hlacks⟩
    simp only [State.newTable, List.length_append, List.length_singleton]
    omega

theorem Inv.newClosures (h : Inv s X) {cs : List Closure}
    (hcs : ∀ c ∈ cs, ∀ w ∈ c.upvalues, w ∈ X) : Inv (s.newClosures cs) X := by
  have hb := h.books
  refine ⟨h.confined.extend h.confined.closed.roots ?_ ?_,
    ⟨hb.owned, hb.proxies, hb.unmarked, hb.queuedOnce, hb.queued, hb.spent⟩, h.apart⟩
  · intro v hv
    cases v with
    | function a =>
      simp only [Unallocated, State.newClosures, List.length_append] at hv ⊢
      omega
    | _ => exact hv
  · intro v _ w hw
    rcases State.mem_refs_newClosures hw with hw | ⟨c, hc, hw⟩
    · exact .inl hw
    · exact .inr (hcs c hc w hw)

theorem Inv.setTable (h : Inv s X) {a : Nat} {t : Table}
    (hrefs : ∀ v ∈ X, ∀ w ∈ (s.setTable a t).refs v, w ∈ s.refs v ∨ w ∈ X)
    (hlacks : a ∈ s.validMetatables → t.Lacks State.JLUAOBJECTIND) : Inv (s.setTable a t) X := by
  have hb := h.books
  refine ⟨h.confined.extend h.confined.closed.roots ?_ hrefs,
    ⟨hb.owned, hb.proxies, ?_, hb.queuedOnce, hb.queued, hb.spent⟩, h.apart⟩
  · intro x hx
    cases x with
    | table b => simpa [Unallocated, State.setTable] using hx
    | _ => exact hx
  · intro m hm
    obtain ⟨hlt, hold⟩ := hb.unmarked m hm
    refine ⟨by simpa [State.setTable] using hlt, ?_⟩
    rcases State.tableAt_setTable_cases s a t m with heq | ⟨rfl, heq⟩
    · rw [heq]
      exact hold
    · rw [heq]
      exact hlacks hm

theorem Inv.rawset (h : Inv s X) {a : Nat} {k v : Value} (hk : k ∈ X) (hv : v ∈ X)
    (hmark : a ∈ s.validMetatables → k.rawEqual State.JLUAOBJECTIND = true → v = .nil) :
    Inv (s.rawset a k v) X := by
  apply h.setTable
  · intro x _ w hw
    rcases State.mem_refs_rawset hw with hw | rfl | rfl
    · exact .inl hw
    · exact .inr hk
    · exact .inr hv
  · intro ha
    exact (h.books.unmarked a ha).2.set (hmark ha)

theorem Inv.setMetatable (h : Inv s X) {a : Nat} {m : Option Nat}
    (hm : ∀ n, m = some n → Value.table n ∈ X) : Inv (s.setMetatable a m) X := by
  apply h.setTable
  · intro x _ w hw
    rcases State.mem_refs_setMetatable hw with hw | ⟨n, hn, rfl⟩
    · exact .inl hw
    · exact .inr (hm n hn)
  · intro ha
    exact (h.books.unmarked a ha).2

theorem isFinalized_lt {a : Nat} (h : IsFinalized s a) : a < s.udata.length := by
  obtain ⟨u, hu, _⟩ := h
  exact (List.getElem?_eq_some_iff.mp hu).1

theorem isFinalized_newUdata {u : Udata} {a : Nat} (h : IsFinalized s a) :
    IsFinalized (s.newUdata u) a := by
  obtain ⟨u', hu, hf⟩ := h
  refine ⟨u', ?_, hf⟩
  rw [State.newUdata, List.getElem?_append_left (List.getElem?_eq_some_iff.mp hu).1]
  exact hu

theorem touserdata_newUdata_cases {u : Udata} {a r : Nat}
    (hr : (s.newUdata u).touserdata (.userdata a) = some r) :
    s.touserdata (.userdata a) = some r ∨ (a = s.udata.length ∧ u.block = .reference r) := by
  rw [State.touserdata_newUdata] at hr
  split at hr
  · exact .inr ⟨‹_›, jobject_eq_some.mp hr⟩
  · exact .inl hr

theorem Confined.newUdata (h : Confined s X) (u : Udata) (created : List GlobalRef)
    (hm : ∀ n, u.metatable = some n → Value.table n ∈ X) :
    Confined { s.newUdata u with globalRefs := s.globalRefs ++ created } X := by
  refine h.extend h.closed.roots ?_ ?_
  · intro v hv
    cases v with
    | userdata a =>
      simp only [Unallocated, State.newUdata, List.length_append, List.length_singleton] at hv ⊢
      omega
    | _ => exact hv
  · intro v _ w hw
    have hw : w ∈ (s.newUdata u).refs v := hw
    rcases State.mem_refs_newUdata hw with hw | ⟨n, hn, rfl⟩
    · exact .inl hw
    · exact .inr (hm n hn)

/-- A reference of the new userdata is its own and alive. -/
def OwnsNew (s : State) (u : Udata) (created : List GlobalRef) : Prop :=
  ∀ r, u.block = .reference r → ∃ g, (s.globalRefs ++ created)[r]? = some g ∧
    g.holder = s.udata.length ∧ g.deleted = false

theorem Books.getElem?_created (h : Books s) (created : List GlobalRef) {a r : Nat}
    (hr : s.touserdata (.userdata a) = some r) :
    (s.globalRefs ++ created)[r]? = s.globalRefs[r]? := by
  obtain ⟨g, hg, _⟩ := h.owned a r hr
  exact List.getElem?_append_left (List.getElem?_eq_some_iff.mp hg).1

/-- Only references that were there before are deleted. -/
theorem Books.isDeleted_newUdata (h : Books s) {u : Udata} {created : List GlobalRef}
    (howned : OwnsNew s u created) {a r : Nat}
    (hr : (s.newUdata u).touserdata (.userdata a) = some r)
    (hgone : IsDeleted { s.newUdata u with globalRefs := s.globalRefs ++ created } r) :
    s.touserdata (.userdata a) = some r ∧ IsDeleted s r := by
  obtain ⟨g, hg, hgone⟩ := hgone
  rcases touserdata_newUdata_cases hr with hr | ⟨_, hblock⟩
  · exact ⟨hr, g, h.getElem?_created created hr ▸ hg, hgone⟩
  · obtain ⟨g', hg', _, hlive⟩ := howned r hblock
    obtain rfl := Option.some.inj (hg.symm.trans hg')
    rw [hlive] at hgone
    cases hgone

theorem Books.newUdata (h : Books s) {u : Udata} {created : List GlobalRef}
    (hvalid : u.block = .empty → ∀ n, u.metatable = some n → n ∈ s.validMetatables)
    (howned : OwnsNew s u created) :
    Books { s.newUdata u with globalRefs := s.globalRefs ++ created } := by
  refine ⟨?_, ?_, h.unmarked, h.queuedOnce, ?_, ?_⟩
  · intro a r hr
    rcases touserdata_newUdata_cases hr with hr | ⟨rfl, hblock⟩
    · obtain ⟨g, hg, hholder⟩ := h.owned a r hr
      exact ⟨g, (h.getElem?_created created hr).trans hg, hholder⟩
    · obtain ⟨g, hg, hholder, _⟩ := howned r hblock
      exact ⟨g, hg, hholder⟩
  · intro a u' n hu hempty hn
    rw [State.newUdata, getElem?_snoc] at hu
    split at hu
    · obtain rfl := Option.some.inj hu
      exact hvalid hempty n hn
    · exact h.proxies a u' n hu hempty hn
  · intro a ha
    exact isFinalized_newUdata (h.queued a ha)
  · intro a r hr hgone
    obtain ⟨hr, hgone⟩ := h.isDeleted_newUdata howned hr hgone
    obtain ⟨hf, hq⟩ := h.spent a r hr hgone
    exact ⟨isFinalized_newUdata hf, hq⟩

theorem Inv.newUdata (h : Inv s X) (u : Udata) (created : List GlobalRef)
    (hm : ∀ n, u.metatable = some n → Value.table n ∈ X)
    (hvalid : u.block = .empty → ∀ n, u.metatable = some n → n ∈ s.validMetatables)
    (howned : OwnsNew s u created) :
    Inv { s.newUdata u with globalRefs := s.globalRefs ++ created } X := by
  refine ⟨h.confined.newUdata u created hm, h.books.newUdata hvalid howned, ?_⟩
  rintro a ⟨r, hr, hqueued | hgone⟩
  · rcases touserdata_newUdata_cases hr with hr | ⟨rfl, _⟩
    · exact h.apart a ⟨r, hr, .inl hqueued⟩
    · exact absurd (isFinalized_lt (h.books.queued _ hqueued)) (Nat.lt_irrefl _)
  · obtain ⟨hr, hgone⟩ := h.books.isDeleted_newUdata howned hr hgone
    exact h.apart a ⟨r, hr, .inr hgone⟩

theorem Inv.newProxy (h : Inv s X) {m : Option Nat}
    (hvalid : ∀ n, m = some n → n ∈ s.validMetatables) (hm : ∀ n, m = some n → Value.table n ∈ X) :
    Inv (s.newProxy m) X := by
  have hnew := h.newUdata ⟨.empty, m, false⟩ [] hm (fun _ => hvalid) (by simp [OwnsNew])
  rw [List.append_nil] at hnew
  exact hnew.push (h.confined.unallocated _ (Nat.le_refl s.udata.length))

theorem Inv.newValidMetatable (h : Inv s X) :
    Inv { s.newTable ⟨[], none⟩ with
      validMetatables := s.tables.length :: s.validMetatables } X := by
  have hnew : Inv (s.newTable ⟨[], none⟩) X := h.newTable (by simp [Table.refs])
  have hb := hnew.books
  refine ⟨⟨hnew.confined.closed, hnew.confined.unallocated⟩,
    ⟨hb.owned, ?_, ?_, hb.queuedOnce, hb.queued, hb.spent⟩, hnew.apart⟩
  · intro a u m hu hempty hm
    exact List.mem_cons_of_mem _ (hb.proxies a u m hu hempty hm)
  · intro m hm
    rcases List.mem_cons.mp hm with rfl | hm
    · refine ⟨by simp [State.newTable], ?_⟩
      have htable : (s.newTable ⟨[], none⟩).tableAt s.tables.length = ⟨[], none⟩ := by
        rw [State.tableAt_newTable, if_pos rfl]
      intro e he
      change e ∈ ((s.newTable ⟨[], none⟩).tableAt s.tables.length).entries at he
      rw [htable] at he
      cases he
    · exact hb.unmarked m hm

theorem Inv.pushUserdata (h : Inv s X) (f : PushFunction) (obj : JavaObject) :
    Inv (s.pushUserdata f obj) X := by
  let entries := (metamethods f).mapIdx fun i m =>
    (Value.ofString m.1, Value.function (s.closures.length + i))
  let marked : Table := ⟨entries ++ [(State.JLUAOBJECTIND, .boolean true)], none⟩
  have hclosures : Inv (s.newClosures ((metamethods f).map fun m => .c m.2 [])) X := by
    apply h.newClosures
    intro c hc w hw
    obtain ⟨m, _, rfl⟩ := List.mem_map.mp hc
    cases hw
  have hrefs : ∀ w ∈ marked.refs, w ∈ X := by
    intro w hw
    obtain ⟨e, he, hw⟩ := List.mem_flatMap.mp hw
    rcases List.mem_append.mp he with he | he
    · obtain ⟨i, hi, rfl⟩ := List.mem_mapIdx.mp he
      simp only [List.mem_cons, List.not_mem_nil, or_false] at hw
      rcases hw with rfl | rfl
      · exact h.confined.unallocated _ trivial
      · exact h.confined.unallocated _ (Nat.le_add_right _ _)
    · obtain rfl := List.mem_singleton.mp he
      simp only [List.mem_cons, List.not_mem_nil, or_false] at hw
      rcases hw with rfl | rfl <;> exact h.confined.unallocated _ trivial
  have hnew := (hclosures.newTable hrefs).newUdata
    ⟨.reference s.globalRefs.length, some s.tables.length, false⟩
    [⟨f, obj, s.udata.length, false⟩]
    (by
      rintro n ⟨⟩
      exact h.confined.unallocated _ (Nat.le_refl s.tables.length))
    (by rintro ⟨⟩)
    (by
      rintro r ⟨⟩
      exact ⟨_, List.getElem?_concat_length, rfl, rfl⟩)
  exact hnew.push (h.confined.unallocated _ (Nat.le_refl s.udata.length))

theorem Inv.reply (h : Inv s X) (r : Reply) : Inv (s.reply r) X := by
  cases r with
  | constant c =>
    apply h.push
    cases c <;> exact h.confined.unallocated _ trivial
  | object f obj => exact h.pushUserdata f obj
  | luaObject ref =>
    apply h.push
    cases hv : s.registry[ref]? with
    | none => exact h.confined.unallocated _ trivial
    | some v => exact h.registry_mem (List.mem_of_getElem? hv)

theorem Inv.replies (h : Inv s X) (java : List Reply) : Inv (s.replies java) X := by
  unfold State.replies
  induction java generalizing s with
  | nil => exact h
  | cons r java ih => exact ih (h.reply r)

/-! ### Calls -/

/-- The store puts the mark of Java objects into a metatable that `newproxy` made. -/
def MarksProxy (s : State) (a : Nat) (k v : Value) : Prop :=
  a ∈ s.validMetatables ∧ k.rawEqual State.JLUAOBJECTIND = true ∧ v ≠ .nil

/-- The call neither deletes a reference nor marks a proxy. -/
def CallOk (s : State) : CFunction → List Value → Prop
  | .gc, args => s.isJavaObject (args.headD .nil) = false
  | .rawset, .table a :: k :: v :: _ => ¬ MarksProxy s a k v
  | _, _ => True

theorem Inv.withReceiver (h : Inv s X) {args : List Value} {message : String}
    {body : Value → Option State} (hbody : ∀ v s', body v = some s' → Inv s' X)
    (hs : s.withReceiver args message body = some s') : Inv s' X := by
  unfold State.withReceiver at hs
  dsimp only at hs
  split at hs
  · exact hbody _ _ hs
  · obtain rfl := Option.some.inj hs
    exact h.raise message

theorem Inv.dereference (h : Inv s X) {v : Value} {java : List Reply}
    (hs : ((s.dereference v).map fun _ => s.replies java) = some s') : Inv s' X := by
  obtain ⟨_, _, rfl⟩ := Option.map_eq_some_iff.mp hs
  exact h.replies java

theorem Inv.getLastD_mem (h : Inv s X) {vs : List Value} (hvs : ∀ v ∈ vs, v ∈ X) :
    vs.getLastD .nil ∈ X := by
  rcases List.mem_cons.mp (List.getLastD_mem_cons (l := vs) (a := .nil)) with hnil | hlast
  · rw [hnil]
    exact h.confined.unallocated _ trivial
  · exact hvs _ hlast

theorem Inv.objectIndex (h : Inv s X) {args : List Value} {java : List Reply}
    (hargs : ∀ v ∈ args, v ∈ X) (hs : s.objectIndex args java = some s') : Inv s' X := by
  unfold State.objectIndex at hs
  dsimp only at hs
  split at hs
  · obtain rfl := Option.some.inj hs
    exact h.raise _
  · apply h.withReceiver _ hs
    intro v t ht
    obtain ⟨_, _, rfl⟩ := Option.map_eq_some_iff.mp ht
    split
    · have hnew : Inv (s.newClosures [.c .objectIndexReturn [args.getLastD .nil]]) X := by
        apply h.newClosures
        intro c hc w hw
        obtain rfl := List.mem_singleton.mp hc
        obtain rfl := List.mem_singleton.mp hw
        exact h.getLastD_mem hargs
      exact hnew.push (h.confined.unallocated _ (Nat.le_refl s.closures.length))
    · exact h.replies java

theorem Inv.withTable (h : Inv s X) {args : List Value} {name : String}
    {body : Nat → List Value → Option State}
    (hbody : ∀ a rest, args = .table a :: rest → body a rest = some s' → Inv s' X)
    (hs : s.withTable args name body = some s') : Inv s' X := by
  unfold State.withTable at hs
  split at hs
  · exact hbody _ _ rfl hs
  · obtain rfl := Option.some.inj hs
    exact h.raise _

theorem mem_of_rawget (h : Inv s X) {a : Nat} {k : Value} (ha : Value.table a ∈ X) :
    s.rawget a k ∈ X := by
  unfold State.rawget Table.get
  cases hfind : (s.tableAt a).entries.find? fun e => e.1.rawEqual k with
  | none => exact h.confined.unallocated _ trivial
  | some e =>
    apply h.confined.closed.refs _ ha
    exact List.mem_append_right _ (List.mem_flatMap.mpr
      ⟨e, List.mem_of_find?_eq_some hfind, by simp⟩)

theorem mem_of_getMetatable (h : Inv s X) {v : Value} {m : Nat} (hv : v ∈ X)
    (hm : s.getMetatable v = some m) : Value.table m ∈ X := by
  apply h.confined.closed.refs v hv
  cases v with
  | table a =>
    obtain ⟨t, ht, htm⟩ := Option.bind_eq_some_iff.mp hm
    simp [State.refs, State.tableAt, Table.refs, ht, htm]
  | userdata a => simp [State.refs, hm]
  | _ => cases hm

theorem mem_of_getMetafield (h : Inv s X) {v : Value} {event : String} (hv : v ∈ X) :
    s.getMetafield v event ∈ X := by
  unfold State.getMetafield
  split
  · exact mem_of_rawget h (mem_of_getMetatable h hv ‹_›)
  · exact h.confined.unallocated _ trivial

theorem Inv.luaBGetmetatable (h : Inv s X) {args : List Value} (hargs : ∀ v ∈ args, v ∈ X)
    (hs : s.luaBGetmetatable args = some s') : Inv s' X := by
  unfold State.luaBGetmetatable at hs
  split at hs
  · obtain rfl := Option.some.inj hs
    exact h.raise _
  · rename_i v _
    have hv : v ∈ X := hargs v (by simp)
    split at hs
    · obtain rfl := Option.some.inj hs
      exact h.push (h.confined.unallocated _ trivial)
    · rename_i m hm
      obtain rfl := Option.some.inj hs
      apply h.push
      split
      · exact mem_of_getMetatable h hv hm
      · exact mem_of_getMetafield h hv

theorem Inv.luaBSetmetatable (h : Inv s X) {args : List Value} (hargs : ∀ v ∈ args, v ∈ X)
    (hs : s.luaBSetmetatable args = some s') : Inv s' X := by
  apply h.withTable _ hs
  rintro a rest rfl hs
  have ha : Value.table a ∈ X := hargs _ (by simp)
  dsimp only at hs
  split at hs
  · split at hs <;> obtain rfl := Option.some.inj hs
    · exact h.raise _
    · exact (h.setMetatable (by simp)).push ha
  · rename_i m _
    have hm := hargs (.table _) (List.mem_cons_of_mem _ List.mem_cons_self)
    split at hs <;> obtain rfl := Option.some.inj hs
    · exact h.raise _
    · exact (h.setMetatable (by rintro n ⟨⟩; exact hm)).push ha
  · obtain rfl := Option.some.inj hs
    exact h.raise _

theorem Inv.luaBRawget (h : Inv s X) {args : List Value} (hargs : ∀ v ∈ args, v ∈ X)
    (hs : s.luaBRawget args = some s') : Inv s' X := by
  apply h.withTable _ hs
  rintro a rest rfl hs
  split at hs <;> obtain rfl := Option.some.inj hs
  · exact h.push (mem_of_rawget h (hargs _ (by simp)))
  · exact h.raise _

theorem Inv.luaHSet (h : Inv s X) {a : Nat} {k v : Value} (hk : k ∈ X) (hv : v ∈ X)
    (hmark : ¬ MarksProxy s a k v) (hs : s.luaHSet a k v = .ok s') : Inv s' X := by
  have hset : Inv (s.rawset a k v) X := by
    apply h.rawset hk hv
    intro ha heq
    by_contra hnil
    exact hmark ⟨ha, heq, hnil⟩
  unfold State.luaHSet at hs
  split at hs
  · cases hs
  · cases hs
  · obtain rfl := Except.ok.inj hs
    exact hset

theorem Inv.luaBRawset (h : Inv s X) {args : List Value} (hargs : ∀ v ∈ args, v ∈ X)
    (hok : CallOk s .rawset args) (hs : s.luaBRawset args = some s') : Inv s' X := by
  apply h.withTable _ hs
  rintro a rest rfl hs
  split at hs
  · rename_i k v _ _
    split at hs <;> obtain rfl := Option.some.inj hs
    · rename_i hset _
      exact (h.luaHSet (hargs k (by simp)) (hargs v (by simp)) hok hset).push (hargs _ (by simp))
    · exact h.raise _
  all_goals
    obtain rfl := Option.some.inj hs
    exact h.raise _

theorem Inv.luaBNext (h : Inv s X) {args : List Value} (hargs : ∀ v ∈ args, v ∈ X)
    (hs : s.luaBNext args = some s') : Inv s' X := by
  apply h.withTable _ hs
  rintro a rest rfl hs
  have ha : Value.table a ∈ X := hargs _ (by simp)
  dsimp only at hs
  split at hs
  · obtain rfl := Option.some.inj hs
    exact h.raise _
  · split at hs <;> obtain rfl := Option.some.inj hs
    · rename_i k v hnext _
      have hmem : (k, v) ∈ (s.tableAt a).entries := by
        unfold Table.next at hnext
        split at hnext
        · exact List.mem_of_head? hnext
        · have htail := List.mem_of_mem_tail (List.mem_of_head? hnext)
          exact (List.dropWhile_suffix _).subset htail
      have hrefs : ∀ w ∈ [k, v], w ∈ X := by
        intro w hw
        apply h.confined.closed.refs _ ha
        exact List.mem_append_right _ (List.mem_flatMap.mpr ⟨(k, v), hmem, hw⟩)
      exact (h.push (hrefs k (by simp))).push (hrefs v (by simp))
    · exact h.push (h.confined.unallocated _ trivial)

theorem Inv.luaBNewproxy (h : Inv s X) {args : List Value} (hargs : ∀ v ∈ args, v ∈ X)
    (hs : s.luaBNewproxy args = some s') : Inv s' X := by
  unfold State.luaBNewproxy at hs
  split at hs
  · obtain rfl := Option.some.inj hs
    exact h.newProxy (by simp) (by simp)
  · obtain rfl := Option.some.inj hs
    exact h.newProxy (by simp) (by simp)
  · obtain rfl := Option.some.inj hs
    apply h.newValidMetatable.newProxy
    · rintro n ⟨⟩
      exact List.mem_cons_self
    · rintro n ⟨⟩
      exact h.confined.unallocated _ (Nat.le_refl s.tables.length)
  · split at hs
    · rename_i m hm
      split at hs
      · rename_i hvalid
        obtain rfl := Option.some.inj hs
        have hv : args.headD .nil ∈ X := by
          cases args with
          | nil => exact h.confined.unallocated _ trivial
          | cons v rest => exact hargs v (by simp)
        apply h.newProxy
        · rintro n ⟨⟩
          exact hvalid
        · rintro n ⟨⟩
          exact mem_of_getMetatable h hv hm
      · obtain rfl := Option.some.inj hs
        exact h.raise _
    · obtain rfl := Option.some.inj hs
      exact h.raise _

theorem Inv.throwObj (h : Inv s X) {args : List Value} (hargs : ∀ v ∈ args, v ∈ X) :
    Inv (s.throwObj args) X := by
  unfold State.throwObj
  split
  · exact h.push (hargs _ (by simp))
  · exact h.raise _

section Calls
variable {isNumeral : List UInt8 → Bool} {args : List Value} {java : List Reply}

theorem Inv.objectIndexReturn (h : Inv s X) (hs : s.objectIndexReturn args java = some s') :
    Inv s' X := by
  apply h.withReceiver _ hs
  intro v t ht
  exact h.dereference ht

/-- `objectNewIndex` and `arrayNewIndex` check the key after the receiver. -/
theorem Inv.withKey (h : Inv s X) {message keyMessage : String} {badKey : Bool}
    (hs : (s.withReceiver args message fun v =>
      if badKey then some (s.raise keyMessage)
      else (s.dereference v).map fun _ => s.replies java) = some s') : Inv s' X := by
  apply h.withReceiver _ hs
  intro v t ht
  split at ht
  · obtain rfl := Option.some.inj ht
    exact h.raise _
  · exact h.dereference ht

theorem Inv.arrayIndex (h : Inv s X) (hargs : ∀ v ∈ args, v ∈ X)
    (hs : s.arrayIndex isNumeral args java = some s') : Inv s' X := by
  unfold State.arrayIndex at hs
  dsimp only at hs
  split at hs
  · obtain rfl := Option.some.inj hs
    exact h.raise _
  · split at hs
    · exact h.objectIndex hargs hs
    · apply h.withReceiver _ hs
      intro v t ht
      exact h.dereference ht

theorem Inv.jluaFunctionCall (h : Inv s X) (hs : s.jluaFunctionCall args java = some s') :
    Inv s' X := by
  apply h.withReceiver _ hs
  intro v t ht
  obtain ⟨obj, _, rfl⟩ := Option.map_eq_some_iff.mp ht
  split
  · exact h.replies java
  · exact h

/-- A native function keeps what the script stays within, unless it deletes a reference or marks
a proxy. -/
theorem Inv.callC (h : Inv s X) {f : CFunction} (hargs : ∀ v ∈ args, v ∈ X)
    (hok : CallOk s f args) (hs : s.callC isNumeral f args java = some s') : Inv s' X := by
  cases f with
  | objectIndex => exact h.objectIndex hargs hs
  | objectIndexReturn => exact h.objectIndexReturn hs
  | objectNewIndex => exact h.withKey hs
  | arrayIndex => exact h.arrayIndex hargs hs
  | arrayNewIndex => exact h.withKey hs
  | jluaFunctionCall => exact h.jluaFunctionCall hs
  | gc =>
    have hgc : s.isJavaObject (args.headD .nil) = false := hok
    simp only [State.callC, State.gc, hgc, Bool.not_false, if_true, Option.some.injEq] at hs
    exact hs ▸ h
  | javaGetClass | createProxy | newArray =>
    obtain rfl := Option.some.inj hs
    exact h.replies java
  | throwObj =>
    obtain rfl := Option.some.inj hs
    exact h.throwObj hargs
  | getmetatable => exact h.luaBGetmetatable hargs hs
  | setmetatable => exact h.luaBSetmetatable hargs hs
  | rawget => exact h.luaBRawget hargs hs
  | rawset => exact h.luaBRawset hargs hok hs
  | next => exact h.luaBNext hargs hs
  | newproxy => exact h.luaBNewproxy hargs hs

theorem Inv.call (h : Inv s X) {f : Value} (hf : f ∈ X) (hargs : ∀ v ∈ args, v ∈ X)
    (hok : ∀ g, s.native f = some g → CallOk s g args)
    (hs : s.call isNumeral f args java = some s') : Inv s' X := by
  unfold State.call at hs
  split at hs
  · rename_i a
    split at hs
    · rename_i g upvalues hclosure
      exact h.callC hargs (hok g (by simp [State.native, hclosure])) hs
    · rename_i upvalues hclosure
      obtain rfl := Option.some.inj hs
      have hupvalues : ∀ v ∈ upvalues, v ∈ X := by
        intro v hv
        apply h.confined.closed.refs _ hf
        simpa [State.refs, hclosure, Closure.upvalues] using hv
      apply h.hold _ (fun v => h.registry_mem)
      intro v hv
      rcases List.mem_append.mp hv with hv | hv
      · rcases List.mem_append.mp hv with hv | hv
        · exact h.stack_mem hv
        · exact hupvalues v hv
      · exact hargs v hv
    · cases hs
  · obtain rfl := Option.some.inj hs
    exact h.raise _

end Calls

/-! ### Finalizers -/

theorem Inv.dequeue (h : Inv s X) {a : Nat} {rest : List Nat} (hq : s.tmudata = a :: rest) :
    Inv { s with tmudata := rest } X := by
  have hb := h.books
  have hsub : ∀ b ∈ rest, b ∈ s.tmudata := by
    intro b hb
    rw [hq]
    exact List.mem_cons_of_mem a hb
  refine ⟨⟨h.confined.closed, h.confined.unallocated⟩,
    ⟨hb.owned, hb.proxies, hb.unmarked, ?_, ?_, ?_⟩, ?_⟩
  · exact (List.nodup_cons.mp (hq ▸ hb.queuedOnce)).2
  · intro b hmem
    exact hb.queued b (hsub b hmem)
  · intro b r hr hgone
    obtain ⟨hf, hnot⟩ := hb.spent b r hr hgone
    exact ⟨hf, fun hmem => hnot (hsub b hmem)⟩
  · rintro b ⟨r, hr, hmem | hgone⟩
    · exact h.apart b ⟨r, hr, .inl (hsub b hmem)⟩
    · exact h.apart b ⟨r, hr, .inr hgone⟩

/-- The reference of a userdata that the script cannot get at may be deleted. -/
theorem Inv.deleteGlobalRef (h : Inv s X) {a r : Nat}
    (hr : s.touserdata (.userdata a) = some r) (ha : Value.userdata a ∉ X)
    (hf : IsFinalized s a) (hq : a ∉ s.tmudata) (hs : s.deleteGlobalRef r = some s') :
    Inv s' X := by
  have hb := h.books
  obtain ⟨g, hg, hholder⟩ := hb.owned a r hr
  unfold State.deleteGlobalRef at hs
  simp only [hg, Option.bind_eq_bind, Option.bind_some] at hs
  split at hs
  · cases hs
  obtain rfl := Option.some.inj hs
  have hget : ∀ r', (s.globalRefs.set r { g with deleted := true })[r']? =
      if r = r' then some { g with deleted := true } else s.globalRefs[r']? := by
    intro r'
    rw [List.getElem?_set]
    have hlt := (List.getElem?_eq_some_iff.mp hg).1
    grind
  have hgone : ∀ b r', s.touserdata (.userdata b) = some r' →
      IsDeleted { s with globalRefs := s.globalRefs.set r { g with deleted := true } } r' →
      b = a ∨ IsDeleted s r' := by
    rintro b r' hr' ⟨g', hg', hdeleted⟩
    rw [hget] at hg'
    split at hg'
    · rename_i heq
      subst heq
      obtain ⟨g₀, hg₀, hb₀⟩ := hb.owned b r hr'
      obtain rfl := Option.some.inj (hg.symm.trans hg₀)
      exact .inl (hb₀.symm.trans hholder)
    · exact .inr ⟨g', hg', hdeleted⟩
  refine ⟨⟨h.confined.closed, h.confined.unallocated⟩,
    ⟨?_, hb.proxies, hb.unmarked, hb.queuedOnce, hb.queued, ?_⟩, ?_⟩
  · intro b r' hr'
    obtain ⟨g', hg', hb'⟩ := hb.owned b r' hr'
    by_cases heq : r = r'
    · subst heq
      obtain rfl := Option.some.inj (hg.symm.trans hg')
      exact ⟨{ g with deleted := true }, by rw [hget, if_pos rfl], hb'⟩
    · exact ⟨g', by rw [hget, if_neg heq]; exact hg', hb'⟩
  · intro b r' hr' hdeleted
    rcases hgone b r' hr' hdeleted with rfl | hold
    · exact ⟨hf, hq⟩
    · exact hb.spent b r' hr' hold
  · rintro b ⟨r', hr', hmem | hdeleted⟩
    · exact h.apart b ⟨r', hr', .inl hmem⟩
    · rcases hgone b r' hr' hdeleted with rfl | hold
      · exact ha
      · exact h.apart b ⟨r', hr', .inr hold⟩

/-- No other userdata that is doomed can be reached from the userdata. -/
def Releases (s : State) (a : Nat) : Prop :=
  ∀ b, b ≠ a → Doomed s b → ¬ Reach s.refs [.userdata a] (.userdata b)

/-- What the collector hands to a finalizer widens what the script stays within. -/
theorem Inv.handOver (h : Inv s X) {a : Nat} {rest : List Nat} (hq : s.tmudata = a :: rest)
    (hreleases : Releases s a) :
    Inv { s with tmudata := rest } (X ∪ {v | Reach s.refs [.userdata a] v}) := by
  have hrest := h.dequeue hq
  have hunion := h.confined.closed.union (closed_reach s.refs [.userdata a])
  refine ⟨⟨?_, ?_⟩, hrest.books, ?_⟩
  · apply hunion.mono
    · intro v hv
      exact .inl (h.confined.closed.roots v hv)
    · intro v _ w hw
      exact hw
  · intro v hv
    exact .inl (h.confined.unallocated v hv)
  · intro b hdoomed hmem
    have hne : b ≠ a := by
      rintro rfl
      obtain ⟨r, hr, hmem | hgone⟩ := hdoomed
      · exact (List.nodup_cons.mp (hq ▸ h.books.queuedOnce)).1 hmem
      · exact (h.books.spent b r hr hgone).2 (by rw [hq]; exact List.mem_cons_self)
    rcases hmem with hX | hreach
    · exact hrest.apart b hdoomed hX
    · obtain ⟨r, hr, hmem | hgone⟩ := hdoomed
      · exact hreleases b hne ⟨r, hr, .inl (by rw [hq]; exact List.mem_cons_of_mem a hmem)⟩ hreach
      · exact hreleases b hne ⟨r, hr, .inr hgone⟩ hreach

theorem Inv.gctm (h : Inv s X) {isNumeral : List UInt8 → Bool} {java : List Reply}
    {a : Nat} {rest : List Nat} (hq : s.tmudata = a :: rest)
    (hok : s.getMetafield (.userdata a) "__gc" ≠ .nil →
      s.native (s.getMetafield (.userdata a) "__gc") ≠ some .gc → Releases s a)
    (hs : s.gctm isNumeral java = some s') : ∃ Y, Inv s' Y := by
  unfold State.gctm at hs
  rw [hq] at hs
  dsimp only at hs
  split at hs
  · obtain rfl := Option.some.inj hs
    exact ⟨X, h.dequeue hq⟩
  rename_i hnil
  split at hs
  · refine ⟨X, ?_⟩
    have hrest := h.dequeue hq
    unfold State.gc at hs
    dsimp only [List.headD_cons] at hs
    split at hs
    · obtain rfl := Option.some.inj hs
      exact hrest
    · obtain ⟨r, hr, hdelete⟩ := Option.bind_eq_some_iff.mp hs
      have hmem : a ∈ s.tmudata := by
        rw [hq]
        exact List.mem_cons_self
      apply hrest.deleteGlobalRef hr (h.apart a ⟨r, hr, .inl hmem⟩) (h.books.queued a hmem) _
        hdelete
      exact (List.nodup_cons.mp (hq ▸ h.books.queuedOnce)).1
  · rename_i hgc
    have hgiven := h.handOver hq (hok hnil hgc)
    have ha : Value.userdata a ∈ X ∪ {v | Reach s.refs [.userdata a] v} :=
      .inr (.root (by simp))
    refine ⟨_, (hgiven.push ha).call ?_ ?_ ?_ hs⟩
    · exact mem_of_getMetafield hgiven ha
    · intro v hv
      obtain rfl := List.mem_singleton.mp hv
      exact ha
    · intro g hg
      have hne : g ≠ .gc := by
        rintro rfl
        exact hgc hg
      cases g <;> first | exact absurd rfl hne | trivial

/-! ### The collector -/

theorem udata_separateudata (s : State) (black : List Value) (a : Nat) :
    (s.separateudata black).udata[a]? = (s.udata[a]?).map fun u =>
      { u with finalized := u.finalized || decide (a ∈ s.dead black) } := by
  simp [State.separateudata, List.getElem?_mapIdx]

theorem getMetatable_separateudata (s : State) (black : List Value) (a : Nat) :
    (s.separateudata black).getMetatable (.userdata a) = s.getMetatable (.userdata a) := by
  unfold State.getMetatable
  dsimp only
  rw [udata_separateudata]
  cases s.udata[a]? <;> rfl

theorem touserdata_separateudata (s : State) (black : List Value) (a : Nat) :
    (s.separateudata black).touserdata (.userdata a) = s.touserdata (.userdata a) := by
  unfold State.touserdata
  dsimp only
  rw [udata_separateudata]
  cases s.udata[a]? <;> rfl

theorem isFinalized_separateudata {black : List Value} {a : Nat}
    (h : IsFinalized s a ∨ a ∈ s.dead black) : IsFinalized (s.separateudata black) a := by
  have hlt : a < s.udata.length := by
    rcases h with h | h
    · exact isFinalized_lt h
    · have hrange := (List.mem_filter.mp h).1
      simpa using hrange
  have hget := udata_separateudata s black a
  rw [List.getElem?_eq_getElem hlt] at hget
  refine ⟨_, hget, ?_⟩
  rcases h with ⟨u, hu, hf⟩ | h
  · rw [List.getElem?_eq_getElem hlt] at hu
    obtain rfl := Option.some.inj hu
    simp [hf]
  · simp [h]

theorem tableAt_cleartable (s : State) (black : List Value) (inArray : Nat → Value → Bool)
    (a : Nat) :
    ((s.cleartable black inArray).tableAt a).metatable = (s.tableAt a).metatable ∧
      ∀ e ∈ ((s.cleartable black inArray).tableAt a).entries, e ∈ (s.tableAt a).entries := by
  unfold State.tableAt State.cleartable
  rw [List.getElem?_mapIdx]
  cases s.tables[a]? with
  | none => simp
  | some t =>
    simp only [Option.map_some, Option.getD_some]
    split
    · exact ⟨rfl, fun e he => (List.mem_filter.mp he).1⟩
    · exact ⟨rfl, fun e he => he⟩

section Collected
variable {black preserved : List Value} {inArray : Nat → Value → Bool}

theorem tableAt_collected (a : Nat) :
    ((s.collected black preserved inArray).tableAt a).metatable = (s.tableAt a).metatable ∧
      ∀ e ∈ ((s.collected black preserved inArray).tableAt a).entries,
        e ∈ (s.tableAt a).entries :=
  tableAt_cleartable (s.separateudata black) preserved inArray a

theorem getMetatable_collected (a : Nat) :
    (s.collected black preserved inArray).getMetatable (.userdata a) =
      s.getMetatable (.userdata a) :=
  getMetatable_separateudata s black a

theorem touserdata_collected (a : Nat) :
    (s.collected black preserved inArray).touserdata (.userdata a) =
      s.touserdata (.userdata a) :=
  touserdata_separateudata s black a

theorem mem_refs_collected {v w : Value}
    (h : w ∈ (s.collected black preserved inArray).refs v) : w ∈ s.refs v := by
  cases v with
  | table a =>
    have hw : w ∈ ((s.collected black preserved inArray).tableAt a).refs := h
    unfold Table.refs at hw
    obtain ⟨hmeta, hentries⟩ := tableAt_collected (s := s) a
    rw [hmeta] at hw
    rcases List.mem_append.mp hw with hw | hw
    · exact List.mem_append_left _ hw
    · obtain ⟨e, he, hw⟩ := List.mem_flatMap.mp hw
      exact List.mem_append_right _ (List.mem_flatMap.mpr ⟨e, hentries e he, hw⟩)
  | userdata a =>
    rw [State.refs, getMetatable_collected] at h
    exact h
  | _ => exact h

end Collected

theorem refs_unallocated {v : Value} (h : Unallocated s v) : s.refs v = [] := by
  cases v with
  | table a =>
    have hnone : s.tables[a]? = none := List.getElem?_eq_none h
    simp [State.refs, State.tableAt, Table.refs, hnone]
  | userdata a =>
    have hnone : s.udata[a]? = none := List.getElem?_eq_none h
    simp [State.refs, State.getMetatable, hnone]
  | function a =>
    have hnone : s.closures[a]? = none := List.getElem?_eq_none h
    simp [State.refs, hnone]
  | _ => rfl

theorem refs_of_not_isWeak {v : Value} (h : s.isWeak v = false) : s.strongRefs v = s.refs v := by
  cases v with
  | table a =>
    simp only [State.isWeak, Bool.or_eq_false_iff] at h
    simp [State.strongRefs, State.refs, Table.refs, h.1, h.2]
  | _ => rfl

theorem not_isFinalized_of_mem_dead {black : List Value} {a : Nat} (h : a ∈ s.dead black) :
    a < s.udata.length ∧ ¬ IsFinalized s a ∧ Value.userdata a ∉ black := by
  obtain ⟨hrange, hdead⟩ := List.mem_filter.mp h
  simp only [Bool.and_eq_true, decide_eq_true_eq, Option.any_eq_true] at hdead
  obtain ⟨⟨u, hu, hlive⟩, hwhite⟩ := hdead
  refine ⟨by simpa using hrange, ?_, hwhite⟩
  rintro ⟨u', hu', hf⟩
  obtain rfl := Option.some.inj (hu.symm.trans hu')
  simp [hf] at hlive

/-- No Java object that is to be finalized can be reached through what weak tables keep without
its being marked. -/
def Buries (s : State) (black preserved : List Value) (inArray : Nat → Value → Bool) : Prop :=
  let s' := s.collected black preserved inArray
  ∀ a r, s.touserdata (.userdata a) = some r → a ∈ s.due black →
    ¬ Reach s'.refs (escapes s.isWeak s'.refs black) (.userdata a)

theorem Books.collected (h : Books s) (black preserved : List Value)
    (inArray : Nat → Value → Bool) : Books (s.collected black preserved inArray) := by
  have hfinal : ∀ {a}, IsFinalized s a ∨ a ∈ s.dead black →
      IsFinalized (s.collected black preserved inArray) a := isFinalized_separateudata
  have hqueue : (s.collected black preserved inArray).tmudata = s.tmudata ++ s.due black := rfl
  have hnot : ∀ a ∈ s.due black, ¬ IsFinalized s a := by
    intro a ha
    exact (not_isFinalized_of_mem_dead (List.mem_filter.mp ha).1).2.1
  constructor
  · intro a r hr
    rw [touserdata_collected] at hr
    exact h.owned a r hr
  · intro a u m hu hempty hm
    have hu : (s.separateudata black).udata[a]? = some u := hu
    rw [udata_separateudata] at hu
    obtain ⟨u', hu', rfl⟩ := Option.map_eq_some_iff.mp hu
    exact h.proxies a u' m hu' hempty hm
  · intro m hm
    obtain ⟨hlt, hlacks⟩ := h.unmarked m hm
    constructor
    · simpa [State.collected, State.cleartable, State.separateudata] using hlt
    · intro e he
      exact hlacks e ((tableAt_collected m).2 e he)
  · rw [hqueue, List.nodup_append]
    refine ⟨h.queuedOnce, ?_, ?_⟩
    · exact ((List.nodup_reverse.mpr List.nodup_range).filter _).filter _
    · rintro a hold b hnew rfl
      exact hnot a hnew (h.queued a hold)
  · intro a ha
    rw [hqueue] at ha
    rcases List.mem_append.mp ha with ha | ha
    · exact hfinal (.inl (h.queued a ha))
    · exact hfinal (.inr (List.mem_filter.mp ha).1)
  · intro a r hr hgone
    rw [touserdata_collected] at hr
    obtain ⟨hf, hq⟩ := h.spent a r hr hgone
    refine ⟨hfinal (.inl hf), ?_⟩
    rw [hqueue]
    intro hmem
    rcases List.mem_append.mp hmem with hmem | hmem
    · exact hq hmem
    · exact hnot a hmem hf

/-- What the collector queues is out of the reach of the script from then on. -/
theorem Inv.atomic (h : Inv s X) {black preserved : List Value} {inArray : Nat → Value → Bool}
    (hburies : Buries s black preserved inArray)
    (hs : s.atomic black preserved inArray = some s') : ∃ Y, Inv s' Y := by
  unfold State.atomic at hs
  dsimp only at hs
  split at hs
  · rename_i hmarks
    obtain rfl := Option.some.inj hs
    obtain ⟨⟨hroots, hstrong⟩, _⟩ := hmarks
    set c := s.collected black preserved inArray with hc
    have hmarked : Closed c.refs c.roots
        {v | v ∈ black ∨ Reach c.refs (escapes s.isWeak c.refs black) v} := by
      apply closed_marked
      · exact hroots
      · intro v hv hkind w hw
        apply hstrong v hv w
        rw [refs_of_not_isWeak hkind]
        exact mem_refs_collected hw
    have hfresh : Closed c.refs [] {v | Unallocated c v} := by
      constructor
      · simp
      · intro v hv w hw
        rw [refs_unallocated hv] at hw
        cases hw
    have hold : Closed c.refs c.roots X :=
      h.confined.closed.mono h.confined.closed.roots (fun v _ w => mem_refs_collected)
    have hsame : ∀ v, Unallocated c v → Unallocated s v := by
      intro v hv
      cases v with
      | table a => simpa [Unallocated, hc, State.collected, State.cleartable,
          State.separateudata] using hv
      | userdata a => simpa [Unallocated, hc, State.collected, State.cleartable,
          State.separateudata] using hv
      | _ => exact hv
    have hunion := hmarked.union hfresh
    rw [List.append_nil] at hunion
    refine ⟨_, ⟨hold.inter hunion, ?_⟩, h.books.collected black preserved inArray, ?_⟩
    · intro v hv
      exact ⟨h.confined.unallocated v (hsame v hv), .inr hv⟩
    · rintro a ⟨r, hr, hdoomed⟩ ⟨hX, hmem⟩
      rw [hc, touserdata_collected] at hr
      rcases hdoomed with hqueued | hgone
      · rcases List.mem_append.mp hqueued with hqueued | hdue
        · exact h.apart a ⟨r, hr, .inl hqueued⟩ hX
        · obtain ⟨hlt, _, hwhite⟩ := not_isFinalized_of_mem_dead (List.mem_filter.mp hdue).1
          rcases hmem with (hblack | hreach) | hun
          · exact hwhite hblack
          · exact hburies a r hr hdue hreach
          · exact absurd (hsame (.userdata a) hun) (Nat.not_le.mpr hlt)
      · exact h.apart a ⟨r, hr, .inr hgone⟩ hX
  · cases hs

/-! ### Runs -/

/-- The conditions under which userdata stay valid. The script does not call `gc` on a Java
object, and does not put the mark of Java objects into a metatable that `newproxy` made. When the
collector queues a Java object, no weak table keeps a way to it. When it runs a finalizer other
than `gc`, the userdata does not lead to another Java object that is queued or has lost its
reference. -/
def Orderly (s : State) : Action → Prop
  | .settable t k v => ∀ a, s.slot t = .table a → ¬ MarksProxy s a (s.slot k) (s.slot v)
  | .call f args _ => ∀ g, s.native (s.slot f) = some g → CallOk s g (args.map s.slot)
  | .metacall v event args _ =>
    ∀ g, s.native (s.getMetafield (s.slot v) event) = some g → CallOk s g (args.map s.slot)
  | .atomic black preserved inArray => Buries s black preserved inArray
  | .gctm _ => ∀ a ∈ s.tmudata.head?, s.getMetafield (.userdata a) "__gc" ≠ .nil →
    s.native (s.getMetafield (.userdata a) "__gc") ≠ some .gc → Releases s a
  | _ => True

theorem Inv.slot_mem (h : Inv s X) (i : Nat) : s.slot i ∈ X := by
  unfold State.slot
  cases hv : s.stack[i]? with
  | none => exact h.confined.unallocated _ trivial
  | some v => exact h.stack_mem (List.mem_of_getElem? hv)

theorem Inv.slots_mem (h : Inv s X) (args : List Nat) : ∀ v ∈ args.map s.slot, v ∈ X := by
  intro v hv
  obtain ⟨i, _, rfl⟩ := List.mem_map.mp hv
  exact h.slot_mem i

theorem Inv.settable (h : Inv s X) {t k v : Value} (hk : k ∈ X) (hv : v ∈ X)
    (hmark : ∀ a, t = .table a → ¬ MarksProxy s a k v) : Inv (s.settable t k v) X := by
  unfold State.settable
  split
  · split
    · rename_i a _ s' hs
      exact h.luaHSet hk hv (hmark a rfl) hs
    · exact h.raise _
  · exact h.raise _

theorem Inv.gettable (h : Inv s X) {t k : Value} (ht : t ∈ X) : Inv (s.gettable t k) X := by
  unfold State.gettable
  split
  · exact h.push (mem_of_rawget h ht)
  · exact h.raise _

theorem Inv.step (h : Inv s X) {isNumeral : List UInt8 → Bool} {a : Action} (hok : Orderly s a)
    (hs : s.step isNumeral a = some s') : ∃ Y, Inv s' Y := by
  cases a with
  | atomic black preserved inArray => exact h.atomic hok hs
  | gctm java =>
    have hs : s.gctm isNumeral java = some s' := hs
    cases hq : s.tmudata with
    | nil => simp [State.gctm, hq] at hs
    | cons a rest => exact h.gctm hq (hok a (by simp [hq])) hs
  | call f args java => exact ⟨X, h.call (h.slot_mem f) (h.slots_mem args) hok hs⟩
  | metacall v event args java =>
    exact ⟨X, h.call (mem_of_getMetafield h (h.slot_mem v)) (h.slots_mem args) hok hs⟩
  | settable t k v =>
    obtain rfl := Option.some.inj hs
    exact ⟨X, h.settable (h.slot_mem k) (h.slot_mem v) hok⟩
  | gettable t k =>
    obtain rfl := Option.some.inj hs
    exact ⟨X, h.gettable (h.slot_mem t)⟩
  | constant c =>
    obtain rfl := Option.some.inj hs
    exact ⟨X, h.reply (.constant c)⟩
  | pushvalue i =>
    obtain rfl := Option.some.inj hs
    exact ⟨X, h.push (h.slot_mem i)⟩
  | pushglobals =>
    obtain rfl := Option.some.inj hs
    exact ⟨X, h.push h.globals_mem⟩
  | replace i =>
    obtain rfl := Option.some.inj hs
    refine ⟨X, h.hold ?_ (fun v => h.registry_mem)⟩
    intro v hv
    rcases List.mem_or_eq_of_mem_set ((List.dropLast_sublist _).subset hv) with hv | rfl
    · exact h.stack_mem hv
    · exact h.getLastD_mem (fun v => h.stack_mem)
  | settop n =>
    obtain rfl := Option.some.inj hs
    refine ⟨X, h.hold ?_ (fun v => h.registry_mem)⟩
    intro v hv
    exact h.stack_mem (List.mem_of_mem_take hv)
  | newtable =>
    obtain rfl := Option.some.inj hs
    refine ⟨X, (h.newTable ?_).push ?_⟩
    · intro w hw
      cases hw
    · exact h.confined.unallocated _ (Nat.le_refl s.tables.length)
  | closure captured =>
    obtain rfl := Option.some.inj hs
    refine ⟨X, (h.newClosures ?_).push ?_⟩
    · intro c hc w hw
      obtain rfl := List.mem_singleton.mp hc
      exact h.slots_mem captured w hw
    · exact h.confined.unallocated _ (Nat.le_refl s.closures.length)
  | java r =>
    obtain rfl := Option.some.inj hs
    exact ⟨X, h.reply r⟩
  | ref i =>
    obtain rfl := Option.some.inj hs
    refine ⟨X, h.hold (fun v => h.stack_mem) ?_⟩
    intro v hv
    rcases List.mem_append.mp hv with hv | hv
    · exact h.registry_mem hv
    · obtain rfl := List.mem_singleton.mp hv
      exact h.slot_mem i
  | unref ref =>
    obtain rfl := Option.some.inj hs
    refine ⟨X, h.hold (fun v => h.stack_mem) ?_⟩
    intro v hv
    rcases List.mem_or_eq_of_mem_set hv with hv | rfl
    · exact h.registry_mem hv
    · exact h.confined.unallocated _ trivial

/-- At the start there are no userdata, and the script may hold anything. -/
theorem inv_initial : Inv initial Set.univ := by
  have hnone : ∀ a, initial.touserdata (.userdata a) = none := fun a => rfl
  refine ⟨⟨⟨fun _ _ => trivial, fun _ _ _ _ => trivial⟩, fun _ _ => trivial⟩,
    ⟨?_, ?_, ?_, List.nodup_nil, ?_, ?_⟩, ?_⟩
  · intro a r hr
    simp [hnone] at hr
  · intro a u m hu
    simp [initial] at hu
  · intro m hm
    cases hm
  · intro a ha
    cases ha
  · intro a r hr
    simp [hnone] at hr
  · rintro a ⟨r, hr, _⟩
    simp [hnone] at hr

theorem valid_of_orderly (isNumeral : List UInt8 → Bool) {log : List (State × Action)}
    (run : Run (Step isNumeral) initial log s) (h : Meets Orderly log) : Visits Valid log s := by
  have hinv : Visits (fun s => ∃ X, Inv s X) log s := by
    apply run.visits_of_meets ⟨_, inv_initial⟩ _ h
    rintro s a s' ⟨X, hX⟩ hok hs
    exact hX.step hok hs
  apply hinv.imp
  rintro s ⟨X, hX⟩
  exact hX.valid

/-! ### Runs of scripts -/

def noNumeral (_ : List UInt8) : Bool := false

def name (s : String) : Action := .constant (.string s.toUTF8.toList)

def someObject : JavaObject := .object 0 0

def libraries : List Value :=
  .table 0 :: .table 1 :: (initial.refs (.table 0) ++ initial.refs (.table 1))

def pushed : State := initial.pushUserdata .pushJavaObject someObject

def dropped : State := { pushed with stack := [] }

/-- A Java object with its metatable, whose functions are stored from address 10 on. -/
def objectRefs (a m : Nat) : List Value :=
  [.userdata a, .table m, .ofString "__index", .function 10, .ofString "__newindex", .function 11,
    .ofString "__gc", .function 12, State.JLUAOBJECTIND, .boolean true]

def queued : State :=
  { dropped with
    udata := [⟨.reference 0, some 2, true⟩]
    tmudata := [0] }

def finalized : State :=
  { queued with
    globalRefs := [⟨.pushJavaObject, someObject, 0, true⟩]
    tmudata := [] }

def collection : Action := .atomic libraries (libraries ++ objectRefs 0 2) fun _ _ => false

theorem run_finalized : Run (Step noNumeral) initial
    [(initial, .java (.object .pushJavaObject someObject)), (pushed, .settop 0),
      (dropped, collection), (queued, .gctm [])] finalized := by
  have hpush : initial.step noNumeral (.java (.object .pushJavaObject someObject)) = some pushed :=
    rfl
  have hdrop : pushed.step noNumeral (.settop 0) = some dropped := rfl
  have hcollect : dropped.step noNumeral collection = some queued := by decide +kernel
  have hfinalize : queued.step noNumeral (.gctm []) = some finalized := by decide +kernel
  exact .next (.next (.next (.next .start hpush) hdrop) hcollect) hfinalize

/-- A Java object that the script drops is collected, and its reference is deleted then. -/
theorem valid_of_orderly_finalized : Visits Valid
    [(initial, .java (.object .pushJavaObject someObject)), (pushed, .settop 0),
      (dropped, collection), (queued, .gctm [])] finalized := by
  apply valid_of_orderly noNumeral run_finalized
  have hburies : Buries dropped libraries (libraries ++ objectRefs 0 2) fun _ _ => false := by
    have hnone : escapes dropped.isWeak
        (dropped.collected libraries (libraries ++ objectRefs 0 2) fun _ _ => false).refs
        libraries = [] := by decide +kernel
    intro a r _ _
    rw [hnone]
    exact not_reach_nil
  have hgc : queued.native (queued.getMetafield (.userdata 0) "__gc") = some .gc := by
    decide +kernel
  have hgctm : Orderly queued (.gctm []) := by
    intro a ha _ hne
    obtain rfl : a = 0 := by simpa [queued, eq_comm] using ha
    exact absurd hgc hne
  intro x hx
  simp only [List.mem_cons, List.not_mem_nil, or_false] at hx
  rcases hx with rfl | rfl | rfl | rfl
  · trivial
  · trivial
  · exact hburies
  · exact hgctm

/-- `getmetatable(o).__gc(o)`. -/
def explicitGc : List Action :=
  [.java (.object .pushJavaObject someObject), .pushglobals, name "getmetatable", .gettable 1 2,
    .call 3 [0] [], name "__gc", .gettable 4 5, .call 6 [0] []]

/-- `getmetatable(newproxy(true)).__IsJavaObject = true`. -/
def forgedProxy : List Action :=
  [.pushglobals, name "newproxy", .gettable 0 1, .constant (.boolean true), .call 2 [3] [],
    name "getmetatable", .gettable 0 5, .call 6 [4] [], name "__IsJavaObject", .settable 7 8 3]

/-- A table with weak keys, one of them a Java object that is held nowhere else, is collected
and then traversed. -/
def weakKey : List Action :=
  let table := [.table 2, .table 3, .ofString "__mode", .ofString "k", .boolean true]
  [.pushglobals, .newtable, .newtable, name "__mode", name "k", .settable 2 3 4,
    name "setmetatable", .gettable 0 5, .call 6 [1, 2] [], .settop 2,
    .java (.object .pushJavaObject someObject), .constant (.boolean true), .settable 1 2 3,
    .settop 2, .atomic (libraries ++ table) (libraries ++ table ++ objectRefs 0 4) fun _ _ => false,
    .gctm [], name "next", .gettable 0 2, .call 3 [1] []]

/-- A proxy whose finalizer gets at a Java object that was finalized before it. -/
def scriptFinalizer : List Action :=
  let proxy := [.userdata 0, .table 2, .ofString "o", .function 13]
  [.pushglobals, name "newproxy", .gettable 0 1, .constant (.boolean true), .call 2 [3] [],
    name "getmetatable", .gettable 0 5, .call 6 [4] [],
    .java (.object .pushJavaObject someObject), name "o", .settable 7 9 8,
    .closure [], name "__gc", .settable 7 11 10, .settop 0,
    .atomic libraries (libraries ++ proxy ++ objectRefs 1 3) fun _ _ => false,
    .gctm [], .gctm [],
    .pushglobals, name "getmetatable", .gettable 2 3, .call 4 [1] [], name "o", .gettable 5 6]

def EndsInvalid (actions : List Action) : Prop :=
  ∃ log s, Run (Step noNumeral) initial log s ∧ log.map Prod.snd = actions ∧ ¬ Valid s

theorem endsInvalid_of_trace {actions : List Action}
    (h : ((Run.trace (State.step noNumeral) actions initial []).any fun last =>
      decide (¬ Valid last.2)) = true) : EndsInvalid actions := by
  obtain ⟨log, s, run, hactions, hinvalid⟩ := Run.exists_of_trace
    (fun s => decide (¬ Valid s)) (fun _ _ _ => id) h
  exact ⟨log, s, run, hactions, of_decide_eq_true hinvalid⟩

/-- Each of the four conditions is needed. -/
theorem userdata_not_valid : EndsInvalid explicitGc ∧ EndsInvalid forgedProxy ∧
    EndsInvalid weakKey ∧ EndsInvalid scriptFinalizer := by
  refine ⟨?_, ?_, ?_, ?_⟩
  all_goals
    apply endsInvalid_of_trace
    decide +kernel

end JLua.UserdataValidity
