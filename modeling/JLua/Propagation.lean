import JLua.Marking

/-!
# Propagation

`propagatemark` takes one object off the gray list and marks what it keeps. The tables it goes
through lose the keys of their empty entries, and weak ones go to the list of weak tables.
-/

namespace JLua.Collector

set_option autoImplicit false

namespace State
variable {s s' s'' : State} {o x : Addr} {c : Color} {b : Body} {v : TValue} {T T' : Addr → Prop}

/-! ### Tables in another form -/

/-- Some tables have fewer entries or keys; all else is the same. -/
def SameTables (s s' : State) : Prop :=
  ∀ x, s'.heap x = s.heap x ∨ ∃ obj h h', s.heap x = some obj ∧ obj.body = .table h ∧
    s'.heap x = some { obj with body := .table h' } ∧
    ∀ wk wv, ∀ r ∈ h'.refs wk wv, r ∈ h.refs wk wv

theorem SameTables.refl (s : State) : SameTables s s := fun _ => .inl rfl

theorem SameTables.of_heap (h : s'.heap = s.heap) : SameTables s s' := fun x => .inl (by rw [h])

theorem SameTables.trans (h : SameTables s s') (h' : SameTables s' s'') : SameTables s s'' := by
  intro x
  rcases h x with heq | ⟨obj, t, t', hobj, hbody, hobj', hrefs⟩
  · rcases h' x with heq' | ⟨obj, t, t', hobj, hbody, hobj', hrefs⟩
    · exact .inl (heq'.trans heq)
    · exact .inr ⟨obj, t, t', heq ▸ hobj, hbody, hobj', hrefs⟩
  · rcases h' x with heq' | ⟨obj₁, t₁, t'', hobj₁, hbody₁, hobj'', hrefs'⟩
    · exact .inr ⟨obj, t, t', hobj, hbody, heq'.trans hobj', hrefs⟩
    · obtain rfl := Option.some.inj (hobj'.symm.trans hobj₁)
      obtain rfl : t' = t₁ := by simpa using hbody₁
      exact .inr ⟨obj, t, t'', hobj, hbody, hobj'', fun wk wv r hr =>
        hrefs wk wv r (hrefs' wk wv r hr)⟩

theorem body_eq_some : s.body x = some b ↔ ∃ obj, s.heap x = some obj ∧ obj.body = b :=
  Option.map_eq_some_iff

/-- What was not a table is what it was. -/
theorem SameTables.body (h : SameTables s s') (hk : b.kind ≠ .table) :
    s'.body x = some b ↔ s.body x = some b := by
  rcases h x with heq | ⟨obj, t, t', hobj, hbody, hobj', -⟩
  · rw [State.body, State.body, heq]
  · rw [State.body, State.body, hobj, hobj']
    simp only [Option.map_some, hbody, Option.some.injEq]
    constructor
    · rintro rfl
      exact absurd rfl hk
    · rintro rfl
      exact absurd rfl hk

theorem SameTables.table (h : SameTables s s') {t' : Table} (hx : s'.body x = some (.table t')) :
    ∃ t, s.body x = some (.table t) ∧ ∀ wk wv, ∀ r ∈ t'.refs wk wv, r ∈ t.refs wk wv := by
  rcases h x with heq | ⟨obj, t, t₁, hobj, hbody, hobj', hrefs⟩
  · refine ⟨t', ?_, fun _ _ _ => id⟩
    rwa [State.body, ← heq]
  · refine ⟨t, body_eq_some.mpr ⟨obj, hobj, hbody⟩, ?_⟩
    rw [State.body, hobj'] at hx
    obtain rfl : t₁ = t' := by simpa using hx
    exact hrefs

theorem SameTables.kind (h : SameTables s s') :
    (s'.body x).map Body.kind = (s.body x).map Body.kind := by
  rcases h x with heq | ⟨obj, t, t', hobj, hbody, hobj', -⟩
  · rw [State.body, State.body, heq]
  · rw [State.body, State.body, hobj, hobj']
    simp [hbody, Body.kind]

theorem SameTables.fits (h : SameTables s s') {r : Ref} : s'.Fits r ↔ s.Fits r := by
  have hk := h.kind (x := r.2)
  constructor
  · rintro ⟨b, hb, hr⟩
    rw [hb, Option.map_some, eq_comm, Option.map_eq_some_iff] at hk
    obtain ⟨b', hb', hkind⟩ := hk
    exact ⟨b', hb', hkind ▸ hr⟩
  · rintro ⟨b, hb, hr⟩
    rw [hb, Option.map_some, Option.map_eq_some_iff] at hk
    obtain ⟨b', hb', hkind⟩ := hk
    exact ⟨b', hb', hkind ▸ hr⟩

theorem SameTables.value (h : SameTables s s') : s'.value = s.value := by
  funext uv
  cases uv with
  | closed v => rfl
  | opened th level =>
    cases hb : s.body th with
    | none =>
      have hk := h.kind (x := th)
      rw [hb, Option.map_none, Option.map_eq_none_iff] at hk
      simp only [State.value, hb, hk]
    | some b =>
      by_cases hkind : b.kind = .table
      · have hk := h.kind (x := th)
        rw [hb, Option.map_some, Option.map_eq_some_iff] at hk
        obtain ⟨b', hb', hk'⟩ := hk
        simp only [State.value, hb, hb']
        cases b <;> cases hkind
        cases b' <;> cases hk'
        rfl
      · simp only [State.value, hb, (h.body hkind).mpr hb]

/-- The references of an object of the new state are some of those of the old one. -/
theorem SameTables.refs (h : SameTables s s') (hb : s'.body x = some b) :
    ∃ b', s.body x = some b' ∧ b'.kind = b.kind ∧ ∀ r ∈ s'.refs b, r ∈ s.refs b' := by
  by_cases hk : b.kind = .table
  · cases b with
    | table t =>
      obtain ⟨t', ht', hrefs⟩ := h.table hb
      exact ⟨.table t', ht', rfl, hrefs false false⟩
    | _ => cases hk
  · refine ⟨b, (h.body hk).mp hb, rfl, fun r hr => ?_⟩
    cases b <;> simpa only [State.refs, h.value] using hr

theorem SameTables.typed (h : SameTables s s') (ht : s.Typed) : s'.Typed := by
  intro o b hb r hr
  obtain ⟨b', hb', -, hrefs⟩ := h.refs hb
  exact h.fits.mpr (ht o b' hb' r (hrefs r hr))

theorem SameTables.keptRefs (h : SameTables s s') : s'.keptRefs = s.keptRefs := by
  funext c b
  cases b <;> simp only [State.keptRefs, State.refs, h.value]

theorem Marks.heap (h : Marks s s') : s'.heap = s.heap := by rw [h.eq]

theorem body_setBody (hx : x ≠ o) : (s.setBody o b).body x = s.body x := by
  rw [State.body, State.body, setBody]
  exact congrArg _ (Function.update_of_ne hx ..)

theorem body_setBody_self {b' : Body} (h : s.body o = some b') :
    (s.setBody o b).body o = some b := by
  obtain ⟨obj, hobj, -⟩ := body_eq_some.mp h
  simp [State.body, setBody, hobj]

theorem sameTables_setBody {t t' : Table} (h : s.body o = some (.table t))
    (hrefs : ∀ wk wv, ∀ r ∈ t'.refs wk wv, r ∈ t.refs wk wv) :
    SameTables s (s.setBody o (.table t')) := by
  intro x
  by_cases hx : x = o
  · obtain ⟨obj, hobj, hbody⟩ := body_eq_some.mp h
    refine .inr ⟨obj, t, t', hx ▸ hobj, hbody, ?_, hrefs⟩
    simp [setBody, hx, hobj]
  · exact .inl (Function.update_of_ne hx ..)

end State

/-! ### A table that was gone through -/

theorem Node.removeentry_val (n : Node) : n.removeentry.val = n.val := by
  unfold removeentry
  split <;> rfl

/-- Removing the keys of empty entries changes nothing that is marked. -/
theorem Table.marked_removeentries (h : Table) (wk wv : Bool) :
    h.removeentries.marked wk wv = h.marked wk wv := by
  simp only [Table.marked, Table.removeentries, ← List.map_reverse, List.flatMap_map]
  congr 2
  funext n
  by_cases hn : n.val = .nil
  · simp [hn, Node.removeentry_val]
  · simp [hn]

theorem Table.refs_congr {h h' : Table} (hmt : h'.metatable = h.metatable)
    (hmarked : ∀ wk wv, h'.marked wk wv = h.marked wk wv) (wk wv : Bool) :
    h'.refs wk wv = h.refs wk wv := by
  rw [Table.refs, Table.refs, hmt, hmarked]

/-! ### The frontier -/

namespace State
variable {s s' s'' : State} {o x : Addr} {c : Color} {b : Body} {v : TValue} {T T' : Addr → Prop}

/-- A marked object has the right color, and either it waits in the gray list, or all that it keeps
is marked, or it is one of those, in `T`, that the atomic step looks at again: objects of the other
lists, open upvalues, and userdata whose finalizer waits. -/
def Settles (T : Addr → Prop) (s : State) (o : Addr) : Prop :=
  ∀ b, s.body o = some b → s.marked o → b.mayBe (s.color o) = true ∧
    (b.listed = true ∧ s.color o = .gray ∧ o ∈ s.gray ∨
      T o ∧ (b.listed = true ∧ s.color o = .gray ∧ (o ∈ s.grayagain ∨ o ∈ s.weak) ∨
        b.isOpened = true ∨ b.kind = .userdata ∧ o ∈ s.tmudata) ∨
      s.Done o ∧ (b.listed = true → s.color o = .gray →
        b.kind = .thread ∧ o ∈ s.grayagain ∨ b.kind = .table ∧ o ∈ s.weak))

/-- The lists hold functions, tables, threads and prototypes only. -/
def Listed (s : State) (l : List Addr) : Prop :=
  ∀ o ∈ l, ∃ b, s.body o = some b ∧ b.listed = true

structure Tri (T : Addr → Prop) (s : State) : Prop where
  settles : ∀ o, s.Settles T o
  gray : s.Listed s.gray
  grayagain : s.Listed s.grayagain
  weak : s.Listed s.weak

theorem Settles.mono (h : s.Settles T o) (hT : T o → T' o) : s.Settles T' o := by
  intro b hb hm
  obtain ⟨hmay, hcase | ⟨hTo, hcase⟩ | hcase⟩ := h b hb hm
  · exact ⟨hmay, .inl hcase⟩
  · exact ⟨hmay, .inr (.inl ⟨hT hTo, hcase⟩)⟩
  · exact ⟨hmay, .inr (.inr hcase)⟩

/-- What a propagation leaves as it is. -/
def SameFrame (s s' : State) : Prop :=
  s' = { s with
    heap := s'.heap, color := s'.color, gray := s'.gray, grayagain := s'.grayagain,
    weak := s'.weak }

theorem SameFrame.trans (h : SameFrame s s') (h' : SameFrame s' s'') : SameFrame s s'' := by
  unfold SameFrame at *
  rw [h', h]

theorem Marks.sameFrame (h : Marks s s') : SameFrame s s' := by
  unfold SameFrame
  rw [h.eq]

/-- The steps of a propagation, as far as objects other than `o` are concerned. -/
structure Moves (o : Addr) (s s' : State) : Prop where
  frame : SameFrame s s'
  tables : SameTables s s'
  body : ∀ x, x ≠ o → s'.body x = s.body x
  keeps : ∀ x, x ≠ o → s.marked x → s'.color x = s.color x
  marked : s.marked o → s'.marked o
  whites : ∀ x, ¬s'.marked x → s'.color x = s.color x
  gray : ∀ x, x ≠ o → x ∈ s.gray → x ∈ s'.gray
  grayagain : ∀ x ∈ s.grayagain, x ∈ s'.grayagain
  weak : ∀ x ∈ s.weak, x ∈ s'.weak
  fresh : ∀ x, x ≠ o → ¬s.marked x → s'.marked x → ∃ b, s.body x = some b ∧
    (b.listed = true ∧ s'.color x = .gray ∧ x ∈ s'.gray ∨
      b.listed = false ∧ b.mayBe (s'.color x) = true ∧ s'.Done x)

theorem Marks.moves (h : Marks s s') (o : Addr) : Moves o s s' where
  frame := h.sameFrame
  tables := .of_heap h.heap
  body x _ := by rw [h.body]
  keeps x _ := h.keeps x
  marked := h.marked
  whites := h.whites
  gray x _ := h.gray x
  grayagain := by rw [h.eq]; exact fun _ => id
  weak := by rw [h.eq]; exact fun _ => id
  fresh x _ := h.fresh x

theorem Moves.mono (h : Moves o s s') (hx : s.marked x) : s'.marked x := by
  by_cases hxo : x = o
  · exact hxo ▸ h.marked (hxo ▸ hx)
  · rw [State.marked, h.keeps x hxo hx]
    exact hx

theorem Moves.done (h : Moves o s s') (hxo : x ≠ o) (hx : s.marked x) (hdone : s.Done x) :
    s'.Done x := by
  intro b hb r hr
  rw [h.body x hxo] at hb
  rw [h.tables.keptRefs, h.keeps x hxo hx] at hr
  exact h.mono (hdone b hb r hr)

theorem Moves.trans (h : Moves o s s') (h' : Moves o s' s'') : Moves o s s'' where
  frame := h.frame.trans h'.frame
  tables := h.tables.trans h'.tables
  body x hx := (h'.body x hx).trans (h.body x hx)
  keeps x hx hm := (h'.keeps x hx (h.mono hm)).trans (h.keeps x hx hm)
  marked hm := h'.marked (h.marked hm)
  whites x hx := (h'.whites x hx).trans (h.whites x fun hx' => hx (h'.mono hx'))
  gray x hx hg := h'.gray x hx (h.gray x hx hg)
  grayagain x hx := h'.grayagain x (h.grayagain x hx)
  weak x hx := h'.weak x (h.weak x hx)
  fresh x hx hm hm'' := by
    by_cases hm' : s'.marked x
    · obtain ⟨b, hb, ⟨hl, hc, hg⟩ | ⟨hl, hmay, hdone⟩⟩ := h.fresh x hx hm hm'
      · exact ⟨b, hb, .inl ⟨hl, (h'.keeps x hx hm').trans hc, h'.gray x hx hg⟩⟩
      · exact ⟨b, hb, .inr ⟨hl, by rwa [h'.keeps x hx hm'], h'.done hx hm' hdone⟩⟩
    · obtain ⟨b, hb, hcase⟩ := h'.fresh x hx hm' hm''
      exact ⟨b, (h.body x hx) ▸ hb, hcase⟩

/-- Other objects settle as before, and those that are marked now settle too. -/
theorem Moves.settles (h : Moves o s s') (hx : x ≠ o) (hs : s.Settles T x) : s'.Settles T x := by
  intro b hb hm'
  rw [h.body x hx] at hb
  by_cases hm : s.marked x
  · obtain ⟨hmay, hcase⟩ := hs b hb hm
    rw [h.keeps x hx hm]
    refine ⟨hmay, ?_⟩
    rcases hcase with ⟨hl, hc, hg⟩ | ⟨hT, hcase⟩ | ⟨hdone, hcase⟩
    · exact .inl ⟨hl, hc, h.gray x hx hg⟩
    · refine .inr (.inl ⟨hT, ?_⟩)
      rcases hcase with ⟨hl, hc, hlist⟩ | hcase | ⟨hk, htm⟩
      · exact .inl ⟨hl, hc, hlist.imp (h.grayagain x) (h.weak x)⟩
      · exact .inr (.inl hcase)
      · exact .inr (.inr ⟨hk, by rw [h.frame]; exact htm⟩)
    · refine .inr (.inr ⟨h.done hx hm hdone, fun hl hc => ?_⟩)
      rcases hcase hl hc with ⟨hk, hg⟩ | ⟨hk, hw⟩
      · exact .inl ⟨hk, h.grayagain x hg⟩
      · exact .inr ⟨hk, h.weak x hw⟩
  · obtain ⟨b', hb', hcase⟩ := h.fresh x hx hm hm'
    obtain rfl := Option.some.inj (hb.symm.trans hb')
    rcases hcase with ⟨hl, hc, hg⟩ | ⟨hl, hmay, hdone⟩
    · refine ⟨?_, .inl ⟨hl, hc, hg⟩⟩
      rw [hc]
      cases b <;> first | rfl | cases hl
    · exact ⟨hmay, .inr (.inr ⟨hdone, fun hl' => by rw [hl] at hl'; cases hl'⟩)⟩

/-! ### One object of the gray list -/

/-- The first object leaves the gray list with some color. -/
theorem moves_pop {rest : List Addr} (hc : c.isWhite = false) (hg : s.gray = o :: rest) :
    Moves o s { s.setColor o c with gray := rest } where
  frame := rfl
  tables := .of_heap rfl
  body _ _ := rfl
  keeps x hx _ := setColor_of_ne hx
  marked _ := by
    change Color.isWhite (Function.update s.color o c o) = false
    rwa [Function.update_self]
  whites x hx := setColor_of_ne fun hxo => hx <| by
    rw [hxo]
    change Color.isWhite (Function.update s.color o c o) = false
    rwa [Function.update_self]
  gray x hx hmem := by
    rw [hg] at hmem
    exact (List.mem_cons.mp hmem).resolve_left hx
  grayagain _ := id
  weak _ := id
  fresh x hx hm hm' := by
    refine absurd ?_ hm
    rwa [State.marked, show ({ s.setColor o c with gray := rest } : State).color x = s.color x
      from setColor_of_ne hx] at hm'

theorem moves_setColor (hc : c.isWhite = false) : Moves o s (s.setColor o c) where
  frame := rfl
  tables := .of_heap rfl
  body _ _ := rfl
  keeps x hx _ := setColor_of_ne hx
  marked _ := by rwa [State.marked, setColor_self]
  whites x hx := setColor_of_ne fun hxo => hx <| by rwa [hxo, State.marked, setColor_self]
  gray _ _ := id
  grayagain _ := id
  weak _ := id
  fresh x hx hm hm' := by
    refine absurd ?_ hm
    rwa [State.marked, setColor_of_ne hx] at hm'

theorem moves_setTable {t t' : Table} (h : s.body o = some (.table t))
    (hrefs : ∀ wk wv, ∀ r ∈ t'.refs wk wv, r ∈ t.refs wk wv) :
    Moves o s (s.setBody o (.table t')) where
  frame := rfl
  tables := sameTables_setBody h hrefs
  body _ hx := body_setBody hx
  keeps _ _ _ := rfl
  marked := id
  whites _ _ := rfl
  gray _ _ := id
  grayagain _ := id
  weak _ := id
  fresh _ _ hm hm' := absurd hm' hm

theorem moves_grayagain : Moves o s { s with grayagain := x :: s.grayagain } where
  frame := rfl
  tables := .of_heap rfl
  body _ _ := rfl
  keeps _ _ _ := rfl
  marked := id
  whites _ _ := rfl
  gray _ _ := id
  grayagain _ := List.mem_cons_of_mem _
  weak _ := id
  fresh _ _ hm hm' := absurd hm' hm

theorem moves_weak : Moves o s { s with weak := x :: s.weak } where
  frame := rfl
  tables := .of_heap rfl
  body _ _ := rfl
  keeps _ _ _ := rfl
  marked := id
  whites _ _ := rfl
  gray _ _ := id
  grayagain _ := id
  weak _ := List.mem_cons_of_mem _
  fresh _ _ hm hm' := absurd hm' hm

theorem settles_of_done (hb : s.body o = some b) (hmay : b.mayBe (s.color o) = true)
    (hrefs : ∀ r ∈ s.keptRefs (s.color o) b, s.marked r.2)
    (hlist : b.listed = true → s.color o = .gray →
      b.kind = .thread ∧ o ∈ s.grayagain ∨ b.kind = .table ∧ o ∈ s.weak) : s.Settles T o := by
  intro b' hb' _
  obtain rfl := Option.some.inj (hb.symm.trans hb')
  refine ⟨hmay, .inr (.inr ⟨fun b' hb' r hr => ?_, hlist⟩)⟩
  obtain rfl := Option.some.inj (hb.symm.trans hb')
  exact hrefs r hr

/-- A function or a prototype is black when it was traversed. -/
theorem settles_black (hb : s.body o = some b) (hmay : b.mayBe .black = true)
    (hc : s.color o = .black) (hrefs : ∀ r ∈ s.refs b, s.marked r.2) : s.Settles T o := by
  refine settles_of_done hb (hc ▸ hmay) (fun r hr => hrefs r ?_) fun _ hgray => ?_
  · rw [hc] at hr
    cases b <;> exact hr
  · rw [hc] at hgray
    cases hgray

/-- What holds of all tables or of none holds of the same objects. -/
theorem SameTables.pred (h : SameTables s s') {p : Body → Bool}
    (hp : ∀ t t', p (.table t) = p (.table t')) :
    (∃ b, s'.body x = some b ∧ p b = true) ↔ ∃ b, s.body x = some b ∧ p b = true := by
  rcases h x with heq | ⟨obj, t, t', hobj, hbody, hobj', -⟩
  · rw [State.body, State.body, heq]
  · rw [State.body, State.body, hobj, hobj']
    simp only [Option.map_some, Option.some.injEq, exists_eq_left', hbody, hp t' t]

theorem SameTables.listed (h : SameTables s s') :
    (∃ b, s'.body x = some b ∧ b.listed = true) ↔ ∃ b, s.body x = some b ∧ b.listed = true :=
  h.pred fun _ _ => rfl

theorem SameTables.covers (h : SameTables s s') {l : List Addr} (hl : s.Covers l) :
    s'.Covers l := by
  intro o b hb hlisted
  obtain ⟨b', hb', hlisted'⟩ := h.listed.mp ⟨b, hb, hlisted⟩
  exact hl o b' hb' hlisted'

/-- What the traversal of `o`, the first object of the gray list, comes to. -/
structure Propagates (o : Addr) (rest : List Addr) (s s' : State) : Prop where
  moves : Moves o s s'
  settles : ∀ T, s'.Settles T o
  gray : ∀ x ∈ s'.gray, x ∈ rest ∨ ∃ b, s.body x = some b ∧ b.listed = true
  grayagain : ∀ x ∈ s'.grayagain, x = o ∨ x ∈ s.grayagain
  weak : ∀ x ∈ s'.weak, x = o ∨ x ∈ s.weak
  count : ∀ l, s.Covers l →
    l.countP s'.iswhite + s'.gray.length < l.countP s.iswhite + s.gray.length

theorem count_pop (hc : c.isWhite = false) {rest : List Addr} (hg : s.gray = o :: rest)
    (l : List Addr) :
    l.countP ({ s.setColor o c with gray := rest } : State).iswhite + rest.length <
      l.countP s.iswhite + s.gray.length := by
  have hle : l.countP ({ s.setColor o c with gray := rest } : State).iswhite ≤
      l.countP s.iswhite := countP_setColor_le l s o hc
  rw [hg, List.length_cons]
  omega

/-- Objects that are black once they were traversed. -/
theorem propagates_black {rest : List Addr} (hg : s.gray = o :: rest) (hb : s.body o = some b)
    (hk : b.kind = .function ∨ b.kind = .proto)
    (h : Traverses (s.blacken o rest) s' (s.refs b)) :
    Propagates o rest s s' where
  moves := (moves_pop rfl hg).trans (h.1.moves o)
  settles T := by
    have hblack : (s.blacken o rest).color o = .black :=
      setColor_self
    have hb' : s'.body o = some b := by
      rw [h.1.body]
      exact hb
    refine settles_black hb' ?_ ?_ fun r hr => h.2 r ?_
    · cases b <;> first | rfl | (exfalso; revert hk; simp [Body.kind])
    · rw [h.1.keeps o (congrArg Color.isWhite hblack), hblack]
    · rwa [refs_congr h.1.body] at hr
  gray := h.1.listed
  grayagain x hx := .inr (by rw [h.1.eq] at hx; exact hx)
  weak x hx := .inr (by rw [h.1.eq] at hx; exact hx)
  count l hl := (h.1.count l hl).trans_lt (count_pop rfl hg l)

theorem propagates_thread {rest : List Addr} {th : Thread} (hg : s.gray = o :: rest)
    (hb : s.body o = some (.thread th))
    (h : Traverses (s.linkgrayagain o rest) s'
      th.refs) : Propagates o rest s s' := by
  have hgray : (s.linkgrayagain o rest).color o = .gray := setColor_self
  have hcolor := (h.1.keeps o (congrArg Color.isWhite hgray)).trans hgray
  have hagain := congrArg State.grayagain h.1.eq
  refine ⟨?_, fun T => ?_, h.1.listed, fun x hx => ?_, fun x hx => ?_, fun l hl => ?_⟩
  · exact ((moves_pop rfl hg).trans moves_grayagain).trans (h.1.moves o)
  · refine settles_of_done (b := .thread th) ?_ ?_ ?_ ?_
    · rw [h.1.body]
      exact hb
    · rw [hcolor]
      rfl
    · exact fun r hr => h.2 r hr
    · exact fun _ _ => .inl ⟨rfl, hagain ▸ List.mem_cons_self⟩
  · rw [hagain] at hx
    exact List.mem_cons.mp hx
  · exact .inr (by rw [h.1.eq] at hx; exact hx)
  · exact (h.1.count l hl).trans_lt (count_pop rfl hg l)

theorem moves_weakif (weak : Bool) :
    Moves o s (if weak then { s with weak := x :: s.weak } else s) := by
  cases weak with
  | true => exact moves_weak
  | false => exact (Marks.refl s).moves o

/-- Both cases of `traverseentries` in one. -/
theorem traverseentries_eq (s : State) (o : Addr) (h : Table) (wk wv : Bool) : ∃ h' : Table,
    h'.metatable = h.metatable ∧ (∀ wk wv, h'.marked wk wv = h.marked wk wv) ∧
    ((wk || wv) = true → h'.weakkey = wk ∧ h'.weakvalue = wv) ∧
    s.traverseentries o h wk wv =
      (((if wk || wv then { s with weak := o :: s.weak } else s).setBody o
        (.table h')).markvalues (h.marked wk wv), wk || wv) := by
  have hnone : h.marked true true = [] := by simp [Table.marked]
  cases wk <;> cases wv
  · exact ⟨h.removeentries, rfl, h.marked_removeentries, fun hw => (by cases hw), rfl⟩
  · exact ⟨({ h with weakkey := false, weakvalue := true } : Table).removeentries, rfl,
      Table.marked_removeentries _, fun _ => ⟨rfl, rfl⟩, rfl⟩
  · exact ⟨({ h with weakkey := true, weakvalue := false } : Table).removeentries, rfl,
      Table.marked_removeentries _, fun _ => ⟨rfl, rfl⟩, rfl⟩
  · refine ⟨{ h with weakkey := true, weakvalue := true }, rfl, fun _ _ => rfl,
      fun _ => ⟨rfl, rfl⟩, ?_⟩
    rw [hnone]
    rfl

/-- The table is gone through, its color aside. -/
theorem traversetable_spec {h : Table} (ht : s.Typed) (hb : s.body o = some (.table h)) :
    ∃ (h' : Table) (wk wv : Bool) (s' : State),
      s.traversetable o h = (s', wk || wv) ∧ Moves o s s' ∧ s'.body o = some (.table h') ∧
      ((wk || wv) = true → h'.weakkey = wk ∧ h'.weakvalue = wv ∧ o ∈ s'.weak) ∧
      (s.marked o → s'.color o = s.color o) ∧ (∀ r ∈ h'.refs wk wv, s'.marked r.2) ∧
      (∀ x ∈ s'.gray, x ∈ s.gray ∨ ∃ b, s.body x = some b ∧ b.listed = true) ∧
      s'.grayagain = s.grayagain ∧ (∀ x ∈ s'.weak, x = o ∨ x ∈ s.weak) ∧
      ∀ l, s.Covers l →
        l.countP s'.iswhite + s'.gray.length ≤ l.countP s.iswhite + s.gray.length := by
  have hm₁ := marks_marktableoption s h.metatable
  have hmt : ∀ r ∈ optionRefs .table h.metatable, (s.marktableoption h.metatable).marked r.2 :=
    marked_marktableoption fun r hr => ht o _ hb r (List.mem_append_left _ hr)
  unfold traversetable
  dsimp only
  generalize s.marktableoption h.metatable = s₁ at hm₁ hmt ⊢
  generalize (s₁.weakmode h.metatable).1 = wk
  generalize (s₁.weakmode h.metatable).2 = wv
  obtain ⟨h', hmeta, hmarked, hbits, heq⟩ := traverseentries_eq s₁ o h wk wv
  rw [heq]
  have hb₁ : s₁.body o = some (.table h) := hm₁.body ▸ hb
  have hm₂ : Moves o s₁ (if wk || wv then { s₁ with weak := o :: s₁.weak } else s₁) :=
    moves_weakif _
  have hs₂ : ∀ s₂, (if wk || wv then { s₁ with weak := o :: s₁.weak } else s₁) = s₂ →
      s₂.heap = s₁.heap ∧ s₂.color = s₁.color ∧ s₂.gray = s₁.gray ∧
      s₂.grayagain = s₁.grayagain ∧ (∀ x ∈ s₂.weak, x = o ∨ x ∈ s₁.weak) ∧
      ((wk || wv) = true → o ∈ s₂.weak) := by
    rintro s₂ rfl
    cases hweak : (wk || wv) with
    | true => exact ⟨rfl, rfl, rfl, rfl, fun x => List.mem_cons.mp, fun _ => List.mem_cons_self⟩
    | false => exact ⟨rfl, rfl, rfl, rfl, fun x => .inr, fun hw => by cases hw⟩
  generalize (if wk || wv then { s₁ with weak := o :: s₁.weak } else s₁) = s₂ at hm₂ hs₂ ⊢
  obtain ⟨hheap₂, hcolor₂, hgray₂, hagain₂, hweak₂, ho₂⟩ := hs₂ s₂ rfl
  have hb₂ : s₂.body o = some (.table h) := by rw [State.body, hheap₂]; exact hb₁
  have hrefs : ∀ a b, h'.refs a b = h.refs a b := Table.refs_congr hmeta hmarked
  have hm₃ : Moves o s₂ (s₂.setBody o (.table h')) :=
    moves_setTable hb₂ fun a b r hr => hrefs a b ▸ hr
  have htables : SameTables s (s₂.setBody o (.table h')) :=
    ((hm₁.moves o).trans (hm₂.trans hm₃)).tables
  have ht₃ := htables.typed ht
  have hfits : ∀ r ∈ (h.marked wk wv).flatMap TValue.refs,
      (s₂.setBody o (.table h')).Fits r := by
    intro r hr
    refine htables.fits.mpr (ht o _ hb r (List.mem_append_right _ ?_))
    obtain ⟨v, hv, hrv⟩ := List.mem_flatMap.mp hr
    refine List.mem_flatMap.mpr ⟨v, ?_, hrv⟩
    revert hv
    simp only [Table.marked, List.mem_append, List.mem_flatMap]
    cases wk <;> cases wv <;> grind
  have hm₄ := marks_markvalues ht₃ (h.marked wk wv)
  have hmarked₄ := marked_markvalues ht₃ hfits
  have hgray₃ : (s₂.setBody o (.table h')).gray = s₁.gray := hgray₂
  have hcolor₃ : (s₂.setBody o (.table h')).color = s₁.color := hcolor₂
  have hmono : ∀ {x}, s₁.marked x → (s₂.setBody o (.table h')).marked x := by
    intro x hx
    rwa [State.marked, hcolor₃]
  refine ⟨h', wk, wv, _, rfl, (hm₁.moves o).trans (hm₂.trans (hm₃.trans (hm₄.moves o))), ?_,
    fun hw => ?_, fun ho => ?_, fun r hr => ?_, fun x hx => ?_, ?_, fun x hx => ?_,
    fun l hl => ?_⟩
  · rw [hm₄.body]
    exact body_setBody_self hb₂
  · refine ⟨(hbits hw).1, (hbits hw).2, ?_⟩
    rw [hm₄.eq]
    exact ho₂ hw
  · rw [hm₄.keeps o (hmono (hm₁.marked ho)), hcolor₃, hm₁.keeps o ho]
  · rw [hrefs] at hr
    rcases List.mem_append.mp hr with hr | hr
    · exact hm₄.marked (hmono (hmt r hr))
    · exact hmarked₄ r hr
  · rcases hm₄.listed x hx with hx | hx
    · rw [hgray₃] at hx
      exact hm₁.listed x hx
    · exact .inr (htables.listed.mp hx)
  · rw [hm₄.eq]
    change s₂.grayagain = _
    rw [hagain₂, hm₁.eq]
  · rw [hm₄.eq] at hx
    rcases hweak₂ x hx with hx | hx
    · exact .inl hx
    · rw [hm₁.eq] at hx
      exact .inr hx
  · refine (hm₄.count l (htables.covers hl)).trans ?_
    rw [hgray₃, show (s₂.setBody o (.table h')).iswhite = s₁.iswhite by
      funext x
      rw [iswhite, hcolor₃]
      rfl]
    exact hm₁.count l hl

theorem propagates_table {rest : List Addr} {h : Table} (ht : s.Typed)
    (hg : s.gray = o :: rest) (hb : s.body o = some (.table h))
    (hs' : s' = match (s.blacken o rest).traversetable o h with
      | (s, weak) => if weak then s.setColor o .gray else s) : Propagates o rest s s' := by
  have hpop : Moves o s (s.blacken o rest) := moves_pop rfl hg
  have hcount : ∀ l : List Addr, l.countP (s.blacken o rest).iswhite + rest.length <
      l.countP s.iswhite + s.gray.length := count_pop rfl hg
  have hblack : (s.blacken o rest).color o = .black :=
    setColor_self
  have hgray : (s.blacken o rest).gray = rest := rfl
  have hrest : (s.blacken o rest).grayagain = s.grayagain ∧
      (s.blacken o rest).weak = s.weak ∧
      (s.blacken o rest).heap = s.heap := ⟨rfl, rfl, rfl⟩
  generalize (s.blacken o rest) = s₀ at *
  obtain ⟨hagain, hweak, hheap⟩ := hrest
  have hbody : s₀.body = s.body := by
    funext x
    rw [State.body, State.body, hheap]
  obtain ⟨h', wk, wv, s₁, heq, hmoves, hb₁, hbits, hcolor, hmarked, hlisted, hagain₁, hweak₁,
    hcount₁⟩ := traversetable_spec (ht.congr hbody) (hbody ▸ hb)
  rw [heq] at hs'
  dsimp only at hs'
  have hcolor₁ := (hcolor (congrArg Color.isWhite hblack)).trans hblack
  have hgray₁ : ∀ x ∈ s₁.gray, x ∈ rest ∨ ∃ b, s.body x = some b ∧ b.listed = true := by
    rwa [hgray, hbody] at hlisted
  have hlt : ∀ l, s.Covers l →
      l.countP s₁.iswhite + s₁.gray.length < l.countP s.iswhite + s.gray.length := fun l hl =>
    (hcount₁ l (hl.congr hbody)).trans_lt (hgray ▸ hcount l)
  rw [hagain] at hagain₁
  rw [hweak] at hweak₁
  cases hw : (wk || wv) with
  | false =>
    rw [hw, if_neg Bool.false_ne_true] at hs'
    obtain ⟨rfl, rfl⟩ : wk = false ∧ wv = false := by simpa using hw
    subst hs'
    refine ⟨hpop.trans hmoves, fun T => ?_, hgray₁, fun x hx => .inr (hagain₁ ▸ hx), hweak₁, hlt⟩
    exact settles_black hb₁ rfl hcolor₁ hmarked
  | true =>
    rw [hw, if_pos rfl] at hs'
    obtain ⟨hwk, hwv, ho⟩ := hbits hw
    subst hs'
    refine ⟨(hpop.trans hmoves).trans (moves_setColor rfl), fun T => ?_, hgray₁,
      fun x hx => .inr (hagain₁ ▸ hx), hweak₁, fun l hl => ?_⟩
    · refine settles_of_done (b := .table h') hb₁ (by rw [setColor_self]; rfl) ?_
        fun _ _ => .inr ⟨rfl, ho⟩
      intro r hr
      have hr' : s₁.marked r.2 := by
        rw [setColor_self] at hr
        refine hmarked r ?_
        rw [← hwk, ← hwv]
        exact hr
      by_cases hro : r.2 = o
      · rw [hro, State.marked, setColor_self]
        rfl
      · rwa [State.marked, setColor_of_ne hro]
    · refine lt_of_le_of_lt ?_ (hlt l hl)
      exact Nat.add_le_add_right (countP_setColor_le l s₁ o rfl) _

theorem propagates_propagatemark {rest : List Addr} (ht : s.Typed) (hg : s.gray = o :: rest)
    (ho : ∃ b, s.body o = some b ∧ b.listed = true) : Propagates o rest s s.propagatemark := by
  obtain ⟨b, hb, hl⟩ := ho
  have ht' : (s.blacken o rest).Typed := ht.congr rfl
  unfold propagatemark
  rw [hg]
  dsimp only
  rw [hb]
  cases b with
  | table h => exact propagates_table ht hg hb rfl
  | function cl =>
    exact propagates_black hg hb (.inl rfl) (traverses_closure ht' cl fun r hr => ht' o _ hb r hr)
  | thread th =>
    have ht' : (s.linkgrayagain o rest).Typed := ht.congr rfl
    exact propagates_thread hg hb (traverses_stack ht' th fun r hr => ht' o _ hb r hr)
  | proto p =>
    exact propagates_black hg hb (.inr rfl) (traverses_proto ht' p fun r hr => ht' o _ hb r hr)
  | _ => cases hl

/-- What a propagation does to the state as a whole. -/
structure Advances (s s' : State) : Prop where
  frame : SameFrame s s'
  tables : SameTables s s'
  mono : ∀ x, s.marked x → s'.marked x
  whites : ∀ x, ¬s'.marked x → s'.color x = s.color x
  grayagain : ∀ x ∈ s.grayagain, x ∈ s'.grayagain
  weak : ∀ x ∈ s.weak, x ∈ s'.weak

theorem Advances.refl (s : State) : Advances s s :=
  ⟨rfl, .refl s, fun _ => id, fun _ _ => rfl, fun _ => id, fun _ => id⟩

theorem Advances.trans (h : Advances s s') (h' : Advances s' s'') : Advances s s'' where
  frame := h.frame.trans h'.frame
  tables := h.tables.trans h'.tables
  mono x hx := h'.mono x (h.mono x hx)
  whites x hx := (h'.whites x hx).trans (h.whites x fun hx' => hx (h'.mono x hx'))
  grayagain x hx := h'.grayagain x (h.grayagain x hx)
  weak x hx := h'.weak x (h.weak x hx)

theorem Moves.advances (h : Moves o s s') : Advances s s' :=
  ⟨h.frame, h.tables, fun _ => h.mono, h.whites, h.grayagain, h.weak⟩

theorem Marks.advances (h : Marks s s') : Advances s s' := (h.moves 0).advances

theorem Listed.tables {l : List Addr} (h : s.Listed l) (hs : SameTables s s') : s'.Listed l :=
  fun x hx => hs.listed.mpr (h x hx)

theorem Propagates.tri {rest : List Addr} (h : Propagates o rest s s')
    (hg : s.gray = o :: rest) (ht : Tri T s) : Tri T s' := by
  have ho := ht.gray o (hg ▸ List.mem_cons_self)
  constructor
  · intro x
    by_cases hx : x = o
    · exact hx ▸ h.settles T
    · exact h.moves.settles hx (ht.settles x)
  · intro x hx
    refine h.moves.tables.listed.mpr ?_
    rcases h.gray x hx with hx | hx
    · exact ht.gray x (hg ▸ List.mem_cons_of_mem o hx)
    · exact hx
  · intro x hx
    refine h.moves.tables.listed.mpr ?_
    rcases h.grayagain x hx with rfl | hx
    · exact ho
    · exact ht.grayagain x hx
  · intro x hx
    refine h.moves.tables.listed.mpr ?_
    rcases h.weak x hx with rfl | hx
    · exact ho
    · exact ht.weak x hx

/-- Marking alone keeps the frontier. -/
theorem Marks.tri (h : Marks s s') (ht : Tri T s) : Tri T s' := by
  have hagain : s'.grayagain = s.grayagain := by rw [h.eq]
  have hweak : s'.weak = s.weak := by rw [h.eq]
  constructor
  · intro x
    -- any other object will do for the one that `Moves` leaves out
    exact (h.moves (x + 1)).settles (Nat.ne_of_lt (Nat.lt_succ_self x)) (ht.settles x)
  · intro x hx
    rw [h.body]
    rcases h.listed x hx with hx | hx
    · exact ht.gray x hx
    · exact hx
  · rw [hagain]
    exact ht.grayagain.tables (.of_heap h.heap)
  · rw [hweak]
    exact ht.weak.tables (.of_heap h.heap)

/-- The rounds are enough: each takes one from the number of gray and white objects. -/
theorem propagate_spec (rounds : Nat) (ht : s.Typed) (h : Tri T s) {l : List Addr}
    (hl : s.Covers l) (hrounds : l.countP s.iswhite + s.gray.length ≤ rounds) :
    Advances s (propagate rounds s) ∧ Tri T (propagate rounds s) ∧
      (propagate rounds s).gray = [] := by
  induction rounds generalizing s with
  | zero =>
    refine ⟨Advances.refl s, h, List.length_eq_zero_iff.mp ?_⟩
    rw [propagate]
    omega
  | succ rounds ih =>
    rw [propagate]
    split
    next hg => exact ⟨Advances.refl s, h, hg⟩
    next hg =>
      obtain ⟨o, rest, hg⟩ := List.exists_cons_of_ne_nil hg
      have ho := h.gray o (hg ▸ List.mem_cons_self)
      have hp := propagates_propagatemark ht hg ho
      have hlt := hp.count l hl
      obtain ⟨ha, htri, hempty⟩ := ih (hp.moves.tables.typed ht) (hp.tri hg h)
        (hp.moves.tables.covers hl) (by omega)
      exact ⟨hp.moves.advances.trans ha, htri, hempty⟩

theorem propagateall_spec (ht : s.Typed) (h : Tri T s) (hl : s.Covers s.rootgc) :
    Advances s s.propagateall ∧ Tri T s.propagateall ∧ s.propagateall.gray = [] := by
  refine propagate_spec _ ht h hl ?_
  have := List.countP_le_length (p := s.iswhite) (l := s.rootgc)
  omega

end State
end JLua.Collector
