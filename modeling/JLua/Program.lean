import Mathlib.Logic.Relation
import JLua.Lib.ObjectGraph
import JLua.OpenUpvalues

/-!
# Programs and their collector

What a program does to the heap, in any order, with the collector's steps anywhere in between.
Nothing that the program can reach is ever freed.
-/

namespace JLua.Collector

set_option autoImplicit false

namespace State
variable {s s' : State} {o x th : Addr} {b b' : Body} {v : TValue} {t : Thread} {r : Ref}

/-! ### What can be reached -/

def refsAt (s : State) (r : Ref) : List Ref := (s.body r.2).elim [] s.refs

/-- From the roots, along all references, those of weak tables too. -/
def Reached (s : State) (o : Addr) : Prop :=
  ∃ role, ObjectGraph.Reach s.refsAt s.roots (role, o)

/-- The program has the object, and it is of the right kind. -/
def Usable (s : State) (r : Ref) : Prop := s.Reached r.2 ∧ s.Fits r

theorem Sound.closed (h : s.Sound) : ObjectGraph.Closed s.refsAt s.roots {r | s.Holds r} := by
  refine ⟨h.roots, fun r hr r' hr' => ?_⟩
  obtain ⟨⟨b, hb, -⟩, hk⟩ := hr
  rw [refsAt, hb] at hr'
  exact h.refs r.2 b hb hk r' hr'

theorem Sound.reached (h : s.Sound) (hr : s.Reached o) : ∃ role, s.Holds (role, o) := by
  obtain ⟨role, hr⟩ := hr
  exact ⟨role, h.closed.reach hr⟩

theorem Sound.keeps_reached (h : s.Sound) (hr : s.Reached o) : s.keeps o = true := by
  obtain ⟨role, hr⟩ := h.reached hr
  exact hr.2

theorem Sound.usable (h : s.Sound) (hr : s.Usable r) : s.Holds r :=
  ⟨hr.2, h.keeps_reached hr.1⟩

/-! ### Closures -/

/-- The upvalues of a closure that the thread makes: those of the function that runs, and places in
its stack. Nothing is collected in between. -/
inductive Captures (s₀ : State) (th : Addr) : State → List Addr → State → Prop where
  | nil (s : State) : Captures s₀ th s [] s
  | shared {s s' : State} {uvs : List Addr} (uv : Addr) (huv : s₀.Usable (.upval, uv))
    (hrest : Captures s₀ th s uvs s') : Captures s₀ th s (uv :: uvs) s'
  | place {s s' : State} {uvs : List Addr} (level : Nat) (uv : Addr) (hfresh : s.heap uv = none)
    (hrest : Captures s₀ th (s.findupval th level uv).1 uvs s') :
    Captures s₀ th s ((s.findupval th level uv).2 :: uvs) s'

theorem captures_inv {s₀ : State} {uvs : List Addr} (hcap : Captures s₀ th s uvs s')
    (h₀ : s₀.Sound) (h : s.Inv) (hth : s.Holds (.thread, th))
    (hmono : ∀ r, s₀.Holds r → s.Holds r) :
    s'.Inv ∧ (∀ r, s.Holds r → s'.Holds r) ∧ (∀ uv ∈ uvs, s'.Holds (.upval, uv)) ∧
      s'.running = s.running := by
  induction hcap with
  | nil s => exact ⟨h, fun _ => id, fun uv huv => (by cases huv), rfl⟩
  | shared uv huv _ ih =>
    obtain ⟨h', hmono', huvs, hrun⟩ := ih h hth hmono
    refine ⟨h', hmono', fun uv' huv' => ?_, hrun⟩
    rcases List.mem_cons.mp huv' with rfl | huv'
    · exact hmono' _ (hmono _ (h₀.usable huv))
    · exact huvs uv' huv'
  | place level uv hfresh _ ih =>
    obtain ⟨⟨b, hb, hacc⟩, hk⟩ := id hth
    cases b with
    | thread t =>
      obtain ⟨h₁, hmono₁, huv₁, hrun₁⟩ := findupval_inv h hb hk hfresh level
      obtain ⟨h', hmono', huvs, hrun⟩ := ih h₁ (hmono₁ _ hth) fun r hr => hmono₁ r (hmono r hr)
      refine ⟨h', fun r hr => hmono' r (hmono₁ r hr), fun uv' huv' => ?_, hrun.trans hrun₁⟩
      rcases List.mem_cons.mp huv' with rfl | huv'
      · exact hmono' _ huv₁
      · exact huvs uv' huv'
    | _ => cases hacc

/-! ### Steps -/

/-- One step of the collector, or of the program. The program changes and uses what it can reach.
`lua_setupvalue` is not among the steps: its barrier is about the closure and not the upvalue, so a
black upvalue that another closure shares can get a white value. -/
inductive Step (s : State) : State → Prop where
  | singlestep : Step s s.singlestep
  | abandon : Step s s.abandon
  | fullgc (hst : s.gcstate = .finalize) : Step s s.markroot
  | stack (th : Addr) (t : Thread) (stack : List TValue) (hth : s.Reached th)
    (ht : s.body th = some (.thread t)) (hrefs : ∀ v ∈ stack, ∀ r ∈ v.refs, s.Usable r) :
    Step s (s.setBody th (.thread { t with stack }))
  | settable (o : Addr) (h h' : Table) (key v : TValue) (ho : s.Reached o)
    (hb : s.body o = some (.table h)) (hkey : ∀ r ∈ key.refs, s.Usable r)
    (hv : ∀ r ∈ v.refs, s.Usable r)
    (hrefs : ∀ r ∈ h'.refs false false, r ∈ h.refs false false ∨ r ∈ key.refs ∨ r ∈ v.refs) :
    Step s (((s.setBody o (.table h')).barriert o key).barriert o v)
  | metatable (o mt : Addr) (h : Table) (ho : s.Reached o) (hb : s.body o = some (.table h))
    (hmt : s.Usable (.table, mt)) :
    Step s ((s.setBody o (.table { h with metatable := some mt })).objbarriert o mt)
  | assign (o a : Addr) (b b' : Body) (ho : s.Reached o) (hb : s.body o = some b)
    (hkind : b.kind ≠ .table) (hw : Rewrites b b') (ha : s.Usable (.value, a))
    (hrefs : ∀ r ∈ s.refs b', r ∈ s.refs b ∨ r.2 = a ∧ s.Usable r) :
    Step s ((s.setBody o b').objbarrier o a)
  | erase (o : Addr) (b b' : Body) (ho : s.Reached o) (hb : s.body o = some b)
    (hw : Rewrites b b') (hrefs : ∀ r ∈ s.refs b', r ∈ s.refs b) : Step s (s.setBody o b')
  | newobject (o : Addr) (b : Body) (hfresh : s.heap o = none) (hroot : b.isRoot = true)
    (hkind : b.kind ≠ .upval) (hthread : ∀ t, b = .thread t → t.openupval = [])
    (hrefs : ∀ r ∈ s.refs b, s.Usable r) :
    Step s ((s.newobject o b).push s.running (.object o))
  | newudata (o env : Addr) (hfresh : s.heap o = none) (henv : s.Usable (.table, env)) :
    Step s ((s.newudata o env).push s.running (.object o))
  | newlstr (o : Addr) (bytes : List UInt8) (hfresh : s.heap o = none) (hstrt : s.strt ≠ []) :
    Step s ((s.newlstr bytes o).1.push s.running (.object (s.newlstr bytes o).2))
  | closure (o env p : Addr) (uvs : List Addr) (s₁ : State)
    (hcap : Captures s s.running s uvs s₁) (hfresh : s₁.heap o = none)
    (henv : s.Usable (.table, env)) (hp : s.Usable (.proto, p)) :
    Step s ((s₁.newobject o (.function (.lua env p uvs))).push s.running (.object o))
  | close (th : Addr) (level : Nat) (hth : s.Reached th) : Step s (s.close th level)
  | resume (th : Addr) (hth : s.Usable (.thread, th)) : Step s { s with running := th }
  | setmetatable (mt : List (Option Addr))
    (hmt : ∀ r ∈ mt.flatMap (optionRefs .table), s.Usable r) : Step s { s with mt }

theorem stack_step (h : s.Inv) {stack : List TValue} (hth : s.Reached th)
    (ht : s.body th = some (.thread t)) (hrefs : ∀ v ∈ stack, ∀ r ∈ v.refs, s.Usable r) :
    (s.setBody th (.thread { t with stack })).Inv := by
  refine stack_inv h ht stack (fun v hv r hr => h.sound.usable (hrefs v hv r hr)) fun r hr => ?_
  exact h.sound.refs th _ ht (h.sound.keeps_reached hth) r (List.mem_append_left _ hr)

theorem erase_step (h : s.Inv) (ho : s.Reached o) (hb : s.body o = some b) (hw : Rewrites b b')
    (hrefs : ∀ r ∈ s.refs b', r ∈ s.refs b) : (s.setBody o b').Inv := by
  refine write_inv hb hw h (fun r hr => ?_) fun hst hc htm r hr => ?_
  · exact h.sound.refs o b hb (h.sound.keeps_reached ho) r (hrefs r hr)
  · exact (h.marking hst).tri.frontier.black o b hb hc htm r (hrefs r hr)

/-- A new object is put on the stack at once. -/
theorem push_new (h : s.Inv) (hrun : s.running = th) (hb : s.body o = some b)
    (hkind : b.kind ≠ .upval) (hk : s.keeps o = true) : (s.push th (.object o)).Inv := by
  have hkrun := h.sound.keeps_running
  rw [hrun] at hkrun
  refine (push_inv h hkrun fun r hr => ?_).1
  obtain rfl := List.mem_singleton.mp hr
  exact ⟨⟨b, hb, hkind⟩, hk⟩

theorem Creates.push (h : Creates o b s s') (hs : s.Inv) (hkind : b.kind ≠ .upval)
    (hrefs : ∀ r ∈ s.refs b, s.Holds r) : (s'.push s.running (.object o)).Inv :=
  push_new (h.inv hs hrefs) (by rw [h.frame]; rfl) h.body_self hkind h.keeps_self

/-- Threads that run next, and metatables of basic types, are marked in the atomic step. -/
theorem roots_inv (h : s.Inv) {running : Addr} {mt : List (Option Addr)}
    (hrun : s.Holds (.thread, running)) (hmt : ∀ r ∈ mt.flatMap (optionRefs .table), s.Holds r) :
    ({ s with running, mt } : State).Inv := by
  have hl := h.lists
  refine ⟨⟨hl.rootNodup, hl.mem_root, hl.tmudata, hl.finalized, hl.strNodup, hl.mem_strt,
    hl.uvNodup, hl.mem_uvhead, hl.openNodup, hl.mem_open, hl.thread, hl.main⟩,
    ⟨h.sound.refs, fun r hr => ?_, h.sound.fixed⟩, h.colored, fun hst => ?_, fun hst => ?_⟩
  · rcases List.mem_cons.mp hr with rfl | hr
    · exact h.sound.roots _ List.mem_cons_self
    rcases List.mem_cons.mp hr with rfl | hr
    · exact hrun
    rcases List.mem_append.mp hr with hr | hr
    · refine h.sound.roots r ?_
      exact List.mem_append_left _ (List.mem_cons_of_mem _ (List.mem_cons_of_mem _ hr))
    · exact hmt r hr
  · have hmark := h.marking hst
    exact ⟨⟨hmark.tri.settles, hmark.tri.gray, hmark.tri.grayagain, hmark.tri.weak⟩,
      hmark.alive, hmark.main, hmark.registry⟩
  · have hsweeping := h.sweeping hst
    exact ⟨hsweeping.pending, hsweeping.tmudata⟩

theorem Sound.holds_running (h : s.Sound) : s.Holds (.thread, s.running) :=
  h.roots (.thread, s.running) (by simp [State.roots])

theorem Sound.holds_mt (h : s.Sound) : ∀ r ∈ s.mt.flatMap (optionRefs .table), s.Holds r :=
  fun r hr => h.roots r (List.mem_append_right _ hr)

theorem closure_step {s₁ : State} {env p : Addr} {uvs : List Addr} (h : s.Inv)
    (hcap : Captures s s.running s uvs s₁) (hfresh : s₁.heap o = none)
    (henv : s.Usable (.table, env)) (hp : s.Usable (.proto, p)) :
    ((s₁.newobject o (.function (.lua env p uvs))).push s.running (.object o)).Inv := by
  obtain ⟨h₁, hmono, huvs, hrun⟩ := captures_inv hcap h.sound h h.sound.holds_running fun _ => id
  have hc := creates_newobject (b := .function (.lua env p uvs)) hfresh rfl fun t hf => by cases hf
  rw [← hrun]
  refine hc.push h₁ (by simp [Body.kind]) fun r hr => ?_
  rcases List.mem_cons.mp hr with rfl | hr
  · exact hmono _ (h.sound.usable henv)
  rcases List.mem_cons.mp hr with rfl | hr
  · exact hmono _ (h.sound.usable hp)
  · obtain ⟨uv, huv, rfl⟩ := List.mem_map.mp hr
    exact huvs uv huv

theorem Step.inv (hstep : Step s s') (h : s.Inv) : s'.Inv := by
  have hsound := h.sound
  cases hstep with
  | singlestep => exact singlestep_inv h
  | abandon => exact abandon_inv h
  | fullgc hst => exact markroot_inv h (.inr hst)
  | stack th t stack hth ht hrefs => exact stack_step h hth ht hrefs
  | settable o t t' key v ho hb hkey hv hrefs =>
    exact settable_inv h hb (hsound.keeps_reached ho) (fun r hr => hsound.usable (hkey r hr))
      (fun r hr => hsound.usable (hv r hr)) hrefs
  | metatable o mt t ho hb hmt =>
    exact metatable_inv h hb (hsound.keeps_reached ho) (hsound.usable hmt)
  | assign o a b b' ho hb _ hw ha hrefs =>
    refine forward_inv h hb hw (hsound.keeps_reached ho) (hsound.usable ha) fun r hr => ?_
    exact (hrefs r hr).imp_right fun hr => ⟨hr.1, hsound.usable hr.2⟩
  | erase o b b' ho hb hw hrefs => exact erase_step h ho hb hw hrefs
  | newobject o b hfresh hroot hkind hthread hrefs =>
    exact (creates_newobject hfresh hroot hthread).push h hkind fun r hr =>
      hsound.usable (hrefs r hr)
  | newudata o env hfresh henv =>
    refine (creates_newudata h.lists hfresh env).push h (by simp [Body.kind]) fun r hr => ?_
    obtain rfl := List.mem_singleton.mp hr
    exact hsound.usable henv
  | newlstr o bytes hfresh hstrt =>
    obtain ⟨h₁, -, hb, hk, hrun⟩ := newlstr_inv h hstrt hfresh bytes
    exact push_new h₁ hrun hb (by simp [Body.kind]) hk
  | closure o env p uvs s₁ hcap hfresh henv hp => exact closure_step h hcap hfresh henv hp
  | close th level hth => exact close_inv h th level
  | resume th hth => exact roots_inv h (hsound.usable hth) hsound.holds_mt
  | setmetatable mt hmt =>
    exact roots_inv h hsound.holds_running fun r hr => hsound.usable (hmt r hr)

/-! ### Runs -/

/-- Steps of the collector, one after the other. -/
def singlesteps : Nat → State → State
  | 0, s => s
  | n + 1, s => singlesteps n s.singlestep

def emptyTable : Table := ⟨none, [], [], false, false⟩

def firstHeap : Addr → Option GCObject
  | 0 => some ⟨.thread ⟨.object 1, [], []⟩, true, false⟩
  | 1 => some ⟨.table emptyTable, false, false⟩
  | 2 => some ⟨.table emptyTable, false, false⟩
  | 3 => some ⟨.string [95, 95, 109, 111, 100, 101], true, false⟩
  | 4 => some ⟨.string [95, 95, 103, 99], true, false⟩
  | _ => none

def beforeStrings : State where
  heap := firstHeap
  color := fun _ => .white false
  swept := []
  unswept := [2, 1, 0]
  strt := List.replicate MINSTRTABSIZE []
  nuse := 2
  sweepstrgc := 0
  gray := []
  grayagain := []
  weak := []
  tmudata := []
  uvhead := []
  currentwhite := false
  gcstate := .pause
  mainthread := 0
  registry := .object 2
  mt := List.replicate 9 none
  modeName := 3
  gcName := 4
  running := 0

/-- What `lua_newstate` makes: the main thread, its globals, the registry; of the fixed strings
only the two that the collector asks for. -/
def newstate : State :=
  { beforeStrings with strt := [3, 4].foldl beforeStrings.chain beforeStrings.strt }

/-- A table was made that nothing refers to any more. -/
def dropped : State :=
  ((newstate.newobject 5 (.table emptyTable)).push 0 (.object 5)).setBody 0
    (.thread ⟨.object 1, [], []⟩)

/-- Another table is marked already, and one more is made. -/
def halfway : State :=
  ((singlesteps 5 ((dropped.newobject 6 (.table emptyTable)).push 0 (.object 6))).newobject 7
    (.table emptyTable)).push 0 (.object 7)

/-- That one is the metatable of the other now, and not on the stack. -/
def linked : State :=
  ((halfway.setBody 6 (.table ⟨some 7, [], [], false, false⟩)).objbarriert 6 7).setBody 0
    (.thread ⟨.object 1, [.object 6], []⟩)

/-- The collection that has begun goes to its end, and a full one follows it. -/
def collected : State := singlesteps 40 (singlesteps 34 linked).markroot

end State
end JLua.Collector
