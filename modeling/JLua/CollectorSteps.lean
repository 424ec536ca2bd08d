import JLua.AtomicStep

/-!
# The steps of the collector

Every step of the collector keeps the invariant, in whatever phase it is.
-/

namespace JLua.Collector

set_option autoImplicit false

namespace State
variable {s s' s'' : State} {o x : Addr} {c : Color} {b : Body} {v : TValue} {T T' : Addr → Prop}

/-! ### The frontier while the program runs -/

/-- A black object refers to marked ones, and a gray one waits in a list. -/
structure Frontier (s : State) : Prop where
  black : ∀ o b, s.body o = some b → s.color o = .black → o ∉ s.tmudata →
    ∀ r ∈ s.refs b, s.marked r.2
  waits : ∀ o b, s.body o = some b → s.color o = .gray → b.listed = true →
    o ∈ s.gray ∨ o ∈ s.grayagain ∨ o ∈ s.weak
  gray : s.Listed s.gray
  grayagain : s.Listed s.grayagain
  weak : s.Listed s.weak

theorem Tri.frontier (h : Tri T s) : s.Frontier := by
  refine ⟨fun o b hb hc htm r hr => ?_, fun o b hb hc hl => ?_, h.gray, h.grayagain, h.weak⟩
  · have hm : s.marked o := by rw [State.marked, hc]; rfl
    obtain ⟨hmay, ⟨-, hc', -⟩ | ⟨-, hcase⟩ | ⟨hdone, -⟩⟩ := h.settles o b hb hm
    · rw [hc] at hc'
      cases hc'
    · rcases hcase with ⟨-, hc', -⟩ | hopened | ⟨-, htm'⟩
      · rw [hc] at hc'
        cases hc'
      · obtain ⟨th, level, rfl⟩ := eq_opened_of_isOpened hopened
        rw [hc] at hmay
        cases hmay
      · exact absurd htm' htm
    · refine hdone b hb r ?_
      rw [hc]
      cases b <;> exact hr
  · have hm : s.marked o := by rw [State.marked, hc]; rfl
    obtain ⟨-, ⟨-, -, hg⟩ | ⟨-, hcase⟩ | ⟨-, hcase⟩⟩ := h.settles o b hb hm
    · exact .inl hg
    · rcases hcase with ⟨-, -, hlist⟩ | hopened | ⟨hk, -⟩
      · exact .inr hlist
      · obtain ⟨th, level, rfl⟩ := eq_opened_of_isOpened hopened
        cases hl
      · cases b with
        | userdata mt env => cases hl
        | _ => cases hk
    · exact .inr ((hcase hl hc).imp And.right And.right)

theorem Frontier.tri (h : s.Frontier) (hcolored : s.Colored)
    (htm : ∀ o ∈ s.tmudata, ∃ mt env, s.body o = some (.userdata mt env)) :
    Tri (fun _ => True) s := by
  refine ⟨fun o b hb hm => ⟨hcolored o b hb hm, ?_⟩, h.gray, h.grayagain, h.weak⟩
  cases hc : s.color o with
  | white bit =>
    rw [State.marked, hc] at hm
    cases hm
  | black =>
    by_cases ho : o ∈ s.tmudata
    · obtain ⟨mt, env, hb'⟩ := htm o ho
      obtain rfl := Option.some.inj (hb.symm.trans hb')
      exact .inr (.inl ⟨trivial, .inr (.inr ⟨rfl, ho⟩)⟩)
    · refine .inr (.inr ⟨fun b' hb' r hr => ?_, fun _ hc' => by cases hc'⟩)
      obtain rfl := Option.some.inj (hb.symm.trans hb')
      refine h.black o b hb hc ho r ?_
      rw [hc] at hr
      cases b <;> exact hr
  | gray =>
    by_cases hl : b.listed = true
    · rcases h.waits o b hb hc hl with hg | hlist
      · exact .inl ⟨hl, rfl, hg⟩
      · exact .inr (.inl ⟨trivial, .inl ⟨hl, rfl, hlist⟩⟩)
    · have hmay := hcolored o b hb hm
      rw [hc] at hmay
      cases b with
      | string bytes =>
        refine .inr (.inr ⟨fun b' hb' r hr => ?_, fun hl' => absurd hl' hl⟩)
        obtain rfl := Option.some.inj (hb.symm.trans hb')
        cases hr
      | userdata mt env => cases hmay
      | upval uv =>
        cases uv with
        | opened th level => exact .inr (.inl ⟨trivial, .inr (.inl rfl)⟩)
        | closed v => cases hmay
      | function cl | table t | thread th | proto p => exact absurd rfl hl

/-! ### Marking -/

/-- In the marking phase it is enough that nothing is dead and that the frontier is right. -/
theorem Inv.of_follows (h : s.Inv) (halive : ∀ o b, s.body o = some b → s.isdead o = false)
    (hf : Follows s s') (hstate : s'.gcstate = .propagate) (htri : Tri (fun _ => True) s')
    (hmain : s'.marked s'.mainthread) (hreg : ∀ r ∈ s'.registry.refs, s'.marked r.2) :
    s'.Inv := by
  have ht : s'.Typed := hf.typed (h.sound.typed halive)
  have halive' : ∀ o b, s'.body o = some b → s'.isdead o = false := fun o b hb => by
    by_cases hm : s'.marked o
    · exact isdead_of_marked hm
    · obtain ⟨b', hb'⟩ := hf.there o b hb
      rw [State.isdead, State.otherwhite, hf.whites o hm, hf.currentwhite]
      exact halive o b' hb'
  have hholds : ∀ r, s'.Fits r → s'.Holds r := fun r hr => by
    obtain ⟨b, hb, -⟩ := id hr
    exact ⟨hr, keeps_iff.mpr (.inl (halive' _ b hb))⟩
  refine ⟨hf.lists h.lists (h.sound.roots _ List.mem_cons_self).1,
    ⟨fun o b hb _ r hr => hholds r (ht o b hb r hr), fun r hr => hholds r ?_, fun o ho => ?_⟩,
    htri.colored, fun _ => ⟨htri, halive', hmain, hreg⟩, fun hst => absurd hstate hst⟩
  · exact hf.fits r (h.sound.roots r (hf.roots ▸ hr)).1
  · rw [hf.fixed] at ho
    rcases h.sound.fixed o ho with ⟨bytes, hb⟩ | rfl
    · exact .inl ⟨bytes, hf.string o bytes hb⟩
    · exact .inr hf.mainthread.symm

theorem Inv.advances (h : s.Inv) (hstate : s.gcstate = .propagate) (ha : Advances s s')
    (htri : Tri (fun _ => True) s') : s'.Inv := by
  have hmark := h.marking hstate
  refine h.of_follows hmark.alive ha.follows ?_ htri ?_ ?_
  · rw [ha.frame]
    exact hstate
  · rw [ha.follows.mainthread]
    exact ha.mono _ hmark.main
  · rw [ha.follows.registry]
    exact fun r hr => ha.mono _ (hmark.registry r hr)

theorem Inv.typed (h : s.Inv) (hstate : s.gcstate = .propagate) : s.Typed :=
  h.sound.typed (h.marking hstate).alive

theorem Inv.marks (h : s.Inv) (hstate : s.gcstate = .propagate) (hm : Marks s s') : s'.Inv :=
  h.advances hstate hm.advances (hm.tri (h.marking hstate).tri)

theorem propagatemark_inv (h : s.Inv) (hstate : s.gcstate = .propagate) (hg : s.gray ≠ []) :
    s.propagatemark.Inv := by
  obtain ⟨o, rest, hg⟩ := List.exists_cons_of_ne_nil hg
  have htri := (h.marking hstate).tri
  have hp := propagates_propagatemark (h.typed hstate) hg (htri.gray o (hg ▸ List.mem_cons_self))
  exact h.advances hstate hp.moves.advances (hp.tri hg htri)

/-- Between two collections everything has the current white, the waiting userdata aside. -/
theorem Inv.white (h : s.Inv) (hstate : s.gcstate = .pause ∨ s.gcstate = .finalize)
    (hb : s.body o = some b) : s.color o = .white s.currentwhite ∨ o ∈ s.tmudata := by
  have hne : s.gcstate ≠ .propagate := by rcases hstate with hst | hst <;> rw [hst] <;> decide
  have hnot : ¬s.gcstate = .sweepstring := by rcases hstate with hst | hst <;> rw [hst] <;> decide
  have hnot' : ¬s.gcstate = .sweep := by rcases hstate with hst | hst <;> rw [hst] <;> decide
  refine ((h.sweeping hne).pending o b hb).imp_right fun hp => ?_
  unfold Pending at hp
  split at hp
  · exact absurd hp.1 hnot
  · exact absurd hp.1 (not_or.mpr ⟨hnot, hnot'⟩)
  · exact hp.resolve_left fun hp => not_or.mpr ⟨hnot, hnot'⟩ hp.1

theorem isdead_of_white (h : s.color o = .white s.currentwhite) : s.isdead o = false := by
  rw [← Bool.not_eq_true, isdead_iff, h]
  intro hc
  have := Color.white.inj hc
  cases hw : s.currentwhite <;> rw [hw] at this <;> cases this

theorem Inv.alive_between (h : s.Inv) (hstate : s.gcstate = .pause ∨ s.gcstate = .finalize)
    (hb : s.body o = some b) : s.isdead o = false := by
  have hne : s.gcstate ≠ .propagate := by rcases hstate with hst | hst <;> rw [hst] <;> decide
  rcases h.white hstate hb with hw | htm
  · exact isdead_of_white hw
  · exact (h.sweeping hne).tmudata o htm

theorem follows_restart (s : State) : Follows s s.restart :=
  ⟨rfl, rfl, rfl, rfl, rfl, fun _ => id, fun _ b hb => ⟨b, hb⟩, rfl, fun _ _ => id, fun _ => id,
    fun _ _ => rfl, fun ht => ht.congr rfl, fun hl _ => hl.congr (.refl s) rfl rfl rfl rfl rfl rfl⟩

theorem follows_gcstate (s : State) (st : GCState) : Follows s { s with gcstate := st } :=
  ⟨rfl, rfl, rfl, rfl, rfl, fun _ => id, fun _ b hb => ⟨b, hb⟩, rfl, fun _ _ => id, fun _ => id,
    fun _ _ => rfl, fun ht => ht.congr rfl, fun hl _ => hl.congr (.refl s) rfl rfl rfl rfl rfl rfl⟩

/-- Only the userdata that wait for their finalizers are marked then. -/
theorem tri_restart (h : s.Inv) (hstate : s.gcstate = .pause ∨ s.gcstate = .finalize) :
    Tri (fun _ => True) s.restart := by
  have hlisted : s.restart.Listed [] := fun o ho => by cases ho
  refine ⟨fun o b hb hm => ⟨h.colored o b hb hm, .inr (.inl ⟨trivial, .inr (.inr ?_)⟩)⟩, hlisted,
    hlisted, hlisted⟩
  rcases h.white hstate hb with hw | htm
  · rw [State.marked, show s.restart.color o = s.color o from rfl, hw] at hm
    cases hm
  · obtain ⟨mt, env, hb'⟩ := h.lists.tmudata o htm
    obtain rfl := Option.some.inj (hb.symm.trans hb')
    exact ⟨rfl, htm⟩

theorem marks_markroots (ht : s.Typed) (hroots : ∀ r ∈ s.roots, s.Fits r) :
    Marks s s.markroots ∧ s.markroots.marked s.mainthread ∧
      ∀ r ∈ s.registry.refs, s.markroots.marked r.2 := by
  obtain ⟨b, hb, -⟩ := hroots (.thread, s.mainthread) List.mem_cons_self
  have hm₁ := marks_markobject ht s.mainthread
  have hmain := marked_markobject ht hb
  have hreg : (s.markobject s.mainthread).registry = s.registry := by rw [hm₁.eq]
  unfold markroots
  dsimp only
  generalize s.markobject s.mainthread = s₁ at *
  have hm₂ : Marks s₁ s₁.markglobals := by
    unfold markglobals
    split
    next => exact marks_markvalue (ht.congr hm₁.body) _
    next => exact Marks.refl s₁
  generalize s₁.markglobals = s₂ at *
  have hb₂ : s₂.body = s.body := hm₂.body.trans hm₁.body
  have hreg₂ : s₂.registry = s.registry := by rw [hm₂.eq, hreg]
  have hm₃ := marks_markvalue (ht.congr hb₂) s₂.registry
  have hm₄ := marks_markmt ((ht.congr hb₂).congr hm₃.body)
  refine ⟨hm₁.trans (hm₂.trans (hm₃.trans hm₄)),
    hm₄.marked (hm₃.marked (hm₂.marked hmain)), fun r hr => hm₄.marked ?_⟩
  rw [hreg₂]
  refine marked_markvalue (fun r hr => ?_) r hr
  refine (hroots r ?_).congr hb₂
  exact List.mem_append_left _ (List.mem_cons_of_mem _ (List.mem_cons_of_mem _ hr))

theorem markroot_inv (h : s.Inv) (hstate : s.gcstate = .pause ∨ s.gcstate = .finalize) :
    s.markroot.Inv := by
  have halive : ∀ o b, s.body o = some b → s.isdead o = false := fun o b hb =>
    h.alive_between hstate hb
  have hf := follows_restart s
  have ht : s.restart.Typed := hf.typed (h.sound.typed halive)
  obtain ⟨hm, hmain, hreg⟩ := marks_markroots ht fun r hr => (h.sound.roots r hr).1
  have hf' : Follows s s.markroot :=
    (hf.trans hm.advances.follows).trans (follows_gcstate _ .propagate)
  have htri := hm.tri (tri_restart h hstate)
  refine h.of_follows halive hf' rfl ⟨htri.settles, htri.gray, htri.grayagain, htri.weak⟩ ?_ ?_
  · rw [hf'.mainthread]
    exact hmain
  · rw [hf'.registry]
    exact hreg

/-- A full collection gives up the marking that goes on. Nothing is dead then. -/
theorem abandon_inv (h : s.Inv) : s.abandon.Inv := by
  by_cases hstate : s.gcstate = .pause ∨ s.gcstate = .propagate
  swap
  · rw [abandon, if_neg hstate]
    exact h
  have htm : ∀ o ∈ s.tmudata, s.isdead o = false := fun o ho => by
    obtain ⟨mt, env, hb⟩ := h.lists.tmudata o ho
    rcases hstate with hst | hst
    · exact h.alive_between (.inl hst) hb
    · exact (h.marking hst).alive o _ hb
  have hl := h.lists
  have heq : s.abandon = { s with
      sweepstrgc := 0, swept := [], unswept := s.rootgc, gray := [], grayagain := [], weak := [],
      gcstate := .sweepstring } := if_pos hstate
  have hl' : s.abandon.Lists := by
    rw [heq]
    exact hl.of_perm rfl (List.Perm.refl _)
      (fun o ho => ⟨hl.tmudata o ho, hl.finalized o ho⟩) rfl rfl hl.main
  rw [heq] at hl' ⊢
  exact ⟨hl', ⟨h.sound.refs, h.sound.roots, h.sound.fixed⟩, h.colored,
    fun hst => (by cases hst), fun _ => ⟨fun o b hb => .inr (hl'.pending rfl rfl rfl hb), htm⟩⟩

end State
end JLua.Collector
