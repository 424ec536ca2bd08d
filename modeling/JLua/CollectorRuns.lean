import JLua.FreedThreads
import JLua.HeapWrites

/-!
# Runs of the collector

Each call of `singlestep` keeps the invariant, whatever the phase is and wherever the next one
begins.
-/

namespace JLua.Collector

set_option autoImplicit false

namespace State
variable {s s' s'' : State} {o x th uv curr : Addr} {b : Body} {v : TValue} {t : Thread}
variable {l rest : List Addr}

/-! ### The sweep of `rootgc` -/

theorem freeobj_of_not_thread (h : ∀ t, s.body o ≠ some (.thread t)) : s.freeobj o = s.free o := by
  unfold freeobj
  split
  next t ht => exact absurd ht (h t)
  next => rfl

theorem freeobj_inv (h : s.Inv) (hstate : s.gcstate = .sweep)
    (hunswept : s.unswept = curr :: rest) (hdead : s.keeps curr = false)
    (hwhite : s.WhiteUpvals curr) :
    (({ s with unswept := rest } : State).freeobj curr).Inv ∧
      (({ s with unswept := rest } : State).freeobj curr).gcstate = .sweep := by
  by_cases hth : ∃ t, s.body curr = some (.thread t)
  · obtain ⟨t, ht⟩ := hth
    obtain ⟨s₁, hc, heq, -⟩ := frees_thread h.lists ht hwhite rest
    refine ⟨freethread_inv h hstate hunswept hdead ht hwhite, ?_⟩
    rw [heq, hc.frame]
    exact hstate
  · have hnot : ∀ t, s.body curr ≠ some (.thread t) := fun t ht => hth ⟨t, ht⟩
    rw [freeobj_of_not_thread (s := { s with unswept := rest }) hnot]
    exact ⟨free_inv h hstate hunswept hdead hnot, hstate⟩

theorem sweeplist_inv (h : s.Inv) (hstate : s.gcstate = .sweep) (count : Nat) :
    (sweeplist count s).Inv ∧ (sweeplist count s).gcstate = .sweep := by
  induction count generalizing s with
  | zero => exact ⟨h, hstate⟩
  | succ count ih =>
    rw [sweeplist]
    split
    next => exact ⟨h, hstate⟩
    next curr rest hunswept =>
      obtain ⟨h₁, hwhite, hstate₁, -, hunswept₁⟩ := sweepupvals_inv h hstate curr
      dsimp only
      generalize s.sweepupvals curr = s₁ at *
      rw [hunswept] at hunswept₁
      cases hk : s₁.keeps curr with
      | true =>
        rw [if_pos rfl]
        exact ih (keep_inv h₁ hstate₁ hunswept₁ hk hwhite) hstate₁
      | false =>
        rw [if_neg Bool.false_ne_true]
        obtain ⟨h₂, hstate₂⟩ := freeobj_inv h₁ hstate₁ hunswept₁ hk hwhite
        exact ih h₂ hstate₂

/-! ### The table of strings -/

theorem flatten_modify_cons {strt : List (List Addr)} {i : Nat} (hi : i < strt.length) (o : Addr) :
    (strt.modify i (o :: ·)).flatten.Perm (o :: strt.flatten) := by
  induction strt generalizing i with
  | nil => cases hi
  | cons bucket strt ih =>
    cases i with
    | zero => exact List.Perm.refl _
    | succ i =>
      rw [List.modify_succ_cons, List.flatten_cons, List.flatten_cons]
      refine ((ih (Nat.lt_of_succ_lt_succ hi)).append_left bucket).trans ?_
      exact List.perm_middle

theorem flatten_chain {strt : List (List Addr)} (h : strt ≠ []) (o : Addr) :
    (s.chain strt o).flatten.Perm (o :: strt.flatten) :=
  flatten_modify_cons (Nat.mod_lt _ (List.length_pos_iff.mpr h)) o

theorem chain_ne_nil {strt : List (List Addr)} (h : strt ≠ []) (o : Addr) :
    s.chain strt o ≠ [] := by
  intro hnil
  have hlen : (s.chain strt o).length = strt.length := List.length_modify ..
  rw [hnil, List.length_nil] at hlen
  exact h (List.length_eq_zero_iff.mp hlen.symm)

theorem flatten_chains {strt : List (List Addr)} (h : strt ≠ []) (l : List Addr) :
    (l.foldl s.chain strt).flatten.Perm (l ++ strt.flatten) := by
  induction l generalizing strt with
  | nil => exact List.Perm.refl _
  | cons o l ih =>
    refine (ih (chain_ne_nil h o)).trans ?_
    exact ((flatten_chain h o).append_left l).trans List.perm_middle

/-- A table of another size has the same strings. -/
theorem resize_spec (s : State) {newsize : Nat} (h : 0 < newsize) :
    ∃ strt, s.resize newsize = { s with strt } ∧ strt.flatten.Perm s.strt.flatten ∧
      (s.gcstate = .sweepstring → strt = s.strt) := by
  unfold resize
  split
  · exact ⟨s.strt, rfl, List.Perm.refl _, fun _ => rfl⟩
  next hst =>
    refine ⟨_, rfl, ?_, fun hst' => absurd hst' hst⟩
    have hne : List.replicate newsize ([] : List Addr) ≠ [] := fun hnil => by
      rw [List.replicate_eq_nil_iff] at hnil
      omega
    have hperm := flatten_chains (s := s) hne s.strt.flatten
    rwa [List.flatten_replicate_nil, List.append_nil] at hperm

theorem checkSizes_spec (s : State) :
    ∃ strt, s.checkSizes = { s with strt } ∧ strt.flatten.Perm s.strt.flatten := by
  unfold checkSizes
  split
  next h =>
    have hpos : 0 < s.strt.length / 2 := by
      have hmin : MINSTRTABSIZE = 32 := rfl
      omega
    obtain ⟨strt, heq, hperm, -⟩ := resize_spec s hpos
    exact ⟨strt, heq, hperm⟩
  next => exact ⟨s.strt, rfl, List.Perm.refl _⟩

theorem Lists.of_strt {strt : List (List Addr)} (hl : s.Lists)
    (hperm : strt.flatten.Perm s.strt.flatten) (st : GCState) :
    ({ s with strt, gcstate := st } : State).Lists :=
  ⟨hl.rootNodup, hl.mem_root, hl.tmudata, hl.finalized, hperm.nodup_iff.mpr hl.strNodup,
    fun o => hperm.mem_iff.trans (hl.mem_strt o), hl.uvNodup, hl.mem_uvhead, hl.openNodup,
    hl.mem_open, hl.thread, hl.main⟩

/-- The sweep comes to its end. -/
theorem finalize_inv (h : s.Inv) (hstate : s.gcstate = .sweep) (hunswept : s.unswept = []) :
    ({ s.checkSizes with gcstate := .finalize } : State).Inv := by
  obtain ⟨strt, heq, hperm⟩ := checkSizes_spec s
  have hsweeping := h.sweeping (by rw [hstate]; decide)
  rw [heq]
  refine ⟨h.lists.of_strt hperm .finalize, ⟨h.sound.refs, h.sound.roots, h.sound.fixed⟩, h.colored,
    fun hst => (by cases hst), fun _ => ⟨fun x b hb => ?_, hsweeping.tmudata⟩⟩
  refine (hsweeping.pending x b hb).imp_right fun hp => ?_
  have hnot : ∀ y, y ∉ s.unswept := fun y hy => by
    rw [hunswept] at hy
    cases hy
  cases b with
  | string bytes =>
    rw [State.Pending, hstate] at hp
    cases hp.1
  | upval uv =>
    cases uv with
    | opened th level => exact absurd hp.2 (hnot th)
    | closed v => exact hp.imp_left fun hp => absurd hp.2 (hnot x)
  | _ => exact hp.imp_left fun hp => absurd hp.2 (hnot x)

/-- The last bucket of the table of strings is swept. -/
theorem sweepstate_inv (h : s.Inv) (hstate : s.gcstate = .sweepstring)
    (hlast : s.strt.length ≤ s.sweepstrgc) : ({ s with gcstate := .sweep } : State).Inv := by
  have hsweeping := h.sweeping (by rw [hstate]; decide)
  refine ⟨h.lists.of_strt (List.Perm.refl _) .sweep,
    ⟨h.sound.refs, h.sound.roots, h.sound.fixed⟩, h.colored, fun hst => (by cases hst),
    fun _ => ⟨fun x b hb => ?_, hsweeping.tmudata⟩⟩
  refine (hsweeping.pending x b hb).imp_right fun hp => ?_
  cases b with
  | string bytes =>
    have hx := hp.2
    rw [List.drop_eq_nil_of_le hlast] at hx
    cases hx
  | upval uv =>
    cases uv with
    | opened th level => exact ⟨.inr rfl, hp.2⟩
    | closed v => exact hp.imp_left fun hp => ⟨.inr rfl, hp.2⟩
  | _ => exact hp.imp_left fun hp => ⟨.inr rfl, hp.2⟩

theorem pause_inv (h : s.Inv) (hstate : s.gcstate = .finalize) :
    ({ s with gcstate := .pause } : State).Inv := by
  have hsweeping := h.sweeping (by rw [hstate]; decide)
  refine ⟨h.lists.of_strt (List.Perm.refl _) .pause,
    ⟨h.sound.refs, h.sound.roots, h.sound.fixed⟩, h.colored, fun hst => (by cases hst),
    fun _ => ⟨fun x b hb => ?_, hsweeping.tmudata⟩⟩
  rcases h.white (.inr hstate) hb with hw | htm
  · exact .inl hw
  · right
    obtain ⟨mt, env, hb'⟩ := h.lists.tmudata x htm
    obtain rfl := Option.some.inj (hb.symm.trans hb')
    exact .inr htm

/-! ### Finalizers -/

theorem insertAfter_perm {m : Addr} (h : m ∈ l) (hn : l.Nodup) (o : Addr) :
    (insertAfter m o l).Perm (o :: l) := by
  induction l with
  | nil => cases h
  | cons x l ih =>
    rw [insertAfter]
    split
    next => exact .swap _ _ _
    next hx =>
      have hm : m ∈ l := (List.mem_cons.mp h).resolve_left fun hm => hx hm.symm
      exact ((ih hm (List.nodup_cons.mp hn).2).cons x).trans (.swap _ _ _)

theorem insertAfter_of_not_mem {m : Addr} (h : m ∉ l) (o : Addr) : insertAfter m o l = l := by
  induction l with
  | nil => rfl
  | cons x l ih =>
    rw [List.mem_cons, not_or] at h
    rw [insertAfter, if_neg fun hx => h.1 hx.symm, ih h.2]

theorem mem_insertAfter {m : Addr} (h : x ∈ l) (o : Addr) : x ∈ insertAfter m o l := by
  induction l with
  | nil => cases h
  | cons y l ih =>
    rw [insertAfter]
    split
    next hy =>
      rcases List.mem_cons.mp h with rfl | hx
      · exact List.mem_cons_self
      · exact List.mem_cons_of_mem _ (List.mem_cons_of_mem _ hx)
    next =>
      rcases List.mem_cons.mp h with rfl | hx
      · exact List.mem_cons_self
      · exact List.mem_cons_of_mem _ (ih hx)

/-- A userdata goes into `rootgc` behind the main thread. -/
theorem linkudata_spec (hmain : s.mainthread ∈ s.swept ++ s.unswept)
    (hn : (s.swept ++ s.unswept).Nodup) (o : Addr) :
    ∃ swept unswept, s.linkudata o = { s with swept, unswept } ∧
      (swept ++ unswept).Perm (o :: (s.swept ++ s.unswept)) ∧ ∀ x ∈ s.unswept, x ∈ unswept := by
  unfold linkudata
  split
  · exact ⟨s.swept, o :: s.unswept, rfl, List.perm_middle, fun x => List.mem_cons_of_mem o⟩
  · refine ⟨_, _, rfl, ?_, fun x hx => mem_insertAfter hx o⟩
    obtain ⟨hswept, hunswept, hdisj⟩ := List.nodup_append.mp hn
    rcases List.mem_append.mp hmain with hm | hm
    · rw [insertAfter_of_not_mem (l := s.unswept) fun hm' => hdisj _ hm _ hm' rfl]
      exact (insertAfter_perm hm hswept o).append_right _
    · rw [insertAfter_of_not_mem (l := s.swept) fun hm' => hdisj _ hm' _ hm rfl]
      exact ((insertAfter_perm hm hunswept o).append_left _).trans List.perm_middle

/-- The first userdata that waits is an object like others again. -/
theorem unlink_inv (h : s.Inv) (hstate : s.gcstate = .finalize) (htm : s.tmudata = o :: rest) :
    ((({ s with tmudata := rest } : State).linkudata o).makewhite o).Inv ∧
      ((({ s with tmudata := rest } : State).linkudata o).makewhite o).gcstate = .finalize ∧
      s.keeps o = true ∧
      Sweeps s ((({ s with tmudata := rest } : State).linkudata o).makewhite o) := by
  have hl := h.lists
  have hsweeping := h.sweeping (by rw [hstate]; decide)
  have hkeep : s.keeps o = true :=
    keeps_iff.mpr (.inl (hsweeping.tmudata o (htm ▸ List.mem_cons_self)))
  obtain ⟨swept, unswept, heq, hperm, hmem⟩ := linkudata_spec (s := { s with tmudata := rest })
    hl.main (List.nodup_append.mp hl.rootNodup).1 o
  rw [heq]
  set s' : State := ({ s with tmudata := rest, swept, unswept } : State).makewhite o with hs'
  have ho : s'.color o = .white s.currentwhite := setColor_self
  have hcolor : ∀ x, x ≠ o → s'.color x = s.color x := fun x hx => setColor_of_ne hx
  have hsw : Sweeps s s' := by
    refine ⟨fun x => .inl rfl, fun x => ?_, rfl, rfl, rfl⟩
    by_cases hx : x = o
    · exact .inr ⟨hx ▸ hkeep, hx ▸ ho⟩
    · exact .inl (hcolor x hx)
  have hrest : ∀ x ∈ rest, x ∈ s.tmudata := fun x hx => htm ▸ List.mem_cons_of_mem o hx
  have hl' : s'.Lists := by
    refine hl.of_perm rfl ?_ (fun x hx => ?_) rfl rfl ?_
    · rw [htm]
      exact (hperm.append_right rest).trans List.perm_middle.symm
    · exact ⟨hl.tmudata x (hrest x hx), hl.finalized x (hrest x hx)⟩
    · exact hperm.mem_iff.mpr (List.mem_cons_of_mem _ hl.main)
  refine ⟨⟨hl', hsw.sound h.sound, hsw.colored h.colored, fun hst => ?_, fun _ => ⟨fun x b hb => ?_,
    fun x hx => hsw.isdead (hsweeping.tmudata x (hrest x hx))⟩⟩, hstate, hkeep, hsw⟩
  · rw [show s'.gcstate = s.gcstate from rfl, hstate] at hst
    cases hst
  · by_cases hx : x = o
    · exact .inl (hx ▸ ho)
    rw [hcolor x hx]
    rcases h.white (.inr hstate) hb with hw | hx'
    · exact .inl hw
    · right
      obtain ⟨mt, env, hb'⟩ := hl.tmudata x hx'
      obtain rfl := Option.some.inj (Eq.trans (Eq.symm hb) hb')
      exact .inr ((List.mem_cons.mp (htm ▸ hx')).resolve_left hx)

theorem holds_fasttm (h : s.Sound) {mt : Option Addr} {event : Addr}
    (hmt : ∀ r ∈ optionRefs .table mt, s.Holds r) : ∀ r ∈ (s.fasttm mt event).refs, s.Holds r := by
  intro r hr
  unfold fasttm at hr
  cases mt with
  | none => cases hr
  | some a =>
    obtain ⟨⟨b, hb, hacc⟩, hk⟩ := hmt (.table, a) (by simp [optionRefs])
    rw [Option.bind_some, hb] at hr
    cases b with
    | table t =>
      dsimp only at hr
      cases hfind : t.node.find? fun n => n.key = .value (.object event) with
      | none =>
        rw [hfind] at hr
        cases hr
      | some n =>
        rw [hfind] at hr
        have hval : n.val ≠ .nil := fun hnil => by
          rw [Option.map_some, Option.getD_some, hnil] at hr
          cases hr
        refine h.refs a _ hb hk r (List.mem_append_right _ (List.mem_flatMap.mpr ⟨n.val, ?_, hr⟩))
        refine List.mem_append_right _ (List.mem_flatMap.mpr ⟨n, ?_, ?_⟩)
        · exact List.mem_reverse.mpr (List.mem_of_find?_eq_some hfind)
        · simp [hval]
    | _ => cases hacc

theorem push_inv (h : s.Inv) (hk : s.keeps th = true) (hv : ∀ r ∈ v.refs, s.Holds r) :
    (s.push th v).Inv ∧ (∀ r, s.Holds r → (s.push th v).Holds r) ∧
      (s.push th v).running = s.running ∧ (s.push th v).gcstate = s.gcstate := by
  unfold push
  split
  next t ht =>
    have hrefs := h.sound.refs th _ ht hk
    refine ⟨stack_inv h ht _ (fun w hw r hr => ?_) fun r hr => ?_, fun r hr => ?_, rfl, rfl⟩
    · rcases List.mem_append.mp hw with hw | hw
      · exact hrefs r (List.mem_append_right _ (List.mem_flatMap.mpr ⟨w, hw, hr⟩))
      · exact hv r (List.mem_singleton.mp hw ▸ hr)
    · exact hrefs r (List.mem_append_left _ hr)
    · exact hr.write ht (.thread t { t with stack := t.stack ++ [v] } rfl)
  next => exact ⟨h, fun _ => id, rfl, rfl⟩

theorem Sound.keeps_running (h : s.Sound) : s.keeps s.running = true :=
  (h.roots (.thread, s.running) (by simp [State.roots])).2

theorem GCTM_inv (h : s.Inv) (hstate : s.gcstate = .finalize) :
    s.GCTM.Inv ∧ s.GCTM.gcstate = .finalize := by
  unfold GCTM
  split
  next => exact ⟨h, hstate⟩
  next o rest htm =>
    obtain ⟨h₁, hstate₁, hkeep, hsw⟩ := unlink_inv h hstate htm
    obtain ⟨mt, env, hb⟩ := h.lists.tmudata o (htm ▸ List.mem_cons_self)
    have hk₁ := hsw.keeps hkeep
    have hb₁ : ((({ s with tmudata := rest } : State).linkudata o).makewhite o).body o =
        some (.userdata mt env) := by
      rcases hsw.body_of_keeps hb (.inl hkeep) with hb₁ | ⟨_, _, hf, -⟩
      · exact hb₁
      · cases hf
    dsimp only
    generalize (({ s with tmudata := rest } : State).linkudata o).makewhite o = s₁ at *
    rw [hb₁]
    dsimp only
    split
    next => exact ⟨h₁, hstate₁⟩
    next =>
      have htm₁ : ∀ r ∈ (s₁.fasttm mt s₁.gcName).refs, s₁.Holds r :=
        holds_fasttm h₁.sound fun r hr => h₁.sound.refs o _ hb₁ hk₁ r (List.mem_append_left _ hr)
      obtain ⟨h₂, hholds, hrun, hstate₂⟩ := push_inv h₁ h₁.sound.keeps_running htm₁
      have ho : s₁.Holds (.value, o) := ⟨⟨_, hb₁, fun hf => by cases hf⟩, hk₁⟩
      have hkrun := h₂.sound.keeps_running
      rw [hrun] at hkrun
      obtain ⟨h₃, -, -, hstate₃⟩ := push_inv (v := .object o) h₂ hkrun
        fun r hr => List.mem_singleton.mp hr ▸ hholds _ ho
      exact ⟨h₃, hstate₃.trans (hstate₂.trans hstate₁)⟩

theorem singlestep_inv (h : s.Inv) : s.singlestep.Inv := by
  unfold singlestep
  split
  next hstate => exact markroot_inv h (.inl hstate)
  next hstate =>
    split
    next => exact atomic_inv h hstate
    next hg => exact propagatemark_inv h hstate hg
  next hstate =>
    have h₁ := sweepbucket_inv h hstate
    have hstate₁ : s.sweepbucket.gcstate = .sweepstring := by
      change (sweepwholelist freestring _ s).1.gcstate = _
      rw [sweepstrings_frame]
      exact hstate
    change (if s.sweepbucket.strt.length ≤ s.sweepbucket.sweepstrgc then
      ({ s.sweepbucket with gcstate := .sweep } : State) else s.sweepbucket).Inv
    split
    next hlast => exact sweepstate_inv h₁ hstate₁ hlast
    next => exact h₁
  next hstate =>
    obtain ⟨h₁, hstate₁⟩ := sweeplist_inv h hstate GCSWEEPMAX
    dsimp only
    split
    next hunswept => exact finalize_inv h₁ hstate₁ hunswept
    next => exact h₁
  next hstate =>
    split
    next => exact pause_inv h hstate
    next => exact (GCTM_inv h hstate).1

end State
end JLua.Collector
