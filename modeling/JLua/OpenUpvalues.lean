import JLua.Allocation

/-!
# Open upvalues

A closure that captures a variable shares the open upvalue of its place in the stack. When the
place goes away the upvalue is closed: from then on it has the value, and is an object of `rootgc`.
-/

namespace JLua.Collector

set_option autoImplicit false

namespace State
variable (s : State)

/-- A new open upvalue. The list of the thread has its upvalues from the top down. -/
def openupval (th : Addr) (t : Thread) (level : Nat) (uv : Addr) : State :=
  let above := t.openupval.takeWhile (s.atOrAbove level)
  let below := t.openupval.dropWhile (s.atOrAbove level)
  ({ s.create uv (.upval (.opened th level)) with uvhead := uv :: s.uvhead } : State).setBody th
    (.thread { t with openupval := above ++ uv :: below })

/-- `luaF_findupval`: the upvalue, and the address that a new one gets. -/
def findupval (th : Addr) (level : Nat) (uv : Addr) : State × Addr :=
  match s.body th with
  | some (.thread t) =>
    let found := (t.openupval.takeWhile (s.atOrAbove level)).find? fun p =>
      s.body p = some (.upval (.opened th level))
    match found with
    | some p => (if s.isdead p then s.makewhite p else s, p)
    | none => (s.openupval th t level uv, uv)
  | _ => (s, uv)

variable {s : State} {s' s'' : State} {o x th uv : Addr} {b b' : Body} {v : TValue} {t : Thread}
variable {rest : List Addr} {level : Nat}

/-! ### Closing -/

/-- An upvalue that is not dead is closed, whatever the collector is doing. -/
structure Shuts (th uv : Addr) (t : Thread) (rest : List Addr) (v : TValue) (s s' : State) :
    Prop where
  frame : s' = { s with
    heap := s'.heap, color := s'.color, swept := s'.swept, unswept := s'.unswept,
    uvhead := s'.uvhead }
  ne : uv ≠ th
  heap : ∀ x, x ≠ th → x ≠ uv → s'.heap x = s.heap x
  thread : ∃ obj, s.heap th = some obj ∧ obj.body = .thread t ∧
    s'.heap th = some { obj with body := .thread { t with openupval := rest } }
  upval : ∃ obj level, s.heap uv = some obj ∧ obj.body = .upval (.opened th level) ∧
    v = s.value (.opened th level) ∧ s'.heap uv = some { obj with body := .upval (.closed v) }
  value : s'.value = s.value
  perm : (s'.swept ++ s'.unswept).Perm (uv :: (s.swept ++ s.unswept))
  unswept : ∀ x ∈ s.unswept, x ∈ s'.unswept
  uvhead : s.uvhead.Nodup → s'.uvhead.Nodup ∧ ∀ x, x ∈ s'.uvhead ↔ x ∈ s.uvhead ∧ x ≠ uv
  color : ∀ x, x ≠ uv → s'.color x = s.color x
  alive : s'.isdead uv = false

section Shut
variable (h : Shuts th uv t rest v s s')
include h

theorem Shuts.body (hx : s'.body x = some b) :
    x = uv ∧ b = .upval (.closed v) ∨ x = th ∧ b = .thread { t with openupval := rest } ∨
      x ≠ uv ∧ x ≠ th ∧ s.body x = some b := by
  by_cases hxuv : x = uv
  · obtain ⟨obj, level, -, -, -, hobj'⟩ := h.upval
    rw [State.body, hxuv, hobj'] at hx
    exact .inl ⟨hxuv, (Option.some.inj hx).symm⟩
  · by_cases hxth : x = th
    · obtain ⟨obj, -, -, hobj'⟩ := h.thread
      rw [State.body, hxth, hobj'] at hx
      exact .inr (.inl ⟨hxth, (Option.some.inj hx).symm⟩)
    · rw [State.body, h.heap x hxth hxuv] at hx
      exact .inr (.inr ⟨hxuv, hxth, hx⟩)

theorem Shuts.body_uv : s'.body uv = some (.upval (.closed v)) := by
  obtain ⟨obj, level, -, -, -, hobj'⟩ := h.upval
  exact body_eq_some.mpr ⟨_, hobj', rfl⟩

theorem Shuts.body_th : s'.body th = some (.thread { t with openupval := rest }) := by
  obtain ⟨obj, -, -, hobj'⟩ := h.thread
  exact body_eq_some.mpr ⟨_, hobj', rfl⟩

theorem Shuts.was_thread : s.body th = some (.thread t) := by
  obtain ⟨obj, hobj, hbody, -⟩ := h.thread
  exact body_eq_some.mpr ⟨obj, hobj, hbody⟩

theorem Shuts.was_opened : ∃ level, s.body uv = some (.upval (.opened th level)) ∧
    v = s.value (.opened th level) := by
  obtain ⟨obj, level, hobj, hbody, hv, -⟩ := h.upval
  exact ⟨level, body_eq_some.mpr ⟨obj, hobj, hbody⟩, hv⟩

/-- Objects of other forms are what they were. -/
theorem Shuts.form (hk : b.kind ≠ .thread) (hopened : ∀ level, b ≠ .upval (.opened th level))
    (hclosed : b ≠ .upval (.closed v)) : s'.body x = some b ↔ s.body x = some b := by
  by_cases hxuv : x = uv
  · obtain ⟨level, hb, -⟩ := h.was_opened
    rw [hxuv, h.body_uv, hb]
    exact ⟨fun hf => absurd (Option.some.inj hf).symm hclosed,
      fun hf => absurd (Option.some.inj hf).symm (hopened level)⟩
  · by_cases hxth : x = th
    · rw [hxth, h.body_th, h.was_thread]
      constructor
      · intro hf
        exact absurd (by rw [← Option.some.inj hf]; rfl) hk
      · intro hf
        exact absurd (by rw [← Option.some.inj hf]; rfl) hk
    · rw [State.body, State.body, h.heap x hxth hxuv]

theorem Shuts.opened {th' : Addr} : s'.body x = some (.upval (.opened th' level)) ↔
    s.body x = some (.upval (.opened th' level)) ∧ x ≠ uv := by
  constructor
  · intro hb
    rcases h.body hb with ⟨-, hf⟩ | ⟨-, hf⟩ | ⟨hne, -, hb₀⟩
    · cases hf
    · cases hf
    · exact ⟨hb₀, hne⟩
  · intro hb
    have hxth : x ≠ th := fun hxth => by
      rw [hxth, h.was_thread] at hb
      cases hb.1
    rw [State.body, h.heap x hxth hb.2]
    exact hb.1

theorem Shuts.kind : (s'.body x).map Body.kind = (s.body x).map Body.kind := by
  by_cases hxuv : x = uv
  · obtain ⟨level, hb, -⟩ := h.was_opened
    rw [hxuv, h.body_uv, hb]
    rfl
  · by_cases hxth : x = th
    · rw [hxth, h.body_th, h.was_thread]
      rfl
    · rw [State.body, State.body, h.heap x hxth hxuv]

theorem Shuts.fits {r : Ref} (hr : s.Fits r) : s'.Fits r := by
  obtain ⟨b, hb, hacc⟩ := hr
  have hk := h.kind (x := r.2)
  rw [hb, Option.map_some, Option.map_eq_some_iff] at hk
  obtain ⟨b', hb', hkind⟩ := hk
  exact ⟨b', hb', hkind ▸ hacc⟩

theorem Shuts.isfixed : s'.isfixed x = s.isfixed x := by
  by_cases hxuv : x = uv
  · obtain ⟨obj, level, hobj, -, -, hobj'⟩ := h.upval
    rw [State.isfixed, State.isfixed, hxuv, hobj, hobj']
    rfl
  · by_cases hxth : x = th
    · obtain ⟨obj, hobj, -, hobj'⟩ := h.thread
      rw [State.isfixed, State.isfixed, hxth, hobj, hobj']
      rfl
    · rw [State.isfixed, State.isfixed, h.heap x hxth hxuv]

theorem Shuts.isdead (hx : x ≠ uv) : s'.isdead x = s.isdead x := by
  unfold State.isdead otherwhite
  rw [h.color x hx, h.frame]

theorem Shuts.keeps_uv : s'.keeps uv = true := keeps_iff.mpr (.inl h.alive)

theorem Shuts.keeps (hx : x ≠ uv) : s'.keeps x = s.keeps x := by
  unfold State.keeps
  rw [h.isdead hx, h.isfixed]

theorem Shuts.holds {r : Ref} (hr : s.Holds r) : s'.Holds r := by
  refine ⟨h.fits hr.1, ?_⟩
  by_cases hx : r.2 = uv
  · rw [hx]
    exact h.keeps_uv
  · rw [h.keeps hx]
    exact hr.2

/-- The references of an object are those that it had. -/
theorem Shuts.refs (hx : s'.body x = some b) :
    ∃ b₀, s.body x = some b₀ ∧ s'.refs b = s.refs b₀ := by
  rcases h.body hx with ⟨rfl, rfl⟩ | ⟨rfl, rfl⟩ | ⟨-, -, hb₀⟩
  · obtain ⟨level, hb₀, hv⟩ := h.was_opened
    exact ⟨_, hb₀, congrArg TValue.refs hv⟩
  · exact ⟨_, h.was_thread, rfl⟩
  · refine ⟨b, hb₀, ?_⟩
    cases b <;> simp only [State.refs, h.value]

theorem Shuts.sound (hs : s.Sound) (hkeep : s.keeps uv = true) : s'.Sound := by
  refine ⟨fun x b hx hk r hr => ?_, fun r hr => h.holds (hs.roots r ?_), fun x hx => ?_⟩
  · obtain ⟨b₀, hb₀, hrefs⟩ := h.refs hx
    rw [hrefs] at hr
    refine h.holds (hs.refs x b₀ hb₀ ?_ r hr)
    by_cases hxuv : x = uv
    · exact hxuv ▸ hkeep
    · exact (h.keeps hxuv).symm.trans hk
  · have hroots : s'.roots = s.roots := by rw [h.frame]; rfl
    exact hroots ▸ hr
  · rw [h.isfixed] at hx
    rcases hs.fixed x hx with ⟨bytes, hb⟩ | rfl
    · refine .inl ⟨bytes, (h.form ?_ ?_ ?_).mpr hb⟩ <;> simp [Body.kind]
    · right
      rw [h.frame]

theorem Shuts.tmudata : s'.tmudata = s.tmudata := by rw [h.frame]

theorem Shuts.root_perm : (s'.swept ++ s'.unswept ++ s'.tmudata).Perm
    (uv :: (s.swept ++ s.unswept ++ s.tmudata)) := by
  rw [h.tmudata]
  exact h.perm.append_right _

theorem Shuts.thread_cases {th' : Addr} {t' : Thread} (ht : s'.body th' = some (.thread t')) :
    th' = th ∧ t'.openupval = rest ∨ th' ≠ th ∧ s.body th' = some (.thread t') := by
  rcases h.body ht with ⟨-, hf⟩ | ⟨hx, hf⟩ | ⟨-, hne, hb⟩
  · cases hf
  · cases hf
    exact .inl ⟨hx, rfl⟩
  · exact .inr ⟨hne, hb⟩

theorem Shuts.not_root (hl : s.Lists) : uv ∉ s.swept ++ s.unswept ++ s.tmudata := fun huv => by
  obtain ⟨level, hbuv, -⟩ := h.was_opened
  obtain ⟨b, hb, hroot⟩ := (hl.mem_root uv).mp huv
  obtain rfl := Option.some.inj (hbuv.symm.trans hb)
  cases hroot

/-- The closed upvalue is an object of `rootgc`. -/
theorem Shuts.mem_root (hl : s.Lists) (x : Addr) :
    x ∈ s'.swept ++ s'.unswept ++ s'.tmudata ↔ ∃ b, s'.body x = some b ∧ b.isRoot = true := by
  rw [h.root_perm.mem_iff, List.mem_cons]
  constructor
  · rintro (rfl | hx)
    · exact ⟨_, h.body_uv, rfl⟩
    · have hxuv : x ≠ uv := fun hxuv => h.not_root hl (hxuv ▸ hx)
      obtain ⟨b, hb, hroot⟩ := (hl.mem_root x).mp hx
      by_cases hxth : x = th
      · exact ⟨_, hxth ▸ h.body_th, rfl⟩
      · exact ⟨b, by rw [State.body, h.heap x hxth hxuv]; exact hb, hroot⟩
  · rintro ⟨b, hb, hroot⟩
    rcases h.body hb with ⟨rfl, -⟩ | ⟨rfl, -⟩ | ⟨-, -, hb₀⟩
    · exact .inl rfl
    · exact .inr ((hl.mem_root x).mpr ⟨_, h.was_thread, rfl⟩)
    · exact .inr ((hl.mem_root x).mpr ⟨b, hb₀, hroot⟩)

/-- The list of the thread is that of its open upvalues again. -/
theorem Shuts.mem_open (hl : s.Lists) (hopen : t.openupval = uv :: rest) {th' : Addr} {t' : Thread}
    (ht : s'.body th' = some (.thread t')) (x : Addr) :
    x ∈ t'.openupval ↔ ∃ level, s'.body x = some (.upval (.opened th' level)) := by
  rcases h.thread_cases ht with ⟨rfl, heq⟩ | ⟨hne, hb⟩
  · have hnodup := hl.openNodup th' t h.was_thread
    have hmem := hl.mem_open th' t h.was_thread x
    rw [hopen] at hnodup
    rw [hopen, List.mem_cons] at hmem
    rw [heq]
    constructor
    · intro hx
      obtain ⟨level, hb⟩ := hmem.mp (.inr hx)
      exact ⟨level, h.opened.mpr ⟨hb, fun hxuv => (List.nodup_cons.mp hnodup).1 (hxuv ▸ hx)⟩⟩
    · intro hx
      obtain ⟨level, hb⟩ := hx
      obtain ⟨hb, hne⟩ := h.opened.mp hb
      exact (hmem.mpr ⟨level, hb⟩).resolve_left hne
  · rw [hl.mem_open th' t' hb]
    refine exists_congr fun level => ?_
    rw [h.opened]
    refine ⟨fun hx => ⟨hx, fun hxuv => ?_⟩, And.left⟩
    obtain ⟨level', hbuv, -⟩ := h.was_opened
    rw [hxuv, hbuv] at hx
    cases hx
    exact hne rfl

theorem Shuts.lists (hl : s.Lists) (hopen : t.openupval = uv :: rest) : s'.Lists := by
  have hstrt : s'.strt = s.strt := by rw [h.frame]
  have hmain : s'.mainthread = s.mainthread := by rw [h.frame]
  obtain ⟨level₀, hbuv, -⟩ := h.was_opened
  have huv := h.uvhead hl.uvNodup
  refine ⟨?_, h.mem_root hl, fun x hx => ?_, fun x hx => ?_, hstrt ▸ hl.strNodup, fun x => ?_,
    huv.1, fun x => ?_, fun th' t' ht' => ?_, fun th' t' ht' => h.mem_open hl hopen ht',
    fun x th' level hb => ?_, ?_⟩
  · exact h.root_perm.nodup_iff.mpr (List.nodup_cons.mpr ⟨h.not_root hl, hl.rootNodup⟩)
  · obtain ⟨mt, env, hb⟩ := hl.tmudata x (h.tmudata ▸ hx)
    refine ⟨mt, env, (h.form ?_ ?_ ?_).mpr hb⟩ <;> simp [Body.kind]
  · obtain ⟨mt, env, hb⟩ := hl.tmudata x (h.tmudata ▸ hx)
    have hxth : x ≠ th := fun hxth => by
      rw [hxth, h.was_thread] at hb
      cases hb
    have hxuv : x ≠ uv := fun hxuv => by
      rw [hxuv, hbuv] at hb
      cases hb
    rw [isfinalized, h.heap x hxth hxuv]
    exact hl.finalized x (h.tmudata ▸ hx)
  · rw [hstrt, hl.mem_strt]
    refine exists_congr fun bytes => (h.form ?_ ?_ ?_).symm <;> simp [Body.kind]
  · rw [huv.2, hl.mem_uvhead]
    constructor
    · rintro ⟨⟨th', level, hb⟩, hne⟩
      exact ⟨th', level, h.opened.mpr ⟨hb, hne⟩⟩
    · rintro ⟨th', level, hb⟩
      exact ⟨⟨th', level, (h.opened.mp hb).1⟩, (h.opened.mp hb).2⟩
  · rcases h.thread_cases ht' with ⟨-, heq⟩ | ⟨-, hb⟩
    · have hnodup := hl.openNodup th t h.was_thread
      rw [hopen] at hnodup
      rw [heq]
      exact (List.nodup_cons.mp hnodup).2
    · exact hl.openNodup th' t' hb
  · obtain ⟨t', ht'⟩ := hl.thread x th' level (h.opened.mp hb).1
    by_cases hth : th' = th
    · exact ⟨_, hth ▸ h.body_th⟩
    · have hne : th' ≠ uv := fun hf => by
        rw [hf, hbuv] at ht'
        cases ht'
      exact ⟨t', by rw [State.body, h.heap th' hth hne]; exact ht'⟩
  · rw [hmain]
    exact h.perm.mem_iff.mpr (List.mem_cons_of_mem _ hl.main)

/-- The sweep goes on as before, the upvalue being white. -/
theorem Shuts.sweeping (hs : s.Sweeping) (hwhite : s'.color uv = .white s.currentwhite) :
    s'.Sweeping := by
  have htm : s'.tmudata = s.tmudata := by rw [h.frame]
  have hst : s'.gcstate = s.gcstate := by rw [h.frame]
  have hcw : s'.currentwhite = s.currentwhite := by rw [h.frame]
  have hstrt : s'.strt = s.strt := by rw [h.frame]
  have hgc : s'.sweepstrgc = s.sweepstrgc := by rw [h.frame]
  have hroot : ∀ x, ((s.gcstate = .sweepstring ∨ s.gcstate = .sweep) ∧ x ∈ s.unswept ∨
      x ∈ s.tmudata) → (s'.gcstate = .sweepstring ∨ s'.gcstate = .sweep) ∧ x ∈ s'.unswept ∨
      x ∈ s'.tmudata := fun x hp => by
    rw [hst, htm]
    exact hp.imp_left fun hp => ⟨hp.1, h.unswept x hp.2⟩
  refine ⟨fun x b hx => ?_, fun x hx => ?_⟩
  · by_cases hxuv : x = uv
    · exact .inl (by rw [hxuv, hwhite, hcw])
    rw [h.color x hxuv, hcw]
    rcases h.body hx with ⟨rfl, -⟩ | ⟨rfl, rfl⟩ | ⟨-, -, hb₀⟩
    · exact absurd rfl hxuv
    · exact (hs.pending x _ h.was_thread).imp_right (hroot x)
    · refine (hs.pending x b hb₀).imp_right fun hp => ?_
      cases b with
      | string bytes =>
        refine ⟨hst.trans hp.1, ?_⟩
        rw [hstrt, hgc]
        exact hp.2
      | upval uv =>
        cases uv with
        | opened th' level =>
          refine ⟨?_, h.unswept th' hp.2⟩
          rw [hst]
          exact hp.1
        | closed v => exact hroot x hp
      | _ => exact hroot x hp
  · by_cases hxuv : x = uv
    · exact hxuv ▸ h.alive
    · rw [h.isdead hxuv]
      exact hs.tmudata x (htm ▸ hx)

theorem Shuts.colored (hs : s.Colored) (hcolor : s'.color uv ≠ .gray) : s'.Colored := by
  intro x b hx hm
  by_cases hxuv : x = uv
  · rw [hxuv, h.body_uv] at hx
    rw [hxuv, ← Option.some.inj hx]
    exact decide_eq_true hcolor
  · rw [State.marked, h.color x hxuv] at hm
    rw [h.color x hxuv]
    rcases h.body hx with ⟨rfl, -⟩ | ⟨rfl, rfl⟩ | ⟨-, -, hb₀⟩
    · exact absurd rfl hxuv
    · exact hs x (.thread t) h.was_thread hm
    · exact hs x b hb₀ hm

theorem Shuts.isdead_false (hx : s.isdead x = false) : s'.isdead x = false := by
  by_cases hxuv : x = uv
  · exact hxuv ▸ h.alive
  · rw [h.isdead hxuv]
    exact hx

theorem Shuts.alive_all (hs : ∀ o b, s.body o = some b → s.isdead o = false) :
    ∀ o b, s'.body o = some b → s'.isdead o = false := fun x b hx => by
  obtain ⟨b₀, hb₀, -⟩ := h.refs hx
  exact h.isdead_false (hs x b₀ hb₀)

theorem Shuts.listed {l : List Addr} (hl : s.Listed l) : s'.Listed l := by
  intro x hx
  obtain ⟨b, hb, hlist⟩ := hl x hx
  by_cases hxth : x = th
  · exact ⟨_, hxth ▸ h.body_th, rfl⟩
  · have hxuv : x ≠ uv := fun hxuv => by
      obtain ⟨level, hb', -⟩ := h.was_opened
      rw [hxuv, hb'] at hb
      rw [← Option.some.inj hb] at hlist
      cases hlist
    exact ⟨b, by rw [State.body, h.heap x hxth hxuv]; exact hb, hlist⟩

/-- When the upvalue is as marked as before, the others settle as they did. -/
theorem Shuts.settles (hx : x ≠ uv) (hm : ∀ y, s.marked y → s'.marked y)
    (hs : s.Settles (fun _ => True) x) : s'.Settles (fun _ => True) x := by
  have hg : s'.gray = s.gray := by rw [h.frame]
  have hga : s'.grayagain = s.grayagain := by rw [h.frame]
  have hw : s'.weak = s.weak := by rw [h.frame]
  have htm : s'.tmudata = s.tmudata := by rw [h.frame]
  have hkept : ∀ c b, s'.keptRefs c b = s.keptRefs c b := fun c b => by
    cases b <;> simp only [State.keptRefs, State.refs, h.value]
  have hdone : s.Done x → ∀ b, s'.body x = some b →
      (∃ b₀, s.body x = some b₀ ∧ ∀ c, s.keptRefs c b = s.keptRefs c b₀) → s'.Done x :=
    fun hdone b hb hb₀ b' hb' r hr => by
      obtain rfl := Option.some.inj (hb.symm.trans hb')
      obtain ⟨b₀, hb₀, heq⟩ := hb₀
      rw [hkept, heq, h.color x hx] at hr
      exact hm _ (hdone b₀ hb₀ r hr)
  intro b hb hmx
  rw [State.marked, h.color x hx] at hmx
  rw [h.color x hx, hg, hga, hw, htm]
  rcases h.body hb with ⟨rfl, -⟩ | ⟨rfl, rfl⟩ | ⟨-, -, hb₀⟩
  · exact absurd rfl hx
  · obtain ⟨hmay, hcase⟩ := hs _ h.was_thread hmx
    refine ⟨hmay, hcase.imp_right fun hcase => hcase.imp_right fun hcase => ⟨?_, hcase.2⟩⟩
    exact hdone hcase.1 _ hb ⟨_, h.was_thread, fun _ => rfl⟩
  · obtain ⟨hmay, hcase⟩ := hs b hb₀ hmx
    refine ⟨hmay, hcase.imp_right fun hcase => hcase.imp_right fun hcase => ⟨?_, hcase.2⟩⟩
    exact hdone hcase.1 _ hb ⟨b, hb₀, fun _ => rfl⟩

theorem Shuts.inv_white (hs : s.Inv) (hopen : t.openupval = uv :: rest)
    (hkeep : s.keeps uv = true) (hwhite : s'.color uv = .white s.currentwhite)
    (hsame : s.gcstate = .propagate → s'.color uv = s.color uv) : s'.Inv := by
  have hl := h.lists hs.lists hopen
  have hst : s'.gcstate = s.gcstate := by rw [h.frame]
  have hcolored := h.colored hs.colored (by rw [hwhite]; exact fun hf => by cases hf)
  refine ⟨hl, h.sound hs.sound hkeep, hcolored, fun hst' => ?_,
    fun hst' => h.sweeping (hs.sweeping (hst ▸ hst')) hwhite⟩
  have hmark := hs.marking (hst ▸ hst')
  have hm : ∀ x, s.marked x → s'.marked x := fun x hx => by
    by_cases hxuv : x = uv
    · rw [State.marked, hxuv, hsame (hst ▸ hst')]
      exact hxuv ▸ hx
    · rw [State.marked, h.color x hxuv]
      exact hx
  refine ⟨⟨fun x => ?_, ?_, ?_, ?_⟩, h.alive_all hmark.alive, ?_, fun r hr => ?_⟩
  · by_cases hxuv : x = uv
    · intro b _ hmx
      rw [State.marked, hxuv, hwhite] at hmx
      cases hmx
    · exact h.settles hxuv hm (hmark.tri.settles x)
  · rw [show s'.gray = s.gray by rw [h.frame]]
    exact h.listed hmark.tri.gray
  · rw [show s'.grayagain = s.grayagain by rw [h.frame]]
    exact h.listed hmark.tri.grayagain
  · rw [show s'.weak = s.weak by rw [h.frame]]
    exact h.listed hmark.tri.weak
  · rw [show s'.mainthread = s.mainthread by rw [h.frame]]
    exact hm _ hmark.main
  · rw [show s'.registry = s.registry by rw [h.frame]] at hr
    exact hm _ (hmark.registry r hr)

/-- A gray upvalue becomes black while the collector marks, and so its value has to be marked. -/
theorem Shuts.inv_black (hs : s.Inv) (hst : s.gcstate = .propagate)
    (hopen : t.openupval = uv :: rest) (hgray : s.color uv = .gray)
    (hblack : s'.color uv = .black) :
    (s'.barrier uv v).Inv ∧ (s'.barrier uv v).body = s'.body := by
  have hmark := hs.marking hst
  have hl := h.lists hs.lists hopen
  have hsound := h.sound hs.sound (keeps_of_marked (by rw [State.marked, hgray]; rfl))
  have halive := h.alive_all hmark.alive
  have ht := hsound.typed halive
  have hst' : s'.gcstate = .propagate := by rw [h.frame]; exact hst
  have hm : ∀ x, s.marked x → s'.marked x := fun x hx => by
    by_cases hxuv : x = uv
    · rw [State.marked, hxuv, hblack]
      rfl
    · rw [State.marked, h.color x hxuv]
      exact hx
  have hv : ∀ r ∈ v.refs, s'.Fits r := fun r hr => ht uv _ h.body_uv r hr
  obtain ⟨hmarks, hmv⟩ : Marks s' (s'.barrier uv v) ∧
      ∀ r ∈ v.refs, (s'.barrier uv v).marked r.2 := by
    cases v with
    | object a =>
      have heq : s'.barrier uv (.object a) = if s'.iswhite a && s'.color uv = .black then
        (if s'.gcstate = .propagate then s'.reallymarkobject a else s'.makewhite uv) else s' := rfl
      rw [heq]
      split
      next hcond =>
        rw [Bool.and_eq_true, decide_eq_true_iff, iswhite_iff] at hcond
        obtain ⟨b, hb, -⟩ := hv (.value, a) (List.mem_singleton_self _)
        refine ⟨marks_reallymarkobject ht hcond.1, fun r hr => ?_⟩
        obtain rfl := List.mem_singleton.mp hr
        exact marked_reallymarkobject ht hb
      next hcond =>
        refine ⟨Marks.refl s', fun r hr => ?_⟩
        obtain rfl := List.mem_singleton.mp hr
        by_contra hma
        exact hcond (by rw [iswhite_iff.mpr hma, hblack]; rfl)
    | _ => exact ⟨Marks.refl s', fun r hr => by cases hr⟩
  generalize s'.barrier uv v = s₂ at *
  have hadv := hmarks.advances
  have halive₂ : ∀ o b, s₂.body o = some b → s₂.isdead o = false := fun x b hx =>
    hadv.isdead (halive x b (hmarks.body ▸ hx))
  have hholds : ∀ r, s'.Fits r → s₂.Holds r := fun r hr => by
    obtain ⟨b, hb, -⟩ := id hr
    exact ⟨hr.congr hmarks.body, keeps_iff.mpr (.inl (halive₂ _ b (hmarks.body.symm ▸ hb)))⟩
  have hmain : s₂.mainthread = s.mainthread := by rw [hmarks.eq, h.frame]
  have hreg : s₂.registry = s.registry := by rw [hmarks.eq, h.frame]
  have htri : Tri (fun _ => True) s₂ := by
    refine ⟨fun x => ?_, fun x hx => ?_, ?_, ?_⟩
    · by_cases hxuv : x = uv
      · intro b hb _
        rw [hxuv, hmarks.body, h.body_uv] at hb
        obtain rfl := Option.some.inj hb
        have hc : s₂.color uv = .black := by
          rw [hmarks.keeps uv (by rw [State.marked, hblack]; rfl), hblack]
        rw [hxuv, hc]
        refine ⟨rfl, .inr (.inr ⟨fun b' hb' r hr => ?_, fun hf => by cases hf⟩)⟩
        rw [hmarks.body, h.body_uv] at hb'
        obtain rfl := Option.some.inj hb'
        exact hmv r hr
      · exact (hmarks.moves uv).settles hxuv (h.settles hxuv hm (hmark.tri.settles x))
    · rcases hmarks.listed x hx with hx | ⟨b, hb, hlist⟩
      · rw [show s'.gray = s.gray by rw [h.frame]] at hx
        obtain ⟨b, hb, hlist⟩ := h.listed hmark.tri.gray x hx
        exact ⟨b, hmarks.body.symm ▸ hb, hlist⟩
      · exact ⟨b, hmarks.body.symm ▸ hb, hlist⟩
    · rw [show s₂.grayagain = s.grayagain by rw [hmarks.eq, h.frame]]
      intro x hx
      obtain ⟨b, hb, hlist⟩ := h.listed hmark.tri.grayagain x hx
      exact ⟨b, hmarks.body.symm ▸ hb, hlist⟩
    · rw [show s₂.weak = s.weak by rw [hmarks.eq, h.frame]]
      intro x hx
      obtain ⟨b, hb, hlist⟩ := h.listed hmark.tri.weak x hx
      exact ⟨b, hmarks.body.symm ▸ hb, hlist⟩
  refine ⟨⟨hl.advances hadv, ⟨fun x b hx _ r hr => ?_, fun r hr => ?_, fun x hx => ?_⟩,
    htri.colored, fun _ => ⟨htri, halive₂, ?_, fun r hr => ?_⟩, fun hne => ?_⟩, hmarks.body⟩
  · rw [refs_congr hmarks.body] at hr
    exact hholds r (ht x b (hmarks.body ▸ hx) r hr)
  · have hroots : s₂.roots = s'.roots := by rw [hmarks.eq]; rfl
    exact hholds r (hsound.roots r (hroots ▸ hr)).1
  · have hx' : s'.isfixed x = true := by
      rw [State.isfixed, hmarks.heap] at hx
      exact hx
    rcases hsound.fixed x hx' with ⟨bytes, hb⟩ | rfl
    · exact .inl ⟨bytes, hmarks.body.symm ▸ hb⟩
    · right
      rw [hmarks.eq]
  · rw [hmain]
    exact hadv.mono _ (hm _ hmark.main)
  · rw [hreg] at hr
    exact hadv.mono _ (hm _ (hmark.registry r hr))
  · refine absurd ?_ hne
    rw [hmarks.eq]
    exact hst'

end Shut

theorem shuts_closed (hth : s.body th = some (.thread t))
    (huv : s.body uv = some (.upval (.opened th level))) (rest : List Addr) {c : Color}
    (hc : c ≠ .white (!s.currentwhite)) :
    Shuts th uv t rest (s.value (.opened th level)) s
      ((s.closed th t uv level rest).setColor uv c) := by
  have hcl := (closes_closed hth huv rest).1
  have hne : uv ≠ th := fun hx => by
    rw [hx, hth] at huv
    cases huv
  obtain ⟨obj, hobj, hobjbody⟩ := body_eq_some.mp hth
  have hheap : (s.closed th t uv level rest).heap th =
      some { obj with body := .thread { t with openupval := rest } } := by
    unfold State.closed
    rw [link_frame]
    refine (Function.update_of_ne hne.symm ..).trans ((Function.update_self ..).trans ?_)
    rw [hobj]
    rfl
  generalize s.closed th t uv level rest = s₁ at *
  obtain ⟨obj', level', hobj', hobjbody', hobj''⟩ := hcl.closed uv (List.mem_singleton_self _)
  have hlevel : level' = level := by
    have hb := body_eq_some.mpr ⟨obj', hobj', hobjbody'⟩
    rw [huv] at hb
    cases hb
    rfl
  refine ⟨?_, hne, fun x hx hxuv => ?_, ⟨obj, hobj, hobjbody, ?_⟩,
    ⟨obj', level, hobj', hlevel ▸ hobjbody', rfl, hlevel ▸ hobj''⟩, hcl.value, hcl.perm,
    hcl.unswept, fun hn => ?_, fun x hx => ?_, ?_⟩
  · rw [hcl.frame]
    rfl
  · exact hcl.heap x hx fun hx' => hxuv (List.mem_singleton.mp hx')
  · exact hheap
  · obtain ⟨hn', hmem⟩ := hcl.uvhead hn
    refine ⟨hn', fun x => (hmem x).trans ?_⟩
    rw [List.mem_singleton]
  · rw [setColor_of_ne hx, hcl.frame]
  · rw [← Bool.not_eq_true, isdead_iff, setColor_self]
    rw [show (s₁.setColor uv c).currentwhite = s.currentwhite by rw [hcl.frame]; rfl]
    exact hc

/-- One round of `luaF_close` for an upvalue that is not dead. -/
theorem closeupval_alive (hth : s.body th = some (.thread t))
    (huv : s.body uv = some (.upval (.opened th level))) (hdead : s.isdead uv = false)
    (rest : List Addr) : s.closeupval th uv rest =
      if s.color uv = .gray then
        if s.gcstate = .propagate then
          ((s.closed th t uv level rest).setColor uv .black).barrier uv
            (s.value (.opened th level))
        else (s.closed th t uv level rest).makewhite uv
      else s.closed th t uv level rest := by
  have hset : s.setOpenupval th rest = s.setBody th (.thread { t with openupval := rest }) := by
    unfold setOpenupval
    rw [hth]
  have hdead' : (s.setBody th (.thread { t with openupval := rest })).isdead uv = false := hdead
  have hframe : s.closed th t uv level rest = { s.closed th t uv level rest with
      color := s.color, gcstate := s.gcstate } := by
    rw [(closes_closed hth huv rest).1.frame]
  unfold closeupval
  rw [huv]
  dsimp only
  rw [hset, hdead', if_neg Bool.false_ne_true, value_setThread hth]
  change (if (s.closed th t uv level rest).color uv = .gray then
      if (s.closed th t uv level rest).gcstate = .propagate then
        ((s.closed th t uv level rest).setColor uv .black).barrier uv (s.value (.opened th level))
      else (s.closed th t uv level rest).makewhite uv
    else s.closed th t uv level rest) = _
  rw [show (s.closed th t uv level rest).color = s.color by rw [hframe],
    show (s.closed th t uv level rest).gcstate = s.gcstate by rw [hframe]]

/-- An upvalue is not one of the objects that stay although they are dead. -/
theorem keeps_upval_of_isdead {w : UpVal} (hs : s.Sound) (huv : s.body uv = some (.upval w))
    (hdead : s.isdead uv = true) : s.keeps uv = false := by
  rw [← Bool.not_eq_true, keeps_iff, hdead]
  rintro (hf | hfixed)
  · cases hf
  · rcases hs.fixed uv hfixed with ⟨bytes, hb⟩ | rfl
    · rw [huv] at hb
      cases hb
    · obtain ⟨⟨b, hb, hacc⟩, -⟩ := hs.roots (.thread, s.mainthread) List.mem_cons_self
      obtain rfl := Option.some.inj (huv.symm.trans hb)
      cases hacc

/-- A dead upvalue goes when it is closed. -/
structure Drops (th uv : Addr) (t : Thread) (rest : List Addr) (s s' : State) : Prop where
  frame : s' = { s with heap := s'.heap, uvhead := s.uvhead.erase uv }
  openupval : t.openupval = uv :: rest
  keeps : s.keeps uv = false
  gone : s'.heap uv = none
  thread : ∃ obj, s.heap th = some obj ∧ obj.body = .thread t ∧
    s'.heap th = some { obj with body := .thread { t with openupval := rest } }
  heap : ∀ x, x ≠ th → x ≠ uv → s'.heap x = s.heap x

theorem closeupval_drops (h : s.Inv) (hth : s.body th = some (.thread t))
    (hopen : t.openupval = uv :: rest) (hdead : s.isdead uv = true) :
    Drops th uv t rest s (s.closeupval th uv rest) := by
  obtain ⟨level, huv⟩ := (h.lists.mem_open th t hth uv).mp (hopen ▸ List.mem_cons_self)
  have hne : uv ≠ th := fun hx => by
    rw [hx, hth] at huv
    cases huv
  obtain ⟨obj, hobj, hbody⟩ := body_eq_some.mp hth
  have heq : s.closeupval th uv rest =
      (s.setBody th (.thread { t with openupval := rest })).freeupval uv := by
    unfold closeupval setOpenupval
    rw [huv, hth]
    dsimp only
    rw [if_pos]
    exact hdead
  rw [heq]
  refine ⟨rfl, hopen, keeps_upval_of_isdead h.sound huv hdead, Function.update_self ..,
    ⟨obj, hobj, hbody, ?_⟩, fun x hx hxuv =>
      (Function.update_of_ne hxuv ..).trans (Function.update_of_ne hx ..)⟩
  refine (Function.update_of_ne hne.symm ..).trans ((Function.update_self ..).trans ?_)
  rw [hobj]
  rfl

section Drop
variable (h : Drops th uv t rest s s') (hl : s.Lists)
include h

theorem Drops.was_thread : s.body th = some (.thread t) := by
  obtain ⟨obj, hobj, hbody, -⟩ := h.thread
  exact body_eq_some.mpr ⟨obj, hobj, hbody⟩

theorem Drops.body_th : s'.body th = some (.thread { t with openupval := rest }) := by
  obtain ⟨obj, -, -, hobj'⟩ := h.thread
  exact body_eq_some.mpr ⟨_, hobj', rfl⟩

theorem Drops.not_there : ¬s'.There uv := fun hx => there_iff.mp hx h.gone

theorem Drops.there (hx : s.There x) (hxuv : x ≠ uv) : s'.There x := by
  by_cases hxth : x = th
  · exact ⟨_, hxth ▸ h.body_th⟩
  · rw [there_iff, h.heap x hxth hxuv]
    exact there_iff.mp hx

include hl

theorem Drops.was_opened : ∃ level, s.body uv = some (.upval (.opened th level)) :=
  (hl.mem_open th t h.was_thread uv).mp (h.openupval ▸ List.mem_cons_self)

theorem Drops.there_of_ne (hb : s.body x = some b) (hne : ∀ level, b ≠ .upval (.opened th level)) :
    s'.There x := by
  refine h.there ⟨b, hb⟩ fun hxuv => ?_
  obtain ⟨level, huv⟩ := h.was_opened hl
  rw [hxuv, huv] at hb
  exact hne level (Option.some.inj hb).symm

theorem Drops.sweeps : Sweeps s s' := by
  have hroots : s'.roots = s.roots := by
    rw [h.frame]
    rfl
  refine ⟨fun x => ?_, fun x => .inl (by rw [h.frame]), by rw [h.frame], by rw [h.frame], hroots⟩
  by_cases hxuv : x = uv
  · subst hxuv
    refine .inr (.inl ⟨h.gone, h.keeps, fun t' ht' => ?_⟩)
    obtain ⟨level, huv⟩ := h.was_opened hl
    rw [huv] at ht'
    cases ht'
  · by_cases hxth : x = th
    · obtain ⟨obj, hobj, hbody, hobj'⟩ := h.thread
      exact .inr (.inr ⟨obj, t, rest, hxth ▸ hobj, hbody, hxth ▸ hobj'⟩)
    · exact .inl (h.heap x hxth hxuv)

theorem Drops.uvhead : Left s' s.uvhead s'.uvhead := by
  have huvhead : s'.uvhead = s.uvhead.erase uv := by rw [h.frame]
  rw [huvhead]
  refine ⟨hl.uvNodup.erase uv, fun x => ?_⟩
  rw [hl.uvNodup.mem_erase_iff]
  constructor
  · rintro ⟨hne, hx⟩
    obtain ⟨th', level, hb⟩ := (hl.mem_uvhead x).mp hx
    exact ⟨hx, h.there ⟨_, hb⟩ hne⟩
  · rintro ⟨hx, hx'⟩
    exact ⟨fun hxuv => h.not_there (hxuv ▸ hx'), hx⟩

theorem Drops.left {th' : Addr} {t₀ t' : Thread} (ht₀ : s.body th' = some (.thread t₀))
    (ht' : s'.body th' = some (.thread t')) : Left s' t₀.openupval t'.openupval := by
  by_cases hth : th' = th
  · rw [hth] at ht₀ ht'
    obtain rfl : t₀ = t := by simpa using ht₀.symm.trans h.was_thread
    obtain rfl : t' = { t₀ with openupval := rest } := by simpa using ht'.symm.trans h.body_th
    have hnodup := hl.openNodup th t₀ ht₀
    rw [h.openupval] at hnodup ⊢
    obtain ⟨hnot, hrest⟩ := List.nodup_cons.mp hnodup
    refine ⟨hrest, fun x => ?_⟩
    rw [List.mem_cons]
    constructor
    · intro hx
      have hx' : x ∈ t₀.openupval := h.openupval ▸ List.mem_cons_of_mem _ hx
      obtain ⟨level, hb⟩ := (hl.mem_open th t₀ ht₀ x).mp hx'
      exact ⟨.inr hx, h.there ⟨_, hb⟩ fun hxuv => hnot (hxuv ▸ hx)⟩
    · rintro ⟨rfl | hx, hx'⟩
      · exact absurd hx' h.not_there
      · exact hx
  · have hnuv : th' ≠ uv := fun hf => by
      obtain ⟨level, huv⟩ := h.was_opened hl
      rw [hf, huv] at ht₀
      cases ht₀
    rw [State.body, h.heap th' hth hnuv] at ht'
    obtain rfl : t' = t₀ := by simpa using ht'.symm.trans ht₀
    refine .of_there (hl.openNodup th' t' ht₀) fun x hx => ?_
    obtain ⟨level, hb⟩ := (hl.mem_open th' t' ht₀ x).mp hx
    exact h.there_of_ne hl hb fun level' hf => hth (by cases hf; rfl)

theorem Drops.lists : s'.Lists := by
  have hroot : s'.swept ++ s'.unswept ++ s'.tmudata = s.swept ++ s.unswept ++ s.tmudata := by
    rw [h.frame]
  have hstrt : s'.strt = s.strt := by rw [h.frame]
  refine hl.sweeps (h.sweeps hl) ?_ (by rw [h.frame]) ?_ (h.uvhead hl)
    (fun th' t₀ t' ht₀ ht' => h.left hl ht₀ ht') ?_
  · rw [hroot]
    refine .of_there hl.rootNodup fun x hx => ?_
    obtain ⟨b, hb, hbody⟩ := (hl.mem_root x).mp hx
    refine h.there_of_ne hl hb fun level hf => ?_
    rw [hf] at hbody
    cases hbody
  · rw [hstrt]
    refine .of_there hl.strNodup fun x hx => ?_
    obtain ⟨bytes, hb⟩ := (hl.mem_strt x).mp hx
    exact h.there_of_ne hl hb fun level hf => by cases hf
  · rw [h.frame]
    exact hl.main

end Drop

/-- A dead upvalue is freed, which happens while the collector sweeps only. -/
theorem closeupval_dead (h : s.Inv) (hth : s.body th = some (.thread t))
    (hopen : t.openupval = uv :: rest) (hdead : s.isdead uv = true) :
    (s.closeupval th uv rest).Inv ∧
      (s.closeupval th uv rest).body th = some (.thread { t with openupval := rest }) := by
  have hdrops := closeupval_drops h hth hopen hdead
  have hsw := hdrops.sweeps h.lists
  have hst : s.gcstate ≠ .propagate := fun hst => by
    obtain ⟨level, huv⟩ := hdrops.was_opened h.lists
    rw [(h.marking hst).alive uv _ huv] at hdead
    cases hdead
  have hst' : (s.closeupval th uv rest).gcstate = s.gcstate := by rw [hdrops.frame]
  refine ⟨⟨hdrops.lists h.lists, hsw.sound h.sound, hsw.colored h.colored,
    fun hf => absurd (hst'.symm.trans hf) hst, fun _ => ?_⟩, hdrops.body_th⟩
  refine hsw.pending hst' ?_ ?_ ?_ ?_ (h.sweeping hst) <;> rw [hdrops.frame]

theorem closeupval_inv (h : s.Inv) (hth : s.body th = some (.thread t))
    (hopen : t.openupval = uv :: rest) : (s.closeupval th uv rest).Inv ∧
      (s.closeupval th uv rest).body th = some (.thread { t with openupval := rest }) := by
  cases hdead : s.isdead uv with
  | true => exact closeupval_dead h hth hopen hdead
  | false =>
    have hl := h.lists
    obtain ⟨level, huv⟩ := (hl.mem_open th t hth uv).mp (hopen ▸ List.mem_cons_self)
    have hkeep : s.keeps uv = true := keeps_iff.mpr (.inl hdead)
    rw [closeupval_alive hth huv hdead]
    by_cases hgray : s.color uv = .gray
    · rw [if_pos hgray]
      by_cases hst : s.gcstate = .propagate
      · rw [if_pos hst]
        have hs := shuts_closed hth huv rest (c := .black) fun hf => by cases hf
        obtain ⟨h₁, hbody⟩ := hs.inv_black h hst hopen hgray setColor_self
        exact ⟨h₁, hbody ▸ hs.body_th⟩
      · rw [if_neg hst]
        have hs := shuts_closed hth huv rest (c := .white s.currentwhite) fun hf => by
          cases hw : s.currentwhite <;> rw [hw] at hf <;> cases hf
        have heq : (s.closed th t uv level rest).makewhite uv =
            (s.closed th t uv level rest).setColor uv (.white s.currentwhite) := by
          unfold makewhite
          rw [show (s.closed th t uv level rest).currentwhite = s.currentwhite by
            rw [(closes_closed hth huv rest).1.frame]]
        rw [heq]
        exact ⟨hs.inv_white h hopen hkeep setColor_self fun hst' => absurd hst' hst, hs.body_th⟩
    · rw [if_neg hgray]
      have hwhite : s.color uv = .white s.currentwhite := by
        refine color_of_not_marked (fun hm => ?_) hdead
        have hmay := h.colored uv _ huv hm
        cases hc : s.color uv with
        | white bit =>
          rw [State.marked, hc] at hm
          cases hm
        | gray => exact hgray hc
        | black =>
          rw [hc] at hmay
          cases hmay
      have hs := shuts_closed hth huv rest (c := .white s.currentwhite) fun hf => by
        cases hw : s.currentwhite <;> rw [hw] at hf <;> cases hf
      have hcolor : (s.closed th t uv level rest).color uv = .white s.currentwhite := by
        rw [(closes_closed hth huv rest).1.frame]
        exact hwhite
      rw [setColor_eq_self hcolor] at hs
      exact ⟨hs.inv_white h hopen hkeep hcolor fun _ => hcolor.trans hwhite.symm, hs.body_th⟩

theorem closeupvals_inv (h : s.Inv) (hth : s.body th = some (.thread t)) (level : Nat) :
    (closeupvals th level t.openupval s).Inv := by
  generalize hopen : t.openupval = l
  induction l generalizing s t with
  | nil => exact h
  | cons uv rest ih =>
    rw [closeupvals]
    split
    · obtain ⟨h₁, hth₁⟩ := closeupval_inv h hth hopen
      exact ih h₁ hth₁ rfl
    · exact h

/-- `luaF_close` keeps the invariant in every phase. -/
theorem close_inv (h : s.Inv) (th : Addr) (level : Nat) : (s.close th level).Inv := by
  unfold State.close
  split
  next t ht => exact closeupvals_inv h ht level
  next => exact h

/-! ### Opening -/

/-- What an open upvalue denotes is in the stack of its thread. -/
theorem mem_refs_of_value {r : Ref} (hth : s.body th = some (.thread t))
    (hr : r ∈ (s.value (.opened th level)).refs) : r ∈ s.refs (.thread t) := by
  simp only [State.value, hth] at hr
  refine List.mem_append_right _ (List.mem_flatMap.mpr ⟨_, ?_, hr⟩)
  rw [List.getD_eq_getElem?_getD] at hr ⊢
  cases hi : t.stack[level]? with
  | none =>
    rw [hi] at hr
    cases hr
  | some v => exact List.mem_of_getElem? hi

/-- A new upvalue in the lists of `uvhead` and of its thread. -/
structure Opens (th uv : Addr) (t : Thread) (level : Nat) (opens : List Addr) (s s' : State) :
    Prop where
  frame : s' = { s with heap := s'.heap, color := s'.color, uvhead := uv :: s.uvhead }
  fresh : s.heap uv = none
  perm : opens.Perm (uv :: t.openupval)
  heap : ∀ x, x ≠ uv → x ≠ th → s'.heap x = s.heap x
  thread : ∃ obj, s.heap th = some obj ∧ obj.body = .thread t ∧
    s'.heap th = some { obj with body := .thread { t with openupval := opens } }
  upval : s'.heap uv = some ⟨.upval (.opened th level), false, false⟩
  color : ∀ x, x ≠ uv → s'.color x = s.color x
  white : s'.color uv = .white s.currentwhite

section Open
variable {opens : List Addr} (h : Opens th uv t level opens s s')
include h

theorem Opens.ne (hb : s.body x = some b) : x ≠ uv := fun hx => by
  rw [State.body, hx, h.fresh] at hb
  cases hb

theorem Opens.body_uv : s'.body uv = some (.upval (.opened th level)) :=
  body_eq_some.mpr ⟨_, h.upval, rfl⟩

theorem Opens.body_th : s'.body th = some (.thread { t with openupval := opens }) := by
  obtain ⟨obj, -, -, hobj'⟩ := h.thread
  exact body_eq_some.mpr ⟨_, hobj', rfl⟩

theorem Opens.was_thread : s.body th = some (.thread t) := by
  obtain ⟨obj, hobj, hbody, -⟩ := h.thread
  exact body_eq_some.mpr ⟨obj, hobj, hbody⟩

theorem Opens.body_of_ne (hx : x ≠ uv) (hxth : x ≠ th) : s'.body x = s.body x := by
  rw [State.body, State.body, h.heap x hx hxth]

theorem Opens.body (hb : s'.body x = some b) : x = uv ∧ b = .upval (.opened th level) ∨
    x = th ∧ b = .thread { t with openupval := opens } ∨
      x ≠ uv ∧ x ≠ th ∧ s.body x = some b := by
  by_cases hx : x = uv
  · rw [hx, h.body_uv] at hb
    exact .inl ⟨hx, (Option.some.inj hb).symm⟩
  · by_cases hxth : x = th
    · rw [hxth, h.body_th] at hb
      exact .inr (.inl ⟨hxth, (Option.some.inj hb).symm⟩)
    · exact .inr (.inr ⟨hx, hxth, (h.body_of_ne hx hxth).symm.trans hb⟩)

/-- Objects of other forms are what they were. -/
theorem Opens.form (hk : b.kind ≠ .thread) (hopened : b ≠ .upval (.opened th level)) :
    s'.body x = some b ↔ s.body x = some b := by
  by_cases hx : x = uv
  · rw [hx, h.body_uv, State.body, h.fresh]
    exact ⟨fun hf => absurd (Option.some.inj hf).symm hopened, fun hf => by cases hf⟩
  · by_cases hxth : x = th
    · rw [hxth, h.body_th, h.was_thread]
      constructor
      · intro hf
        exact absurd (by rw [← Option.some.inj hf]; rfl) hk
      · intro hf
        exact absurd (by rw [← Option.some.inj hf]; rfl) hk
    · rw [h.body_of_ne hx hxth]

theorem Opens.opened {th' : Addr} {level' : Nat} :
    s'.body x = some (.upval (.opened th' level')) ↔
      x = uv ∧ th' = th ∧ level' = level ∨ s.body x = some (.upval (.opened th' level')) := by
  constructor
  · intro hb
    rcases h.body hb with ⟨hx, hf⟩ | ⟨-, hf⟩ | ⟨-, -, hb₀⟩
    · cases hf
      exact .inl ⟨hx, rfl, rfl⟩
    · cases hf
    · exact .inr hb₀
  · rintro (⟨rfl, rfl, rfl⟩ | hb)
    · exact h.body_uv
    · have hxth : x ≠ th := fun hxth => by
        rw [hxth, h.was_thread] at hb
        cases hb
      rw [h.body_of_ne (h.ne hb) hxth]
      exact hb

theorem Opens.value : s'.value = s.value := by
  funext w
  cases w with
  | closed v => rfl
  | opened th' level' =>
    by_cases hth : th' = th
    · rw [hth]
      simp only [State.value, h.body_th, h.was_thread]
    · by_cases huv : th' = uv
      · have hnone : s.body uv = none := by
          rw [State.body, h.fresh]
          rfl
        rw [huv]
        simp only [State.value, h.body_uv, hnone]
      · simp only [State.value, h.body_of_ne huv hth]

/-- The references of an object that was there are those that it had. -/
theorem Opens.refs (hb : s'.body x = some b) (hx : x ≠ uv) :
    ∃ b₀, s.body x = some b₀ ∧ b₀.listed = b.listed ∧ s'.refs b = s.refs b₀ := by
  rcases h.body hb with ⟨hxuv, -⟩ | ⟨rfl, rfl⟩ | ⟨-, -, hb₀⟩
  · exact absurd hxuv hx
  · exact ⟨_, h.was_thread, rfl, rfl⟩
  · refine ⟨b, hb₀, rfl, ?_⟩
    cases b <;> simp only [State.refs, h.value]

theorem Opens.isfixed (hx : x ≠ uv) : s'.isfixed x = s.isfixed x := by
  by_cases hxth : x = th
  · obtain ⟨obj, hobj, -, hobj'⟩ := h.thread
    rw [State.isfixed, State.isfixed, hxth, hobj, hobj']
    rfl
  · rw [State.isfixed, State.isfixed, h.heap x hx hxth]

theorem Opens.currentwhite : s'.currentwhite = s.currentwhite := by rw [h.frame]

theorem Opens.isdead (hx : x ≠ uv) : s'.isdead x = s.isdead x := by
  unfold State.isdead otherwhite
  rw [h.color x hx, h.currentwhite]

theorem Opens.isdead_uv : s'.isdead uv = false :=
  isdead_of_white (by rw [h.white, h.currentwhite])

theorem Opens.keeps (hx : x ≠ uv) : s'.keeps x = s.keeps x := by
  unfold State.keeps
  rw [h.isdead hx, h.isfixed hx]

theorem Opens.marked (hx : x ≠ uv) : s'.marked x ↔ s.marked x := by
  rw [State.marked, State.marked, h.color x hx]

theorem Opens.holds {r : Ref} (hr : s.Holds r) : s'.Holds r := by
  obtain ⟨⟨b, hb, hacc⟩, hk⟩ := hr
  refine ⟨?_, (h.keeps (h.ne hb)).trans hk⟩
  by_cases hxth : r.2 = th
  · rw [hxth, h.was_thread] at hb
    refine ⟨_, hxth ▸ h.body_th, ?_⟩
    rw [← Option.some.inj hb] at hacc
    exact hacc
  · exact ⟨b, (h.body_of_ne (h.ne hb) hxth).trans hb, hacc⟩

theorem Opens.roots : s'.roots = s.roots := by
  rw [h.frame]
  rfl

theorem Opens.mainthread : s'.mainthread = s.mainthread := by rw [h.frame]

theorem Opens.tmudata : s'.tmudata = s.tmudata := by rw [h.frame]

theorem Opens.uvhead : s'.uvhead = uv :: s.uvhead := by rw [h.frame]

theorem Opens.gcstate : s'.gcstate = s.gcstate := by rw [h.frame]

theorem Opens.thread_cases {th' : Addr} {t' : Thread} (ht : s'.body th' = some (.thread t')) :
    th' = th ∧ t'.openupval = opens ∨ th' ≠ th ∧ s.body th' = some (.thread t') := by
  rcases h.body ht with ⟨-, hf⟩ | ⟨hx, hf⟩ | ⟨-, hx, hb⟩
  · cases hf
  · cases hf
    exact .inl ⟨hx, rfl⟩
  · exact .inr ⟨hx, hb⟩

/-- The list of the thread is that of its open upvalues again. -/
theorem Opens.mem_open (hl : s.Lists) {th' : Addr} {t' : Thread}
    (ht : s'.body th' = some (.thread t')) (x : Addr) :
    x ∈ t'.openupval ↔ ∃ level', s'.body x = some (.upval (.opened th' level')) := by
  rcases h.thread_cases ht with ⟨rfl, heq⟩ | ⟨hne, hb⟩
  · rw [heq, h.perm.mem_iff, List.mem_cons, hl.mem_open th' t h.was_thread]
    constructor
    · rintro (rfl | ⟨level', hb⟩)
      · exact ⟨level, h.body_uv⟩
      · exact ⟨level', h.opened.mpr (.inr hb)⟩
    · rintro ⟨level', hb⟩
      rcases h.opened.mp hb with ⟨hx, -, -⟩ | hb
      · exact .inl hx
      · exact .inr ⟨level', hb⟩
  · rw [hl.mem_open th' t' hb]
    refine exists_congr fun level' => ?_
    rw [h.opened]
    exact ⟨.inr, fun hx => hx.resolve_left fun hf => hne hf.2.1⟩

theorem Opens.mem_uvhead (hl : s.Lists) (x : Addr) :
    x ∈ s'.uvhead ↔ ∃ th' level', s'.body x = some (.upval (.opened th' level')) := by
  rw [h.uvhead, List.mem_cons, hl.mem_uvhead]
  constructor
  · rintro (rfl | ⟨th', level', hb⟩)
    · exact ⟨th, level, h.body_uv⟩
    · exact ⟨th', level', h.opened.mpr (.inr hb)⟩
  · rintro ⟨th', level', hb⟩
    rcases h.opened.mp hb with ⟨hx, -, -⟩ | hb
    · exact .inl hx
    · exact .inr ⟨th', level', hb⟩

theorem Opens.lists (hl : s.Lists) : s'.Lists := by
  have hroot : s'.swept ++ s'.unswept ++ s'.tmudata = s.swept ++ s.unswept ++ s.tmudata := by
    rw [h.frame]
  have hstrt : s'.strt = s.strt := by rw [h.frame]
  have hmain : s'.mainthread ∈ s'.swept ++ s'.unswept := by
    rw [h.frame]
    exact hl.main
  have hnuv : uv ∉ s.uvhead := fun hx => by
    obtain ⟨th', level', hb⟩ := (hl.mem_uvhead uv).mp hx
    exact h.ne hb rfl
  have hnopen : uv ∉ t.openupval := fun hx => by
    obtain ⟨level', hb⟩ := (hl.mem_open th t h.was_thread uv).mp hx
    exact h.ne hb rfl
  refine ⟨hroot ▸ hl.rootNodup, fun x => ?_, fun x hx => ?_, fun x hx => ?_,
    hstrt ▸ hl.strNodup, fun x => ?_, ?_, h.mem_uvhead hl, fun th' t' ht' => ?_,
    fun th' t' ht' => h.mem_open hl ht', fun x th' level' hb => ?_, hmain⟩
  · rw [hroot, hl.mem_root x]
    constructor
    · rintro ⟨b, hb, hbody⟩
      by_cases hxth : x = th
      · exact ⟨_, hxth ▸ h.body_th, rfl⟩
      · exact ⟨b, (h.body_of_ne (h.ne hb) hxth).trans hb, hbody⟩
    · rintro ⟨b, hb, hbody⟩
      rcases h.body hb with ⟨-, rfl⟩ | ⟨rfl, rfl⟩ | ⟨-, -, hb₀⟩
      · cases hbody
      · exact ⟨_, h.was_thread, rfl⟩
      · exact ⟨b, hb₀, hbody⟩
  · obtain ⟨mt, env, hb⟩ := hl.tmudata x (h.tmudata ▸ hx)
    refine ⟨mt, env, (h.form ?_ ?_).mpr hb⟩ <;> simp [Body.kind]
  · obtain ⟨mt, env, hb⟩ := hl.tmudata x (h.tmudata ▸ hx)
    have hxth : x ≠ th := fun hxth => by
      rw [hxth, h.was_thread] at hb
      cases hb
    rw [isfinalized, h.heap x (h.ne hb) hxth]
    exact hl.finalized x (h.tmudata ▸ hx)
  · rw [hstrt, hl.mem_strt]
    refine exists_congr fun bytes => (h.form ?_ ?_).symm <;> simp [Body.kind]
  · rw [h.uvhead]
    exact List.nodup_cons.mpr ⟨hnuv, hl.uvNodup⟩
  · rcases h.thread_cases ht' with ⟨-, heq⟩ | ⟨-, hb⟩
    · rw [heq, h.perm.nodup_iff]
      exact List.nodup_cons.mpr ⟨hnopen, hl.openNodup th t h.was_thread⟩
    · exact hl.openNodup th' t' hb
  · by_cases hth : th' = th
    · exact ⟨_, hth ▸ h.body_th⟩
    · rcases h.opened.mp hb with ⟨-, hf, -⟩ | hb
      · exact absurd hf hth
      · obtain ⟨t', ht'⟩ := hl.thread x th' level' hb
        exact ⟨t', (h.body_of_ne (h.ne ht') hth).trans ht'⟩

theorem Opens.colored (hs : s.Colored) : s'.Colored := fun x b hb hm => by
  rcases h.body hb with ⟨rfl, -⟩ | ⟨rfl, rfl⟩ | ⟨hx, -, hb₀⟩
  · rw [State.marked, h.white] at hm
    cases hm
  · have hx := h.ne h.was_thread
    rw [h.color x hx]
    exact hs x (.thread t) h.was_thread ((h.marked hx).mp hm)
  · rw [h.color x hx]
    exact hs x b hb₀ ((h.marked hx).mp hm)

/-- The thread holds what the upvalue refers to. -/
theorem Opens.sound (hs : s.Sound) (hk : s.keeps th = true) : s'.Sound := by
  refine ⟨fun x b hb hkx r hr => h.holds ?_, fun r hr => h.holds (hs.roots r (h.roots ▸ hr)),
    fun x hx => ?_⟩
  · by_cases hxuv : x = uv
    · rw [hxuv, h.body_uv] at hb
      obtain rfl := Option.some.inj hb
      rw [State.refs, h.value] at hr
      exact hs.refs th _ h.was_thread hk r (mem_refs_of_value h.was_thread hr)
    · obtain ⟨b₀, hb₀, -, heq⟩ := h.refs hb hxuv
      rw [heq] at hr
      exact hs.refs x b₀ hb₀ ((h.keeps hxuv).symm.trans hkx) r hr
  · have hxuv : x ≠ uv := fun hxuv => by
      rw [State.isfixed, hxuv, h.upval] at hx
      cases hx
    rw [h.isfixed hxuv] at hx
    rcases hs.fixed x hx with ⟨bytes, hb⟩ | hmain
    · refine .inl ⟨bytes, (h.form ?_ ?_).mpr hb⟩ <;> simp [Body.kind]
    · exact .inr (hmain.trans h.mainthread.symm)

theorem Opens.listed {l : List Addr} (hl : s.Listed l) : s'.Listed l := fun x hx => by
  obtain ⟨b, hb, hlist⟩ := hl x hx
  by_cases hxth : x = th
  · exact ⟨_, hxth ▸ h.body_th, rfl⟩
  · exact ⟨b, (h.body_of_ne (h.ne hb) hxth).trans hb, hlist⟩

/-- The new upvalue is white: it is neither black nor in a gray list. -/
theorem Opens.frontier (hs : s.Sound) (hf : s.Frontier) : s'.Frontier := by
  have hgray : s'.gray = s.gray := by rw [h.frame]
  have hagain : s'.grayagain = s.grayagain := by rw [h.frame]
  have hweak : s'.weak = s.weak := by rw [h.frame]
  have hnwhite : ∀ {x c}, s'.color x = c → c ≠ .white s.currentwhite → x ≠ uv :=
    fun hc hne hx => hne (hc.symm.trans (hx ▸ h.white))
  refine ⟨fun x b hb hc htm r hr => ?_, fun x b hb hc hlist => ?_, hgray ▸ h.listed hf.gray,
    hagain ▸ h.listed hf.grayagain, hweak ▸ h.listed hf.weak⟩
  · have hx : x ≠ uv := hnwhite hc fun hf => by cases hf
    obtain ⟨b₀, hb₀, -, heq⟩ := h.refs hb hx
    rw [h.color x hx] at hc
    rw [heq] at hr
    obtain ⟨br, hbr, -⟩ := (hs.refs x b₀ hb₀ (keeps_of_black hc) r hr).1
    exact (h.marked (h.ne hbr)).mpr (hf.black x b₀ hb₀ hc (h.tmudata ▸ htm) r hr)
  · have hx : x ≠ uv := hnwhite hc fun hf => by cases hf
    obtain ⟨b₀, hb₀, hlist₀, -⟩ := h.refs hb hx
    rw [h.color x hx] at hc
    rw [hgray, hagain, hweak]
    exact hf.waits x b₀ hb₀ hc (hlist₀.trans hlist)

theorem Opens.marking (hs : s.Inv) (hst : s.gcstate = .propagate) : s'.Marking := by
  have hmark := hs.marking hst
  have hfrontier := h.frontier hs.sound hmark.tri.frontier
  have hroot : ∀ r ∈ s.roots, s.marked r.2 → s'.marked r.2 := fun r hr hm => by
    obtain ⟨b, hb, -⟩ := (hs.sound.roots r hr).1
    exact (h.marked (h.ne hb)).mpr hm
  refine ⟨hfrontier.tri (h.colored hs.colored) (h.lists hs.lists).tmudata, fun x b hb => ?_, ?_,
    fun r hr => ?_⟩
  · by_cases hx : x = uv
    · exact hx ▸ h.isdead_uv
    · obtain ⟨b₀, hb₀, -⟩ := h.refs hb hx
      rw [h.isdead hx]
      exact hmark.alive x b₀ hb₀
  · rw [h.mainthread]
    exact hroot (.thread, s.mainthread) List.mem_cons_self hmark.main
  · have hregistry : s'.registry = s.registry := by rw [h.frame]
    rw [hregistry] at hr
    refine hroot r ?_ (hmark.registry r hr)
    exact List.mem_append_left _ (List.mem_cons_of_mem _ (List.mem_cons_of_mem _ hr))

theorem Opens.sweeping (hl : s.Lists) (hs : s.Sweeping) : s'.Sweeping := by
  have hpending : ∀ x b, s.Pending x b → s'.Pending x b := fun x b hp => by
    rw [h.frame]
    cases b with
    | upval w => cases w <;> exact hp
    | _ => exact hp
  refine ⟨fun x b hb => ?_, fun x hx => ?_⟩
  · rw [h.currentwhite]
    rcases h.body hb with ⟨rfl, -⟩ | ⟨rfl, rfl⟩ | ⟨hx, -, hb₀⟩
    · exact .inl h.white
    · rw [h.color x (h.ne h.was_thread)]
      exact (hs.pending x _ h.was_thread).imp_right (hpending x (.thread t))
    · rw [h.color x hx]
      exact (hs.pending x b hb₀).imp_right (hpending x b)
  · rw [h.tmudata] at hx
    obtain ⟨mt, env, hb⟩ := hl.tmudata x hx
    rw [h.isdead (h.ne hb)]
    exact hs.tmudata x hx

theorem Opens.inv (hs : s.Inv) (hk : s.keeps th = true) : s'.Inv where
  lists := h.lists hs.lists
  sound := h.sound hs.sound hk
  colored := h.colored hs.colored
  marking := fun hst => h.marking hs (h.gcstate.symm.trans hst)
  sweeping := fun hst => h.sweeping hs.lists (hs.sweeping (h.gcstate ▸ hst))

end Open

theorem openupval_opens (hth : s.body th = some (.thread t)) (hfresh : s.heap uv = none)
    (level : Nat) : ∃ opens, Opens th uv t level opens s (s.openupval th t level uv) := by
  obtain ⟨obj, hobj, hbody⟩ := body_eq_some.mp hth
  have hne : th ≠ uv := fun hx => by
    rw [hx, hfresh] at hobj
    cases hobj
  have happend : t.openupval.takeWhile (s.atOrAbove level) ++
      t.openupval.dropWhile (s.atOrAbove level) = t.openupval := List.takeWhile_append_dropWhile
  refine ⟨t.openupval.takeWhile (s.atOrAbove level) ++
    uv :: t.openupval.dropWhile (s.atOrAbove level), ?_⟩
  refine {
    frame := rfl, fresh := hfresh, perm := ?_, heap := fun x hx hxth => ?_,
    thread := ⟨obj, hobj, hbody, ?_⟩, upval := ?_,
    color := fun x hx => Function.update_of_ne hx .., white := Function.update_self .. }
  · refine List.perm_middle.trans ?_
    rw [happend]
  · exact (Function.update_of_ne hxth ..).trans (Function.update_of_ne hx ..)
  · have hcreated : (s.create uv (.upval (.opened th level))).heap th = some obj :=
      (Function.update_of_ne hne ..).trans hobj
    refine (Function.update_self ..).trans ?_
    change Option.map _ ((s.create uv (.upval (.opened th level))).heap th) = _
    rw [hcreated]
    rfl
  · exact (Function.update_of_ne hne.symm ..).trans (Function.update_self ..)

theorem openupval_inv (h : s.Inv) (hth : s.body th = some (.thread t)) (hk : s.keeps th = true)
    (hfresh : s.heap uv = none) (level : Nat) : (s.openupval th t level uv).Inv ∧
      (∀ r, s.Holds r → (s.openupval th t level uv).Holds r) ∧
      (s.openupval th t level uv).Holds (.upval, uv) ∧
      (s.openupval th t level uv).running = s.running := by
  obtain ⟨opens, hopens⟩ := openupval_opens hth hfresh level
  refine ⟨hopens.inv h hk, fun r hr => hopens.holds hr, ⟨⟨_, hopens.body_uv, rfl⟩, ?_⟩, rfl⟩
  exact keeps_iff.mpr (.inl hopens.isdead_uv)

/-- The upvalue of a place in the stack of a thread that is not dead is there, and not dead. -/
theorem findupval_inv (h : s.Inv) (hth : s.body th = some (.thread t)) (hk : s.keeps th = true)
    (hfresh : s.heap uv = none) (level : Nat) : (s.findupval th level uv).1.Inv ∧
      (∀ r, s.Holds r → (s.findupval th level uv).1.Holds r) ∧
      (s.findupval th level uv).1.Holds (.upval, (s.findupval th level uv).2) ∧
      (s.findupval th level uv).1.running = s.running := by
  unfold findupval
  rw [hth]
  dsimp only
  split
  next p hfind =>
    have hb : s.body p = some (.upval (.opened th level)) := by
      have hp := List.find?_some hfind
      exact of_decide_eq_true hp
    cases hdead : s.isdead p with
    | false =>
      rw [if_neg Bool.false_ne_true]
      exact ⟨h, fun _ => id, ⟨⟨_, hb, rfl⟩, keeps_iff.mpr (.inl hdead)⟩, rfl⟩
    | true =>
      rw [if_pos rfl]
      have hst : s.gcstate ≠ .propagate := fun hst => by
        rw [(h.marking hst).alive p _ hb] at hdead
        cases hdead
      have hkp : (s.makewhite p).keeps p = true :=
        keeps_iff.mpr (.inl (isdead_of_white setColor_self))
      refine ⟨makewhite_inv h hst hb fun r hr => ?_, fun r hr => ⟨hr.1, ?_⟩, ⟨⟨_, hb, rfl⟩, hkp⟩,
        rfl⟩
      · exact h.sound.refs th _ hth hk r (mem_refs_of_value hth hr)
      · by_cases hx : r.2 = p
        · rw [hx]
          exact hkp
        · have hsame : (s.makewhite p).keeps r.2 = s.keeps r.2 :=
            keeps_congr rfl (setColor_of_ne hx) rfl
          rw [hsame]
          exact hr.2
  next => exact openupval_inv h hth hk hfresh level

end State
end JLua.Collector
