import JLua.Sweep

/-!
# The steps of the sweep

A bucket of the table of strings, the open upvalues of a thread, and the objects of `rootgc` one
after the other: each of them keeps the invariant of the collector.
-/

namespace JLua.Collector

set_option autoImplicit false

namespace State
variable {s s' s'' : State} {o x th uv curr : Addr} {c : Color} {b : Body} {v : TValue} {t : Thread}
variable {l l' l'' rest : List Addr}

/-! ### What of a list is left -/

def There (s : State) (o : Addr) : Prop := ∃ b, s.body o = some b

/-- The second list has what of the first is still there. -/
structure Left (s' : State) (l l' : List Addr) : Prop where
  nodup : l'.Nodup
  mem : ∀ o, o ∈ l' ↔ o ∈ l ∧ s'.There o

theorem Left.of_there (hl : l.Nodup) (h : ∀ o ∈ l, s'.There o) : Left s' l l :=
  ⟨hl, fun o => ⟨fun ho => ⟨ho, h o ho⟩, And.left⟩⟩

theorem Left.trans (h : Left s' l l') (h' : Left s'' l' l'')
    (hs : ∀ o, s''.There o → s'.There o) : Left s'' l l'' :=
  ⟨h'.nodup, fun o => by
    rw [h'.mem, h.mem]
    exact ⟨fun ho => ⟨ho.1.1, ho.2⟩, fun ho => ⟨⟨ho.1, hs o ho.2⟩, ho.2⟩⟩⟩

theorem there_iff : s.There o ↔ s.heap o ≠ none := by
  cases hobj : s.heap o with
  | none =>
    refine ⟨fun ⟨b, hb⟩ => ?_, fun h => absurd rfl h⟩
    rw [State.body, hobj] at hb
    cases hb
  | some obj =>
    refine ⟨fun _ h => (by cases h), fun _ => ?_⟩
    exact ⟨obj.body, body_eq_some.mpr ⟨obj, hobj, rfl⟩⟩

theorem exists_body {α : Type} {f : α → Body} :
    (∃ b, s.body o = some b ∧ ∃ y, b = f y) ↔ ∃ y, s.body o = some (f y) :=
  ⟨fun ⟨_, hb, y, hy⟩ => ⟨y, hy ▸ hb⟩, fun ⟨y, hb⟩ => ⟨_, hb, y, rfl⟩⟩

/-- A list that has all objects of some form has what is left of them. -/
theorem Left.mem_iff {P : Body → Prop} (hleft : Left s' l l') (h : Sweeps s s')
    (hP : ∀ t l, P (.thread { t with openupval := l }) ↔ P (.thread t))
    (hmem : o ∈ l ↔ ∃ b, s.body o = some b ∧ P b) : o ∈ l' ↔ ∃ b, s'.body o = some b ∧ P b := by
  rw [hleft.mem, hmem]
  constructor
  · rintro ⟨⟨b, hb, hp⟩, b', hb'⟩
    refine ⟨b', hb', ?_⟩
    rcases h.body hb' with hb₀ | ⟨t, l, hb₀, rfl⟩
    · obtain rfl := Option.some.inj (hb.symm.trans hb₀)
      exact hp
    · obtain rfl := Option.some.inj (hb.symm.trans hb₀)
      exact (hP t l).mpr hp
  · rintro ⟨b, hb, hp⟩
    refine ⟨?_, b, hb⟩
    rcases h.body hb with hb₀ | ⟨t, l, hb₀, rfl⟩
    · exact ⟨b, hb₀, hp⟩
    · exact ⟨_, hb₀, (hP t l).mp hp⟩

theorem Left.mem_form {α : Type} {f : α → Body} (hleft : Left s' l l') (h : Sweeps s s')
    (hf : ∀ t y, Body.thread t ≠ f y) (hmem : o ∈ l ↔ ∃ y, s.body o = some (f y)) :
    o ∈ l' ↔ ∃ y, s'.body o = some (f y) := by
  rw [← exists_body]
  refine hleft.mem_iff (P := fun b => ∃ y, b = f y) h (fun t l => ?_) (hmem.trans exists_body.symm)
  exact ⟨fun ⟨y, hy⟩ => absurd hy (hf _ y), fun ⟨y, hy⟩ => absurd hy (hf _ y)⟩

theorem Lists.sweeps (hl : s.Lists) (h : Sweeps s s')
    (hroot : Left s' (s.swept ++ s.unswept ++ s.tmudata) (s'.swept ++ s'.unswept ++ s'.tmudata))
    (htm : s'.tmudata = s.tmudata) (hstrt : Left s' s.strt.flatten s'.strt.flatten)
    (huv : Left s' s.uvhead s'.uvhead)
    (hopen : ∀ th t t', s.body th = some (.thread t) → s'.body th = some (.thread t') →
      Left s' t.openupval t'.openupval)
    (hmain : s'.mainthread ∈ s'.swept ++ s'.unswept) : s'.Lists := by
  have hthere : ∀ o ∈ s'.tmudata, s'.There o := fun o ho =>
    ((hroot.mem o).mp (List.mem_append_right _ ho)).2
  have hthread : ∀ th t', s'.body th = some (.thread t') → ∃ t, s.body th = some (.thread t) := by
    intro th t' ht'
    rcases h.body ht' with ht | ⟨t, _, ht, -⟩
    · exact ⟨t', ht⟩
    · exact ⟨t, ht⟩
  refine ⟨hroot.nodup, fun o => ?_, fun o ho => ?_, fun o ho => ?_, hstrt.nodup, fun o => ?_,
    huv.nodup, fun o => ?_, fun th t' ht' => ?_, fun th t' ht' o => ?_, fun o th level ho => ?_,
    hmain⟩
  · exact hroot.mem_iff (P := fun b => b.isRoot = true) h (fun _ _ => Iff.rfl) (hl.mem_root o)
  · obtain ⟨b', hb'⟩ := hthere o ho
    obtain ⟨mt, env, hb⟩ := hl.tmudata o (htm ▸ ho)
    rcases h.body hb' with hb₀ | ⟨t, _, hb₀, -⟩
    · exact ⟨mt, env, hb' ▸ hb₀.symm.trans hb⟩
    · rw [hb] at hb₀
      cases hb₀
  · have hfin := hl.finalized o (htm ▸ ho)
    rcases h.heap o with heq | ⟨hnone, -⟩ | ⟨obj, t, l, hobj, -, hobj'⟩
    · rwa [isfinalized, heq]
    · exact absurd hnone (there_iff.mp (hthere o ho))
    · rw [isfinalized, hobj] at hfin
      rw [isfinalized, hobj']
      exact hfin
  · exact hstrt.mem_form (f := .string) h (fun _ _ hf => by cases hf) (hl.mem_strt o)
  · have hprod : ∀ s : State, (∃ y : Addr × Nat, s.body o = some (.upval (.opened y.1 y.2))) ↔
        ∃ th level, s.body o = some (.upval (.opened th level)) := by
      intro s
      constructor
      · intro hy
        obtain ⟨y, hy⟩ := hy
        exact ⟨y.1, y.2, hy⟩
      · intro ho
        obtain ⟨th, level, ho⟩ := ho
        exact ⟨(th, level), ho⟩
    rw [← hprod]
    exact huv.mem_form (f := fun y : Addr × Nat => .upval (.opened y.1 y.2)) h
      (fun _ _ hf => by cases hf) ((hl.mem_uvhead o).trans (hprod s).symm)
  · obtain ⟨t, ht⟩ := hthread th t' ht'
    exact (hopen th t t' ht ht').nodup
  · obtain ⟨t, ht⟩ := hthread th t' ht'
    exact (hopen th t t' ht ht').mem_form (f := fun level => .upval (.opened th level)) h
      (fun _ _ hf => by cases hf) (hl.mem_open th t ht o)
  · rcases h.body ho with ho | ⟨t, _, -, hf⟩
    · obtain ⟨t, ht⟩ := hl.thread o th level ho
      rcases h.body_of_keeps ht (.inr rfl) with ht' | ⟨_, _, -, ht'⟩
      · exact ⟨_, ht'⟩
      · exact ⟨_, ht'⟩
    · cases hf

/-! ### The induction over a list -/

theorem sweepwholelist_ind {R : State → State → Prop} (freeobj : State → Addr → State)
    (hrefl : ∀ s, R s s) (htrans : ∀ s s' s'', R s s' → R s' s'' → R s s'')
    (hwhite : ∀ s o, R s (s.makewhite o)) (hfree : ∀ s o, R s (freeobj s o)) (l : List Addr)
    (s : State) : R s (sweepwholelist freeobj l s).1 := by
  induction l generalizing s with
  | nil => exact hrefl s
  | cons curr l ih =>
    rw [sweepwholelist]
    split
    · exact htrans _ _ _ (hwhite s curr) (ih _)
    · exact htrans _ _ _ (hfree s curr) (ih _)

/-! ### What waits for the sweep -/

theorem Pending.congr {b : Body} (h : s.Pending o b) (hk : b.kind ≠ .string)
    (hstate : s'.gcstate = s.gcstate) (hunswept : s'.unswept = s.unswept)
    (htm : s'.tmudata = s.tmudata) : s'.Pending o b := by
  cases b with
  | string bytes => exact absurd rfl hk
  | upval uv =>
    cases uv <;>
    · unfold Pending at h ⊢
      rw [hstate, hunswept, htm]
      exact h
  | _ =>
    unfold Pending at h ⊢
    rw [hstate, hunswept, htm]
    exact h

/-- When neither the lists nor the phase change, what waited waits. -/
theorem Sweeps.pending (h : Sweeps s s') (hstate : s'.gcstate = s.gcstate)
    (hstrt : s'.strt = s.strt) (hsweep : s'.sweepstrgc = s.sweepstrgc)
    (hunswept : s'.unswept = s.unswept) (htm : s'.tmudata = s.tmudata) (hs : s.Sweeping) :
    s'.Sweeping := by
  refine ⟨fun x b hb => ?_, fun x hx => h.isdead (hs.tmudata x (htm ▸ hx))⟩
  rcases h.color x with hc | ⟨-, hc⟩
  swap
  · exact .inl (by rw [hc, h.currentwhite])
  rw [hc, h.currentwhite]
  rcases h.body hb with hb₀ | ⟨t, l, hb₀, rfl⟩
  · refine (hs.pending x b hb₀).imp_right fun hp => ?_
    unfold Pending at hp ⊢
    rw [hstate, hstrt, hsweep, hunswept, htm]
    exact hp
  · refine (hs.pending x _ hb₀).imp_right fun hp => ?_
    unfold Pending at hp ⊢
    rw [hstate, hunswept, htm]
    exact hp

/-! ### Strings -/

theorem freestring_spec (s : State) (o : Addr) :
    (s.freestring o).heap = Function.update s.heap o none ∧ (s.freestring o).color = s.color ∧
      (s.freestring o).currentwhite = s.currentwhite := ⟨rfl, rfl, rfl⟩

theorem sweepstrings_frame (l : List Addr) (s : State) :
    (sweepwholelist freestring l s).1 = { s with
      heap := (sweepwholelist freestring l s).1.heap
      color := (sweepwholelist freestring l s).1.color
      nuse := (sweepwholelist freestring l s).1.nuse } :=
  sweepwholelist_ind (R := fun s s' => s' = { s with
      heap := s'.heap, color := s'.color, nuse := s'.nuse })
    freestring (fun _ => rfl) (fun s s' s'' h h' => by rw [h', h]) (fun _ _ => rfl)
    (fun _ _ => rfl) l s

/-- One bucket of the table of strings. -/
def sweepbucket (s : State) : State :=
  let (s, bucket) := sweepwholelist freestring (s.strt.getD s.sweepstrgc []) s
  { s with
    strt := s.strt.set s.sweepstrgc bucket
    sweepstrgc := s.sweepstrgc + 1 }

theorem mem_flatten_of_mem_getD {strt : List (List Addr)} {i : Nat} (h : o ∈ strt.getD i []) :
    o ∈ strt.flatten := by
  rw [List.getD_eq_getElem?_getD] at h
  cases hi : strt[i]? with
  | none =>
    rw [hi] at h
    cases h
  | some l =>
    rw [hi] at h
    exact List.mem_flatten.mpr ⟨l, List.mem_of_getElem? hi, h⟩

/-- Filtering one bucket filters the strings of the table. -/
theorem flatten_set_filter {strt : List (List Addr)} (i : Nat) (p : Addr → Bool)
    (hn : strt.flatten.Nodup) :
    ((strt.set i ((strt.getD i []).filter p)).flatten).Nodup ∧
      ∀ o, o ∈ (strt.set i ((strt.getD i []).filter p)).flatten ↔
        o ∈ strt.flatten ∧ (o ∈ strt.getD i [] → p o = true) := by
  induction strt generalizing i with
  | nil => simp
  | cons bucket strt ih =>
    obtain ⟨hbucket, hstrt, hdisj⟩ := List.nodup_append.mp hn
    cases i with
    | zero =>
      simp only [List.getD_cons_zero, List.set_cons_zero, List.flatten_cons, List.mem_append,
        List.mem_filter]
      refine ⟨List.nodup_append.mpr ⟨hbucket.filter p, hstrt, fun a ha b hb => ?_⟩, fun o => ?_⟩
      · exact hdisj a (List.mem_of_mem_filter ha) b hb
      · constructor
        · rintro (ho | ho)
          · exact ⟨.inl ho.1, fun _ => ho.2⟩
          · exact ⟨.inr ho, fun ho' => absurd rfl (hdisj o ho' o ho)⟩
        · rintro ⟨ho | ho, hp⟩
          · exact .inl ⟨ho, hp ho⟩
          · exact .inr ho
    | succ i =>
      obtain ⟨hnodup, hmem⟩ := ih i hstrt
      simp only [List.getD_cons_succ, List.set_cons_succ, List.flatten_cons, List.mem_append, hmem]
      refine ⟨List.nodup_append.mpr ⟨hbucket, hnodup, fun a ha b hb => ?_⟩, fun o => ?_⟩
      · exact hdisj a ha b ((hmem b).mp hb).1
      · constructor
        · rintro (ho | ho)
          · refine ⟨.inl ho, fun ho' => ?_⟩
            exact absurd rfl (hdisj o ho o (mem_flatten_of_mem_getD ho'))
          · exact ⟨.inr ho.1, ho.2⟩
        · rintro ⟨ho | ho, hp⟩
          · exact .inl ho
          · exact .inr ⟨ho, hp⟩

theorem nodup_getD {strt : List (List Addr)} (hn : strt.flatten.Nodup) (i : Nat) :
    (strt.getD i []).Nodup := by
  rw [List.getD_eq_getElem?_getD]
  cases hi : strt[i]? with
  | none => exact List.nodup_nil
  | some l => exact hn.sublist (List.sublist_flatten_of_mem (List.mem_of_getElem? hi))

theorem mem_flatten_drop {strt : List (List Addr)} {i : Nat} (h : o ∈ (strt.drop i).flatten) :
    o ∈ strt.getD i [] ∨ o ∈ (strt.drop (i + 1)).flatten := by
  by_cases hi : i < strt.length
  · rw [List.drop_eq_getElem_cons hi, List.flatten_cons, List.mem_append] at h
    rwa [List.getD_eq_getElem _ _ hi]
  · rw [List.drop_eq_nil_of_le (not_lt.mp hi)] at h
    cases h

/-- The bucket of strings that was next, after the sweep. -/
structure SweepsBucket (bucket : List Addr) (s s' : State) : Prop where
  bucket_eq : s.strt.getD s.sweepstrgc [] = bucket
  frame : s' = { s with
    heap := s'.heap, color := s'.color, nuse := s'.nuse
    strt := s.strt.set s.sweepstrgc (bucket.filter s.keeps)
    sweepstrgc := s.sweepstrgc + 1 }
  heap : ∀ x, s'.heap x = if x ∈ bucket ∧ s.keeps x = false then none else s.heap x
  color : ∀ x, s'.color x =
    if x ∈ bucket ∧ s.keeps x = true then .white s.currentwhite else s.color x

theorem sweepbucket_spec (hl : s.Lists) :
    SweepsBucket (s.strt.getD s.sweepstrgc []) s s.sweepbucket := by
  obtain ⟨hlist, hcolor, hheap⟩ := sweepwholelist_spec (s := s) freestring_spec
    (nodup_getD hl.strNodup s.sweepstrgc)
  refine ⟨rfl, ?_, hheap, hcolor⟩
  unfold sweepbucket
  dsimp only
  rw [hlist]
  exact congrArg (fun s' : State => { s' with
    strt := s'.strt.set s'.sweepstrgc ((s.strt.getD s.sweepstrgc []).filter s.keeps)
    sweepstrgc := s'.sweepstrgc + 1 }) (sweepstrings_frame (s.strt.getD s.sweepstrgc []) s)

section Bucket
variable {bucket : List Addr} (h : SweepsBucket bucket s s') (hl : s.Lists)
include h hl

theorem SweepsBucket.string (hx : x ∈ bucket) : ∃ bytes, s.body x = some (.string bytes) :=
  (hl.mem_strt x).mp (mem_flatten_of_mem_getD (h.bucket_eq ▸ hx))

theorem SweepsBucket.sweeps : Sweeps s s' := by
  have hroots : s'.roots = s.roots := by
    rw [h.frame]
    rfl
  refine ⟨fun x => ?_, fun x => ?_, by rw [h.frame], by rw [h.frame], hroots⟩
  · by_cases hx : x ∈ bucket ∧ s.keeps x = false
    · refine .inr (.inl ⟨(h.heap x).trans (if_pos hx), hx.2, fun t ht => ?_⟩)
      obtain ⟨bytes, hb⟩ := h.string hl hx.1
      rw [ht] at hb
      cases hb
    · exact .inl ((h.heap x).trans (if_neg hx))
  · by_cases hx : x ∈ bucket ∧ s.keeps x = true
    · exact .inr ⟨hx.2, (h.color x).trans (if_pos hx)⟩
    · exact .inl ((h.color x).trans (if_neg hx))

omit hl in
theorem SweepsBucket.there (hx : s.There x) : s'.There x ↔ (x ∈ bucket → s.keeps x = true) := by
  rw [there_iff, h.heap x]
  constructor
  · intro hx' hxb
    by_contra hk
    exact hx' (if_pos ⟨hxb, by simpa using hk⟩)
  · intro hk
    rw [if_neg]
    · exact there_iff.mp hx
    · rintro ⟨hxb, hdead⟩
      rw [hk hxb] at hdead
      cases hdead

/-- Whatever is not a string is still there. -/
theorem SweepsBucket.there_of_kind (hb : s.body x = some b) (hk : b.kind ≠ .string) :
    s'.There x := by
  refine (h.there ⟨b, hb⟩).mpr fun hx => ?_
  obtain ⟨bytes, hb'⟩ := h.string hl hx
  obtain rfl := Option.some.inj (hb.symm.trans hb')
  exact absurd rfl hk

theorem SweepsBucket.strings : Left s' s.strt.flatten s'.strt.flatten := by
  have hstrt : s'.strt = s.strt.set s.sweepstrgc (bucket.filter s.keeps) := by rw [h.frame]
  obtain ⟨hnodup, hmem⟩ := flatten_set_filter s.sweepstrgc s.keeps hl.strNodup
  rw [h.bucket_eq] at hnodup hmem
  rw [hstrt]
  refine ⟨hnodup, fun x => ?_⟩
  rw [hmem]
  refine and_congr_right fun hx => ?_
  obtain ⟨bytes, hb⟩ := (hl.mem_strt x).mp hx
  exact (h.there ⟨_, hb⟩).symm

theorem SweepsBucket.openupval {t' : Thread} (ht : s.body th = some (.thread t))
    (ht' : s'.body th = some (.thread t')) : Left s' t.openupval t'.openupval := by
  have hnot : th ∉ bucket := fun hx => by
    obtain ⟨bytes, hb⟩ := h.string hl hx
    rw [ht] at hb
    cases hb
  rw [State.body, h.heap th, if_neg fun hx => hnot hx.1] at ht'
  obtain rfl : t' = t := by simpa using ht'.symm.trans ht
  refine .of_there (hl.openNodup th t' ht) fun x hx => ?_
  obtain ⟨level, hb⟩ := (hl.mem_open th t' ht x).mp hx
  exact h.there_of_kind hl hb (by simp [Body.kind])

theorem SweepsBucket.lists : s'.Lists := by
  have hroot : s'.swept ++ s'.unswept ++ s'.tmudata = s.swept ++ s.unswept ++ s.tmudata := by
    rw [h.frame]
  have huv : s'.uvhead = s.uvhead := by rw [h.frame]
  refine hl.sweeps (h.sweeps hl) ?_ (by rw [h.frame]) (h.strings hl) ?_
    (fun th t t' ht ht' => h.openupval hl ht ht') ?_
  · rw [hroot]
    refine .of_there hl.rootNodup fun x hx => ?_
    obtain ⟨b, hb, hbody⟩ := (hl.mem_root x).mp hx
    refine h.there_of_kind hl hb fun hk => ?_
    cases b with
    | string bytes => cases hbody
    | _ => cases hk
  · rw [huv]
    refine .of_there hl.uvNodup fun x hx => ?_
    obtain ⟨th, level, hb⟩ := (hl.mem_uvhead x).mp hx
    exact h.there_of_kind hl hb (by simp [Body.kind])
  · rw [h.frame]
    exact hl.main

omit hl in
/-- A string that waited is in a later bucket, or white. -/
theorem SweepsBucket.pending (hc : s'.color x = s.color x) (hb : s'.body x = some b)
    (hp : s.Pending x b) : s.color x = .white s.currentwhite ∨ s'.Pending x b := by
  have hst : s'.gcstate = s.gcstate := by rw [h.frame]
  have hunswept : s'.unswept = s.unswept := by rw [h.frame]
  have htm : s'.tmudata = s.tmudata := by rw [h.frame]
  have hstrt : s'.strt = s.strt.set s.sweepstrgc (bucket.filter s.keeps) := by rw [h.frame]
  have hgc : s'.sweepstrgc = s.sweepstrgc + 1 := by rw [h.frame]
  cases b with
  | string bytes =>
    rcases mem_flatten_drop hp.2 with hx | hx
    · rw [h.bucket_eq] at hx
      have hkeep : s.keeps x = true := by
        by_contra hk
        refine there_iff.mp ⟨_, hb⟩ ?_
        rw [h.heap x, if_pos ⟨hx, by simpa using hk⟩]
      left
      rw [← hc, h.color x, if_pos ⟨hx, hkeep⟩]
    · refine .inr ⟨hst.trans hp.1, ?_⟩
      rwa [hstrt, hgc, List.drop_set_of_lt (Nat.lt_succ_self _)]
  | _ => exact .inr (hp.congr (by simp [Body.kind]) hst hunswept htm)

theorem SweepsBucket.sweeping (hs : s.Sweeping) : s'.Sweeping := by
  have hsw := h.sweeps hl
  have hst : s'.gcstate = s.gcstate := by rw [h.frame]
  have hunswept : s'.unswept = s.unswept := by rw [h.frame]
  have htm : s'.tmudata = s.tmudata := by rw [h.frame]
  refine ⟨fun x b hb => ?_, fun x hx => hsw.isdead (hs.tmudata x (htm ▸ hx))⟩
  rcases hsw.color x with hc | ⟨-, hc⟩
  · rw [hc, hsw.currentwhite]
    rcases hsw.body hb with hb₀ | ⟨t, l, hb₀, rfl⟩
    · rcases hs.pending x b hb₀ with hw | hp
      · exact .inl hw
      · exact h.pending hc hb hp
    · refine (hs.pending x _ hb₀).imp_right fun hp => ?_
      exact hp.congr (by simp [Body.kind]) hst hunswept htm
  · exact .inl (by rw [hc, hsw.currentwhite])

end Bucket

theorem sweepbucket_inv (h : s.Inv) (hstate : s.gcstate = .sweepstring) : s.sweepbucket.Inv := by
  have hb := sweepbucket_spec h.lists
  have hsw := hb.sweeps h.lists
  have hst : s.sweepbucket.gcstate = .sweepstring := by rw [hb.frame, hstate]
  refine ⟨hb.lists h.lists, hsw.sound h.sound, hsw.colored h.colored, fun hst' => ?_, fun _ => ?_⟩
  · rw [hst] at hst'
    cases hst'
  · exact hb.sweeping h.lists (h.sweeping (by rw [hstate]; decide))

/-! ### The open upvalues of a thread -/

theorem freeupval_spec (s : State) (o : Addr) :
    (s.freeupval o).heap = Function.update s.heap o none ∧ (s.freeupval o).color = s.color ∧
      (s.freeupval o).currentwhite = s.currentwhite := ⟨rfl, rfl, rfl⟩

theorem sweepopen_frame (l : List Addr) (s : State) :
    (sweepwholelist freeupval l s).1 = { s with
      heap := (sweepwholelist freeupval l s).1.heap
      color := (sweepwholelist freeupval l s).1.color
      uvhead := (sweepwholelist freeupval l s).1.uvhead } :=
  sweepwholelist_ind (R := fun s s' => s' = { s with
      heap := s'.heap, color := s'.color, uvhead := s'.uvhead })
    freeupval (fun _ => rfl) (fun s s' s'' h h' => by rw [h', h]) (fun _ _ => rfl)
    (fun _ _ => rfl) l s

theorem there_of_free (h : (s.free o).There x) : s.There x := by
  rw [there_iff, free] at h
  refine there_iff.mpr fun hnone => h ?_
  by_cases hx : x = o
  · rw [hx]
    exact Function.update_self ..
  · rw [← hnone]
    exact Function.update_of_ne hx ..

theorem not_there_free : ¬(s.free o).There o := by
  rw [there_iff, not_not]
  exact Function.update_self ..

theorem there_free (h : s.There x) (hx : x ≠ o) : (s.free o).There x := by
  rw [there_iff] at h ⊢
  rwa [show (s.free o).heap x = s.heap x from Function.update_of_ne hx ..]

/-- Freed upvalues leave the list of all open ones. -/
theorem sweepopen_uvhead (l : List Addr) (s : State) (h : Left s s.uvhead s.uvhead) :
    Left (sweepwholelist freeupval l s).1 s.uvhead (sweepwholelist freeupval l s).1.uvhead := by
  have hind := sweepwholelist_ind (R := fun s s' => (∀ o, s'.There o → s.There o) ∧
      (Left s s.uvhead s.uvhead → Left s' s.uvhead s'.uvhead))
    freeupval (fun _ => ⟨fun _ => id, id⟩)
    (fun s s' s'' h h' => by
      refine ⟨fun o ho => h.1 o (h'.1 o ho), fun hs => ?_⟩
      have hs' := h.2 hs
      refine hs'.trans (h'.2 ?_) h'.1
      exact .of_there hs'.nodup fun o ho => ((hs'.mem o).mp ho).2)
    (fun s o => ⟨fun _ => id, fun hs => .of_there hs.nodup fun x hx => ((hs.mem x).mp hx).2⟩)
    (fun s o => by
      refine ⟨fun x hx => there_of_free hx, fun hs => ?_⟩
      refine ⟨hs.nodup.erase o, fun x => ?_⟩
      rw [show (s.freeupval o).uvhead = s.uvhead.erase o from rfl, hs.nodup.mem_erase_iff]
      constructor
      · rintro ⟨hne, hx⟩
        exact ⟨hx, there_free ((hs.mem x).mp hx).2 hne⟩
      · rintro ⟨hx, hthere⟩
        exact ⟨fun hxo => not_there_free (hxo ▸ hthere), hx⟩)
    l s
  exact hind.2 h

/-- The open upvalues of a thread have the current white. -/
def WhiteUpvals (s : State) (th : Addr) : Prop :=
  ∀ o level, s.body o = some (.upval (.opened th level)) → s.color o = .white s.currentwhite

/-- The open upvalues of a thread after the sweep. -/
structure SweepsUpvals (th : Addr) (t : Thread) (s s' : State) : Prop where
  frame : s' = { s with heap := s'.heap, color := s'.color, uvhead := s'.uvhead }
  thread : ∃ obj, s.heap th = some obj ∧ obj.body = .thread t ∧ s'.heap th = some { obj with
    body := .thread { t with openupval := t.openupval.filter s.keeps } }
  heap : ∀ x, x ≠ th →
    s'.heap x = if x ∈ t.openupval ∧ s.keeps x = false then none else s.heap x
  color : ∀ x, s'.color x =
    if x ∈ t.openupval ∧ s.keeps x = true then .white s.currentwhite else s.color x
  uvhead : Left s' s.uvhead s'.uvhead

theorem sweepupvals_spec (hl : s.Lists) (ht : s.body th = some (.thread t)) :
    SweepsUpvals th t s (s.sweepupvals th) := by
  have hth : th ∉ t.openupval := fun hx => by
    obtain ⟨level, hb⟩ := (hl.mem_open th t ht th).mp hx
    rw [ht] at hb
    cases hb
  obtain ⟨hlist, hcolor, hheap⟩ := sweepwholelist_spec (s := s) freeupval_spec
    (hl.openNodup th t ht)
  have hframe := sweepopen_frame t.openupval s
  have huv := sweepopen_uvhead t.openupval s <| .of_there hl.uvNodup fun o ho => by
    obtain ⟨th', level, hb⟩ := (hl.mem_uvhead o).mp ho
    exact ⟨_, hb⟩
  unfold sweepupvals
  rw [ht]
  dsimp only
  generalize sweepwholelist freeupval t.openupval s = swept at *
  obtain ⟨s₁, openupval⟩ := swept
  dsimp only at *
  subst hlist
  have hheapth : s₁.heap th = s.heap th := by rw [hheap th, if_neg fun hx => hth hx.1]
  obtain ⟨obj, hobj, hbody⟩ := body_eq_some.mp ht
  have hset : s₁.setOpenupval th (t.openupval.filter s.keeps) =
      s₁.setBody th (.thread { t with openupval := t.openupval.filter s.keeps }) := by
    unfold setOpenupval
    rw [show s₁.body th = some (.thread t) by rw [State.body, hheapth]; exact ht]
  rw [hset]
  set s₂ := s₁.setBody th (.thread { t with openupval := t.openupval.filter s.keeps }) with hs₂
  have hheap₂ : ∀ x, x ≠ th → s₂.heap x = s₁.heap x := fun x hx => Function.update_of_ne hx ..
  have hheapth₂ : s₂.heap th = some { obj with
      body := .thread { t with openupval := t.openupval.filter s.keeps } } := by
    rw [hs₂, setBody, hheapth, hobj]
    exact Function.update_self ..
  have hsame : ∀ x, s₂.There x ↔ s₁.There x := fun x => by
    by_cases hxth : x = th
    · rw [there_iff, there_iff, hxth, hheapth₂, hheapth, hobj]
      exact ⟨fun _ hnone => (by cases hnone), fun _ hnone => (by cases hnone)⟩
    · rw [there_iff, there_iff, hheap₂ x hxth]
  refine ⟨?_, ⟨obj, hobj, hbody, hheapth₂⟩, fun x hx => (hheap₂ x hx).trans (hheap x), hcolor,
    huv.nodup, fun x => ?_⟩
  · rw [hs₂, hframe]
    rfl
  · rw [hsame]
    exact huv.mem x

section Upvals
variable (h : SweepsUpvals th t s s') (hl : s.Lists)
include h

theorem SweepsUpvals.was_thread : s.body th = some (.thread t) := by
  obtain ⟨obj, hobj, hbody, -⟩ := h.thread
  exact body_eq_some.mpr ⟨obj, hobj, hbody⟩

include hl

theorem SweepsUpvals.opened (hx : x ∈ t.openupval) :
    x ≠ th ∧ ∃ level, s.body x = some (.upval (.opened th level)) := by
  obtain ⟨level, hb⟩ := (hl.mem_open th t h.was_thread x).mp hx
  refine ⟨fun hxth => ?_, level, hb⟩
  rw [hxth, h.was_thread] at hb
  cases hb

theorem SweepsUpvals.sweeps : Sweeps s s' := by
  have hroots : s'.roots = s.roots := by
    rw [h.frame]
    rfl
  refine ⟨fun x => ?_, fun x => ?_, by rw [h.frame], by rw [h.frame], hroots⟩
  · by_cases hxth : x = th
    · obtain ⟨obj, hobj, hbody, hobj'⟩ := h.thread
      exact .inr (.inr ⟨obj, t, _, hxth ▸ hobj, hbody, hxth ▸ hobj'⟩)
    · by_cases hx : x ∈ t.openupval ∧ s.keeps x = false
      · refine .inr (.inl ⟨(h.heap x hxth).trans (if_pos hx), hx.2, fun t' ht' => ?_⟩)
        obtain ⟨-, level, hb⟩ := h.opened hl hx.1
        rw [ht'] at hb
        cases hb
      · exact .inl ((h.heap x hxth).trans (if_neg hx))
  · by_cases hx : x ∈ t.openupval ∧ s.keeps x = true
    · exact .inr ⟨hx.2, (h.color x).trans (if_pos hx)⟩
    · exact .inl ((h.color x).trans (if_neg hx))

/-- Whatever is not an open upvalue of the thread is still there. -/
theorem SweepsUpvals.there (hb : s.body x = some b)
    (hk : ∀ level, b ≠ .upval (.opened th level)) : s'.There x := by
  by_cases hxth : x = th
  · obtain ⟨obj, -, -, hobj'⟩ := h.thread
    rw [there_iff, hxth, hobj']
    intro hnone
    cases hnone
  · rw [there_iff, h.heap x hxth, if_neg]
    · exact there_iff.mp ⟨b, hb⟩
    · rintro ⟨hx, -⟩
      obtain ⟨-, level, hb'⟩ := h.opened hl hx
      exact hk level (Option.some.inj (hb.symm.trans hb'))

theorem SweepsUpvals.there_open (hx : x ∈ t.openupval) : s'.There x ↔ s.keeps x = true := by
  obtain ⟨hxth, level, hb⟩ := h.opened hl hx
  rw [there_iff, h.heap x hxth]
  constructor
  · intro hx'
    by_contra hk
    exact hx' (if_pos ⟨hx, by simpa using hk⟩)
  · intro hk
    rw [if_neg fun hx' => by rw [hk] at hx'; cases hx'.2]
    exact there_iff.mp ⟨_, hb⟩

theorem SweepsUpvals.openupval {th' : Addr} {t₀ t' : Thread}
    (ht₀ : s.body th' = some (.thread t₀)) (ht' : s'.body th' = some (.thread t')) :
    Left s' t₀.openupval t'.openupval := by
  by_cases hth : th' = th
  · rw [hth] at ht₀ ht'
    obtain rfl : t₀ = t := by simpa using ht₀.symm.trans h.was_thread
    obtain ⟨obj, -, -, hobj'⟩ := h.thread
    rw [State.body, hobj'] at ht'
    obtain rfl : t' = { t₀ with openupval := t₀.openupval.filter s.keeps } := by
      simpa using ht'.symm
    refine ⟨(hl.openNodup th t₀ ht₀).filter _, fun x => ?_⟩
    rw [List.mem_filter]
    exact and_congr_right fun hx => (h.there_open hl hx).symm
  · have hnot : th' ∉ t.openupval := fun hx => by
      obtain ⟨-, level, hb⟩ := h.opened hl hx
      rw [ht₀] at hb
      cases hb
    rw [State.body, h.heap th' hth, if_neg fun hx => hnot hx.1] at ht'
    obtain rfl : t' = t₀ := by simpa using ht'.symm.trans ht₀
    refine .of_there (hl.openNodup th' t' ht₀) fun x hx => ?_
    obtain ⟨level, hb⟩ := (hl.mem_open th' t' ht₀ x).mp hx
    exact h.there hl hb fun level' hb' => hth (by cases hb'; rfl)

theorem SweepsUpvals.lists : s'.Lists := by
  have hroot : s'.swept ++ s'.unswept ++ s'.tmudata = s.swept ++ s.unswept ++ s.tmudata := by
    rw [h.frame]
  have hstrt : s'.strt = s.strt := by rw [h.frame]
  refine hl.sweeps (h.sweeps hl) ?_ (by rw [h.frame]) ?_ h.uvhead
    (fun th' t₀ t' ht₀ ht' => h.openupval hl ht₀ ht') ?_
  · rw [hroot]
    refine .of_there hl.rootNodup fun x hx => ?_
    obtain ⟨b, hb, hbody⟩ := (hl.mem_root x).mp hx
    refine h.there hl hb fun level hb' => ?_
    rw [hb'] at hbody
    cases hbody
  · rw [hstrt]
    refine .of_there hl.strNodup fun x hx => ?_
    obtain ⟨bytes, hb⟩ := (hl.mem_strt x).mp hx
    exact h.there hl hb fun level hb' => by cases hb'
  · rw [h.frame]
    exact hl.main

theorem SweepsUpvals.whiteUpvals : s'.WhiteUpvals th := fun o level ho => by
  have hsw := h.sweeps hl
  have ho₀ : s.body o = some (.upval (.opened th level)) := by
    rcases hsw.body ho with ho₀ | ⟨_, _, -, hf⟩
    · exact ho₀
    · cases hf
  have hmem := (hl.mem_open th t h.was_thread o).mpr ⟨level, ho₀⟩
  rw [h.color o, if_pos ⟨hmem, (h.there_open hl hmem).mp ⟨_, ho⟩⟩, hsw.currentwhite]

end Upvals

theorem sweepupvals_inv (h : s.Inv) (hstate : s.gcstate = .sweep) (th : Addr) :
    (s.sweepupvals th).Inv ∧ (s.sweepupvals th).WhiteUpvals th ∧
      (s.sweepupvals th).gcstate = .sweep ∧ (s.sweepupvals th).swept = s.swept ∧
      (s.sweepupvals th).unswept = s.unswept := by
  have hl := h.lists
  by_cases hth : ∃ t, s.body th = some (.thread t)
  · obtain ⟨t, ht⟩ := hth
    have hu := sweepupvals_spec hl ht
    generalize s.sweepupvals th = s' at *
    have hsw := hu.sweeps hl
    have hst : s'.gcstate = s.gcstate := by rw [hu.frame]
    refine ⟨⟨hu.lists hl, hsw.sound h.sound, hsw.colored h.colored, fun hst' => ?_, fun hst' => ?_⟩,
      hu.whiteUpvals hl, hst.trans hstate, by rw [hu.frame], by rw [hu.frame]⟩
    · rw [hst, hstate] at hst'
      cases hst'
    · refine hsw.pending hst ?_ ?_ ?_ ?_ (h.sweeping (hst ▸ hst')) <;> rw [hu.frame]
  · have hsame : s.sweepupvals th = s := by
      unfold sweepupvals
      split
      next t ht => exact absurd ⟨t, ht⟩ hth
      next => rfl
    rw [hsame]
    refine ⟨h, fun o level ho => ?_, hstate, rfl, rfl⟩
    exact absurd (hl.thread o th level ho) hth

/-! ### One object of `rootgc` -/

/-- The object stays, with the current white. -/
theorem keep_inv (h : s.Inv) (hstate : s.gcstate = .sweep) (hunswept : s.unswept = curr :: rest)
    (hkeep : s.keeps curr = true) (hwhite : s.WhiteUpvals curr) :
    ({ s.makewhite curr with swept := s.swept ++ [curr], unswept := rest } : State).Inv := by
  have hl := h.lists
  have hsweeping := h.sweeping (by rw [hstate]; decide)
  set s' : State := { s.makewhite curr with swept := s.swept ++ [curr], unswept := rest } with hs'
  have hcurr : s'.color curr = .white s.currentwhite := setColor_self
  have hsw : Sweeps s s' := by
    refine ⟨fun x => .inl rfl, fun x => ?_, rfl, rfl, rfl⟩
    by_cases hx : x = curr
    · exact .inr ⟨hx ▸ hkeep, hx ▸ hcurr⟩
    · exact .inl (setColor_of_ne hx)
  have hlist : s'.swept ++ s'.unswept = s.swept ++ s.unswept := by
    rw [hunswept, hs']
    simp
  have hl' : s'.Lists := by
    refine hl.of_perm rfl ?_ (fun o ho => ⟨hl.tmudata o ho, hl.finalized o ho⟩) rfl rfl ?_
    · rw [hlist, hs']
      exact List.Perm.refl _
    · rw [hlist, hs']
      exact hl.main
  refine ⟨hl', hsw.sound h.sound, hsw.colored h.colored, fun hst => ?_, fun _ => ⟨fun x b hb => ?_,
    fun x hx => hsw.isdead (hsweeping.tmudata x hx)⟩⟩
  · rw [show s'.gcstate = s.gcstate from rfl, hstate] at hst
    cases hst
  · by_cases hx : x = curr
    · exact .inl (hx ▸ hcurr)
    rw [show s'.color x = s.color x from setColor_of_ne hx]
    rcases hsweeping.pending x b hb with hw | hp
    · exact .inl hw
    · cases b with
      | string bytes => exact .inr hp
      | upval uv =>
        cases uv with
        | opened th level =>
          rcases List.mem_cons.mp (hunswept ▸ hp.2) with rfl | hrest
          · exact .inl (hwhite x level hb)
          · exact .inr ⟨hp.1, hrest⟩
        | closed v =>
          refine .inr (hp.imp_left fun hp => ⟨hp.1, ?_⟩)
          exact (List.mem_cons.mp (hunswept ▸ hp.2)).resolve_left hx
      | _ =>
        refine .inr (hp.imp_left fun hp => ⟨hp.1, ?_⟩)
        exact (List.mem_cons.mp (hunswept ▸ hp.2)).resolve_left hx

/-- A dead object of the list is not the main thread, a string or an open upvalue. -/
theorem freed_spec (h : s.Inv) (hunswept : s.unswept = curr :: rest)
    (hdead : s.keeps curr = false) :
    curr ≠ s.mainthread ∧ ∃ b, s.body curr = some b ∧ b.isRoot = true := by
  refine ⟨fun hc => ?_, (h.lists.mem_root curr).mp ?_⟩
  · have hroots : ((Role.thread, s.mainthread) : Ref) ∈ s.roots := List.mem_cons_self
    have hk := (h.sound.roots _ hroots).2
    rw [← hc, hdead] at hk
    cases hk
  · rw [hunswept]
    simp

/-- The objects of the lists other than the one that the sweep has come to. -/
theorem Lists.others (hl : s.Lists) (hunswept : s.unswept = curr :: rest) :
    (s.swept ++ rest ++ s.tmudata).Nodup ∧ ∀ x, x ∈ s.swept ++ rest ++ s.tmudata ↔
      x ∈ s.swept ++ s.unswept ++ s.tmudata ∧ x ≠ curr := by
  have hperm : (s.swept ++ s.unswept ++ s.tmudata).Perm
      (curr :: (s.swept ++ rest ++ s.tmudata)) := by
    rw [hunswept, List.append_assoc, List.append_assoc]
    exact List.perm_middle
  obtain ⟨hcurr, hrest⟩ := List.nodup_cons.mp (hperm.nodup_iff.mp hl.rootNodup)
  refine ⟨hrest, fun x => ?_⟩
  rw [hperm.mem_iff, List.mem_cons]
  constructor
  · intro hx
    exact ⟨.inr hx, fun hxc => hcurr (hxc ▸ hx)⟩
  · rintro ⟨hx, hne⟩
    exact hx.resolve_left hne

theorem Lists.main_of_ne (hl : s.Lists) (hunswept : s.unswept = curr :: rest)
    (hne : curr ≠ s.mainthread) : s.mainthread ∈ s.swept ++ rest := by
  have hm := hl.main
  rw [hunswept, List.mem_append, List.mem_cons] at hm
  rcases hm with hm | hm | hm
  · exact List.mem_append_left _ hm
  · exact absurd hm.symm hne
  · exact List.mem_append_right _ hm

theorem sweeps_free (hdead : s.keeps curr = false) (hth : ∀ t, s.body curr ≠ some (.thread t)) :
    Sweeps s (({ s with unswept := rest } : State).free curr) := by
  refine ⟨fun x => ?_, fun x => .inl rfl, rfl, rfl, rfl⟩
  by_cases hx : x = curr
  · subst hx
    exact .inr (.inl ⟨Function.update_self .., hdead, hth⟩)
  · exact .inl (Function.update_of_ne hx ..)

theorem free_lists (h : s.Inv) (hunswept : s.unswept = curr :: rest)
    (hdead : s.keeps curr = false) (hth : ∀ t, s.body curr ≠ some (.thread t)) :
    (({ s with unswept := rest } : State).free curr).Lists := by
  have hl := h.lists
  obtain ⟨hmain, b₁, hb₁, hroot₁⟩ := freed_spec h hunswept hdead
  set s' : State := ({ s with unswept := rest } : State).free curr with hs'
  have hthere : ∀ x, s.There x → x ≠ curr → s'.There x := fun x hx hne =>
    there_free (s := { s with unswept := rest }) hx hne
  -- what is in no list of objects is not the freed one
  have hother : ∀ x b, s.body x = some b → b.isRoot = false → s'.There x := fun x b hb hroot =>
    hthere x ⟨b, hb⟩ fun hx => by
      rw [hx, hb₁] at hb
      rw [← Option.some.inj hb, hroot₁] at hroot
      cases hroot
  obtain ⟨hrest, hmem⟩ := hl.others hunswept
  refine hl.sweeps (sweeps_free hdead hth) ⟨hrest, fun x => (hmem x).trans ?_⟩ rfl
    (.of_there hl.strNodup fun x hx => ?_) (.of_there hl.uvNodup fun x hx => ?_)
    (fun th t t' ht ht' => ?_) (hl.main_of_ne hunswept hmain)
  · refine and_congr_right fun hx => ⟨fun hne => ?_, fun hx' hxc => ?_⟩
    · obtain ⟨b, hb, -⟩ := (hl.mem_root x).mp hx
      exact hthere x ⟨b, hb⟩ hne
    · subst hxc
      exact not_there_free hx'
  · obtain ⟨bytes, hb⟩ := (hl.mem_strt x).mp hx
    exact hother x _ hb rfl
  · obtain ⟨th, level, hb⟩ := (hl.mem_uvhead x).mp hx
    exact hother x _ hb rfl
  · have hne : th ≠ curr := fun hc => hth t (hc ▸ ht)
    have hheap : s'.heap th = s.heap th := Function.update_of_ne hne ..
    rw [State.body, hheap] at ht'
    obtain rfl : t' = t := by simpa using ht'.symm.trans ht
    refine .of_there (hl.openNodup th t' ht) fun x hx => ?_
    obtain ⟨level, hb⟩ := (hl.mem_open th t' ht x).mp hx
    exact hother x _ hb rfl

theorem free_inv (h : s.Inv) (hstate : s.gcstate = .sweep) (hunswept : s.unswept = curr :: rest)
    (hdead : s.keeps curr = false) (hth : ∀ t, s.body curr ≠ some (.thread t)) :
    (({ s with unswept := rest } : State).free curr).Inv := by
  have hsweeping := h.sweeping (by rw [hstate]; decide)
  have hsw : Sweeps s (({ s with unswept := rest } : State).free curr) := sweeps_free hdead hth
  refine ⟨free_lists h hunswept hdead hth, hsw.sound h.sound, hsw.colored h.colored,
    fun hst => ?_, fun _ => ⟨fun x b hb => ?_, fun x hx => hsw.isdead (hsweeping.tmudata x hx)⟩⟩
  · exact absurd (hstate.symm.trans hst) fun hf => by cases hf
  · have hx : x ≠ curr := fun hxc => by
      subst hxc
      exact not_there_free ⟨b, hb⟩
    have hheap : (({ s with unswept := rest } : State).free curr).heap x = s.heap x :=
      Function.update_of_ne hx ..
    rw [State.body, hheap] at hb
    refine (hsweeping.pending x b hb).imp_right fun hp => ?_
    cases b with
    | string bytes => exact hp
    | upval uv =>
      cases uv with
      | opened th level =>
        refine ⟨hp.1, (List.mem_cons.mp (hunswept ▸ hp.2)).resolve_left fun hc => ?_⟩
        obtain ⟨t, ht⟩ := h.lists.thread x th level hb
        exact hth t (hc ▸ ht)
      | closed v =>
        refine hp.imp_left fun hp => ⟨hp.1, ?_⟩
        exact (List.mem_cons.mp (hunswept ▸ hp.2)).resolve_left hx
    | _ =>
      refine hp.imp_left fun hp => ⟨hp.1, ?_⟩
      exact (List.mem_cons.mp (hunswept ▸ hp.2)).resolve_left hx

end State
end JLua.Collector
