import JLua.SweepSteps

/-!
# Threads that are freed

A dead thread closes its upvalues before it is freed. Those that are not dead may be in use, and
stay, with the values that they had.
-/

namespace JLua.Collector

set_option autoImplicit false

namespace State
variable {s s' s'' : State} {o x th uv curr : Addr} {b : Body} {v : TValue} {t : Thread}
variable {l rest : List Addr}

theorem link_frame (s : State) (o : Addr) :
    s.link o = { s with swept := (s.link o).swept, unswept := (s.link o).unswept } := by
  unfold link
  split <;> rfl

theorem link_perm (s : State) (o : Addr) :
    ((s.link o).swept ++ (s.link o).unswept).Perm (o :: (s.swept ++ s.unswept)) := by
  unfold link
  split
  next hnil =>
    rw [hnil]
    exact List.Perm.refl _
  next => exact List.Perm.refl _

theorem mem_unswept_link (h : x ∈ s.unswept) : x ∈ (s.link o).unswept := by
  unfold link
  split
  · exact List.mem_cons_of_mem _ h
  · exact h

/-- The value of an open upvalue is in the stack of its thread. -/
theorem value_setThread (h : s.body th = some (.thread t)) (l : List Addr) :
    (s.setBody th (.thread { t with openupval := l })).value = s.value := by
  funext uv
  cases uv with
  | closed v => rfl
  | opened th' level =>
    by_cases hth : th' = th
    · rw [hth]
      simp only [State.value, body_setBody_self h, h]
    · simp only [State.value, body_setBody hth]

/-- Open upvalues of a thread, none of them dead, are closed while the sweep goes on. -/
structure Closes (th : Addr) (l : List Addr) (s s' : State) : Prop where
  frame : s' = { s with
    heap := s'.heap, swept := s'.swept, unswept := s'.unswept, uvhead := s'.uvhead }
  heap : ∀ x, x ≠ th → x ∉ l → s'.heap x = s.heap x
  thread : ∃ t, s'.body th = some (.thread t)
  value : s'.value = s.value
  closed : ∀ x ∈ l, ∃ obj level, s.heap x = some obj ∧ obj.body = .upval (.opened th level) ∧
    s'.heap x = some { obj with body := .upval (.closed (s.value (.opened th level))) }
  perm : (s'.swept ++ s'.unswept).Perm (l ++ (s.swept ++ s.unswept))
  unswept : ∀ x ∈ s.unswept, x ∈ s'.unswept
  uvhead : s.uvhead.Nodup → s'.uvhead.Nodup ∧ ∀ x, x ∈ s'.uvhead ↔ x ∈ s.uvhead ∧ x ∉ l

/-- An open upvalue gets its value and goes into `rootgc`. -/
def closed (s : State) (th : Addr) (t : Thread) (uv : Addr) (level : Nat)
    (rest : List Addr) : State :=
  (({ s.setBody th (.thread { t with openupval := rest }) with
    uvhead := s.uvhead.erase uv } : State).setBody uv
      (.upval (.closed (s.value (.opened th level))))).link uv

/-- The state after one round, when the upvalue is white. -/
theorem closeupval_eq {level : Nat} (hth : s.body th = some (.thread t))
    (huv : s.body uv = some (.upval (.opened th level)))
    (hwhite : s.color uv = .white s.currentwhite) (rest : List Addr) :
    s.closeupval th uv rest = s.closed th t uv level rest := by
  have hset : s.setOpenupval th rest = s.setBody th (.thread { t with openupval := rest }) := by
    unfold setOpenupval
    rw [hth]
  have hdead : (s.setBody th (.thread { t with openupval := rest })).isdead uv = false :=
    isdead_of_white hwhite
  unfold closeupval
  rw [huv]
  dsimp only
  rw [hset, hdead, if_neg Bool.false_ne_true, value_setThread hth]
  unfold linkupval
  dsimp only
  rw [if_neg]
  · rfl
  · rw [link_frame]
    change ¬s.color uv = .gray
    rw [hwhite]
    exact fun hc => by cases hc

theorem closes_closed {level : Nat} (hth : s.body th = some (.thread t))
    (huv : s.body uv = some (.upval (.opened th level))) (rest : List Addr) :
    Closes th [uv] s (s.closed th t uv level rest) ∧
      (s.closed th t uv level rest).body th = some (.thread { t with openupval := rest }) := by
  have hne : uv ≠ th := fun hx => by
    rw [hx, hth] at huv
    cases huv
  unfold State.closed
  set sA : State := s.setBody th (.thread { t with openupval := rest }) with hsA
  have hbodyA : sA.body th = some (.thread { t with openupval := rest }) := body_setBody_self hth
  have huvA : sA.heap uv = s.heap uv := Function.update_of_ne hne ..
  set sB : State := ({ sA with uvhead := s.uvhead.erase uv } : State) with hsB
  set sC : State := sB.setBody uv (.upval (.closed (s.value (.opened th level)))) with hsC
  have hlink := link_frame sC uv
  have hheap : (sC.link uv).heap = sC.heap := by rw [hlink]
  have hbody : (sC.link uv).body = sC.body := by
    funext x
    rw [State.body, State.body, hheap]
  have hthC : sC.body th = some (.thread { t with openupval := rest }) := by
    rw [hsC, body_setBody hne.symm]
    exact hbodyA
  obtain ⟨obj, hobj, hobjbody⟩ := body_eq_some.mp huv
  refine ⟨⟨?_, fun x hx hxl => ?_, ⟨_, hbody ▸ hthC⟩, ?_, fun x hx => ?_, ?_, fun x hx => ?_,
    fun hn => ?_⟩, hbody ▸ hthC⟩
  · rw [hlink]
    rfl
  · rw [hheap]
    have hxuv : x ≠ uv := fun hxuv => hxl (hxuv ▸ List.mem_singleton_self _)
    exact (Function.update_of_ne hxuv ..).trans (Function.update_of_ne hx ..)
  · rw [value_congr hbody]
    funext v
    cases v with
    | closed v => rfl
    | opened th' level' =>
      by_cases hth' : th' = th
      · rw [hth']
        simp only [State.value, hthC, hth]
      · by_cases huv' : th' = uv
        · have hB : sB.body uv = some (.upval (.opened th level)) := by
            rw [State.body, show sB.heap uv = s.heap uv from huvA]
            exact huv
          have hC : sC.body uv = some (.upval (.closed (s.value (.opened th level)))) :=
            body_setBody_self hB
          rw [huv']
          simp only [State.value, hC, huv]
        · have hC : sC.body th' = s.body th' := by
            rw [hsC, body_setBody huv']
            exact body_setBody hth'
          simp only [State.value, hC]
  · obtain rfl := List.mem_singleton.mp hx
    refine ⟨obj, level, hobj, hobjbody, ?_⟩
    rw [hheap, hsC, setBody, show sB.heap x = some obj from huvA.trans hobj]
    exact Function.update_self ..
  · exact link_perm sC uv
  · exact mem_unswept_link (s := sC) hx
  · rw [hlink]
    refine ⟨hn.erase uv, fun x => ?_⟩
    change x ∈ s.uvhead.erase uv ↔ _
    rw [hn.mem_erase_iff, List.mem_singleton, and_comm]

theorem closes_closeupval {level : Nat} (hth : s.body th = some (.thread t))
    (huv : s.body uv = some (.upval (.opened th level)))
    (hwhite : s.color uv = .white s.currentwhite) (rest : List Addr) :
    Closes th [uv] s (s.closeupval th uv rest) := by
  rw [closeupval_eq hth huv hwhite]
  exact (closes_closed hth huv rest).1

theorem Closes.trans (h : Closes th [uv] s s') (h' : Closes th l s' s'') (huv : uv ∉ l)
    (hne : uv ≠ th) (hl : ∀ x ∈ l, x ≠ th) : Closes th (uv :: l) s s'' := by
  refine ⟨?_, fun x hx hxl => ?_, h'.thread, h'.value.trans h.value, fun x hx => ?_, ?_,
    fun x hx => h'.unswept x (h.unswept x hx), fun hn => ?_⟩
  · rw [h'.frame, h.frame]
  · rw [List.mem_cons, not_or] at hxl
    rw [h'.heap x hx hxl.2, h.heap x hx (by rw [List.mem_singleton]; exact hxl.1)]
  · rcases List.mem_cons.mp hx with rfl | hxl
    · obtain ⟨obj, level, hobj, hbody, hobj'⟩ := h.closed x (List.mem_singleton_self x)
      exact ⟨obj, level, hobj, hbody, (h'.heap x hne huv).trans hobj'⟩
    · obtain ⟨obj, level, hobj, hbody, hobj'⟩ := h'.closed x hxl
      have hxuv : x ∉ [uv] := fun hx' => huv (List.mem_singleton.mp hx' ▸ hxl)
      rw [h.heap x (hl x hxl) hxuv] at hobj
      rw [h.value] at hobj'
      exact ⟨obj, level, hobj, hbody, hobj'⟩
  · refine h'.perm.trans ((h.perm.append_left l).trans ?_)
    exact List.perm_middle
  · obtain ⟨hn', hmem⟩ := h.uvhead hn
    obtain ⟨hn'', hmem'⟩ := h'.uvhead hn'
    refine ⟨hn'', fun x => ?_⟩
    rw [hmem', hmem, List.mem_singleton, List.mem_cons, not_or, and_assoc]

theorem closes_closeupvals (hn : l.Nodup) (hth : s.body th = some (.thread t))
    (hl : ∀ x ∈ l, (∃ level, s.body x = some (.upval (.opened th level))) ∧
      s.color x = .white s.currentwhite) : Closes th l s (closeupvals th 0 l s) := by
  induction l generalizing s t with
  | nil =>
    exact ⟨rfl, fun _ _ _ => rfl, ⟨t, hth⟩, rfl, fun _ hx => (by cases hx), List.Perm.refl _,
      fun _ => id, fun hn => ⟨hn, fun x => by simp [closeupvals]⟩⟩
  | cons uv l ih =>
    obtain ⟨huvl, hn⟩ := List.nodup_cons.mp hn
    obtain ⟨⟨level, huv⟩, hwhite⟩ := hl uv List.mem_cons_self
    have hnot : ∀ x ∈ uv :: l, x ≠ th := fun x hx hxth => by
      obtain ⟨⟨level', hb⟩, -⟩ := hl x hx
      rw [hxth, hth] at hb
      cases hb
    have habove : s.atOrAbove 0 uv = true := by
      unfold atOrAbove
      rw [huv]
      exact decide_eq_true (Nat.zero_le _)
    rw [closeupvals, if_pos habove]
    have hone := closes_closeupval hth huv hwhite l
    obtain ⟨t', ht'⟩ := hone.thread
    refine hone.trans (ih hn ht' fun x hx => ?_) huvl (hnot uv List.mem_cons_self) fun x hx =>
      hnot x (List.mem_cons_of_mem _ hx)
    obtain ⟨⟨level', hb⟩, hw⟩ := hl x (List.mem_cons_of_mem _ hx)
    refine ⟨⟨level', ?_⟩, ?_⟩
    · rw [State.body, hone.heap x (hnot x (List.mem_cons_of_mem _ hx))
        fun hx' => huvl (List.mem_singleton.mp hx' ▸ hx)]
      exact hb
    · rw [hone.frame]
      exact hw

/-! ### The thread itself -/

/-- The objects after a thread is freed: its upvalues are closed, the others are what they were. -/
structure Frees (curr : Addr) (l : List Addr) (s s' : State) : Prop where
  gone : s'.heap curr = none
  heap : ∀ x, x ≠ curr → x ∉ l → s'.heap x = s.heap x
  closed : ∀ x ∈ l, x ≠ curr ∧ ∃ obj level, s.heap x = some obj ∧
    obj.body = .upval (.opened curr level) ∧
    s'.heap x = some { obj with body := .upval (.closed (s.value (.opened curr level))) }
  opened : ∀ x level, s.body x = some (.upval (.opened curr level)) → x ∈ l
  color : s'.color = s.color
  currentwhite : s'.currentwhite = s.currentwhite
  mainthread : s'.mainthread = s.mainthread
  roots : s'.roots = s.roots

theorem Frees.body (h : Frees curr l s s') (hb : s'.body x = some b) : x ≠ curr ∧
    (x ∉ l ∧ s.body x = some b ∨ x ∈ l ∧ ∃ level, s.body x = some (.upval (.opened curr level)) ∧
      b = .upval (.closed (s.value (.opened curr level)))) := by
  have hne : x ≠ curr := fun hx => by
    rw [State.body, hx, h.gone] at hb
    cases hb
  refine ⟨hne, ?_⟩
  by_cases hx : x ∈ l
  · obtain ⟨-, obj, level, hobj, hbody, hobj'⟩ := h.closed x hx
    refine .inr ⟨hx, level, body_eq_some.mpr ⟨obj, hobj, hbody⟩, ?_⟩
    rw [State.body, hobj'] at hb
    exact (Option.some.inj hb).symm
  · rw [State.body, h.heap x hne hx] at hb
    exact .inl ⟨hx, hb⟩

theorem Frees.stays (h : Frees curr l s s') (hb : s.body x = some b) (hne : x ≠ curr)
    (hk : b.isOpened = false) : s'.body x = some b := by
  rw [State.body, h.heap x hne fun hx => ?_]
  · exact hb
  · obtain ⟨-, obj, level, hobj, hbody, -⟩ := h.closed x hx
    obtain rfl := Option.some.inj (hb.symm.trans (body_eq_some.mpr ⟨obj, hobj, hbody⟩))
    cases hk

theorem Frees.stays_opened {level : Nat} (h : Frees curr l s s')
    (hb : s.body x = some (.upval (.opened th level))) (hth : th ≠ curr) (hne : x ≠ curr) :
    s'.body x = some (.upval (.opened th level)) := by
  rw [State.body, h.heap x hne fun hx => ?_]
  · exact hb
  · obtain ⟨-, obj, level', hobj, hbody, -⟩ := h.closed x hx
    have hb' := hb.symm.trans (body_eq_some.mpr ⟨obj, hobj, hbody⟩)
    cases Option.some.inj hb'
    exact hth rfl

/-- An upvalue that is still open is one of another thread. -/
theorem Frees.still_opened {level : Nat} (h : Frees curr l s s')
    (hb : s'.body x = some (.upval (.opened th level))) :
    th ≠ curr ∧ s.body x = some (.upval (.opened th level)) := by
  obtain ⟨-, ⟨hx, hb₀⟩ | ⟨-, level', -, hf⟩⟩ := h.body hb
  · exact ⟨fun hth => hx (h.opened x level (hth ▸ hb₀)), hb₀⟩
  · cases hf

theorem Frees.value {level : Nat} (h : Frees curr l s s') (hth : th ≠ curr) :
    s'.value (.opened th level) = s.value (.opened th level) := by
  by_cases hx : th ∈ l
  · obtain ⟨-, obj, level', hobj, hbody, hobj'⟩ := h.closed th hx
    have hb : s.body th = some (.upval (.opened curr level')) :=
      body_eq_some.mpr ⟨obj, hobj, hbody⟩
    have hb' : s'.body th = some (.upval (.closed (s.value (.opened curr level')))) :=
      body_eq_some.mpr ⟨_, hobj', rfl⟩
    simp only [State.value, hb, hb']
  · have hb : s'.body th = s.body th := by rw [State.body, State.body, h.heap th hth hx]
    simp only [State.value, hb]

theorem Frees.isfixed (h : Frees curr l s s') (hne : x ≠ curr) : s'.isfixed x = s.isfixed x := by
  by_cases hx : x ∈ l
  · obtain ⟨-, obj, level, hobj, -, hobj'⟩ := h.closed x hx
    rw [State.isfixed, State.isfixed, hobj, hobj']
    rfl
  · rw [State.isfixed, State.isfixed, h.heap x hne hx]

theorem Frees.keeps (h : Frees curr l s s') (hne : x ≠ curr) : s'.keeps x = s.keeps x := by
  unfold State.keeps State.isdead otherwhite
  rw [h.isfixed hne, h.color, h.currentwhite]

theorem Frees.holds (h : Frees curr l s s') (hdead : s.keeps curr = false) {r : Ref}
    (hr : s.Holds r) : s'.Holds r := by
  obtain ⟨⟨b, hb, hacc⟩, hk⟩ := hr
  have hne : r.2 ≠ curr := fun hx => by
    rw [hx, hdead] at hk
    cases hk
  refine ⟨?_, (h.keeps hne).trans hk⟩
  by_cases hx : r.2 ∈ l
  · obtain ⟨-, obj, level, hobj, hbody, hobj'⟩ := h.closed r.2 hx
    obtain rfl := Option.some.inj (hb.symm.trans (body_eq_some.mpr ⟨obj, hobj, hbody⟩))
    exact ⟨_, body_eq_some.mpr ⟨_, hobj', rfl⟩, hacc⟩
  · refine ⟨b, ?_, hacc⟩
    rw [State.body, h.heap r.2 hne hx]
    exact hb

theorem Frees.sound (h : Frees curr l s s') (hdead : s.keeps curr = false) (hs : s.Sound) :
    s'.Sound := by
  refine ⟨fun x b hb hk r hr => ?_, fun r hr => ?_, fun x hx => ?_⟩
  · obtain ⟨hne, ⟨-, hb₀⟩ | ⟨-, level, hb₀, rfl⟩⟩ := h.body hb
    · refine h.holds hdead (hs.refs x b hb₀ ((h.keeps hne).symm.trans hk) r ?_)
      cases b with
      | upval uv =>
        cases uv with
        | opened th level => rwa [State.refs, h.value (h.still_opened hb).1] at hr
        | closed v => exact hr
      | _ => exact hr
    · exact h.holds hdead (hs.refs x _ hb₀ ((h.keeps hne).symm.trans hk) r hr)
  · exact h.holds hdead (hs.roots r (h.roots ▸ hr))
  · obtain ⟨b, hb⟩ := body_of_isfixed hx
    have hne := (h.body hb).1
    rcases hs.fixed x ((h.isfixed hne).symm.trans hx) with ⟨bytes, hb₀⟩ | rfl
    · exact .inl ⟨bytes, h.stays hb₀ hne rfl⟩
    · exact .inr h.mainthread.symm

theorem Frees.colored (h : Frees curr l s s') (hwhite : ∀ x ∈ l, ¬s.marked x)
    (hs : s.Colored) : s'.Colored := by
  intro x b hb hm
  rw [State.marked, h.color] at hm
  rw [h.color]
  obtain ⟨-, ⟨-, hb₀⟩ | ⟨hx, -⟩⟩ := h.body hb
  · exact hs x b hb₀ hm
  · exact absurd hm (hwhite x hx)

theorem Frees.opened_of_mem (h : Frees curr l s s') (hx : x ∈ l) :
    ∃ level, s.body x = some (.upval (.opened curr level)) := by
  obtain ⟨-, obj, level, hobj, hbody, -⟩ := h.closed x hx
  exact ⟨level, body_eq_some.mpr ⟨obj, hobj, hbody⟩⟩

theorem isOpened_of_isRoot {b : Body} (hb : b.isRoot = true) : b.isOpened = false := by
  cases b with
  | upval uv =>
    cases uv with
    | opened th level => cases hb
    | closed v => rfl
  | _ => rfl

/-- The closed upvalues are objects of `rootgc`, and the thread is not. -/
theorem Frees.roots_spec (h : Frees curr l s s') (hl : s.Lists)
    (hunswept : s.unswept = curr :: rest) (hnl : l.Nodup)
    (hperm : (s'.swept ++ s'.unswept).Perm (l ++ (s.swept ++ rest)))
    (htm : s'.tmudata = s.tmudata) : (s'.swept ++ s'.unswept ++ s'.tmudata).Nodup ∧
      ∀ x, x ∈ s'.swept ++ s'.unswept ++ s'.tmudata ↔
        ∃ b, s'.body x = some b ∧ b.isRoot = true := by
  have hafter : (s'.swept ++ s'.unswept ++ s'.tmudata).Perm
      (l ++ (s.swept ++ rest ++ s.tmudata)) := by
    rw [htm, ← List.append_assoc]
    exact hperm.append_right _
  obtain ⟨hrest, hmem⟩ := hl.others hunswept
  constructor
  · refine hafter.nodup_iff.mpr (List.nodup_append.mpr ⟨hnl, hrest, fun x hx y hy hxy => ?_⟩)
    obtain ⟨level, hb⟩ := h.opened_of_mem hx
    obtain ⟨b, hb', hroot⟩ := (hl.mem_root y).mp ((hmem y).mp hy).1
    obtain rfl := Option.some.inj (hb.symm.trans (hxy ▸ hb'))
    cases hroot
  · intro x
    rw [hafter.mem_iff, List.mem_append, hmem, hl.mem_root]
    constructor
    · rintro (hx | ⟨⟨b, hb, hroot⟩, hne⟩)
      · obtain ⟨-, obj, level, -, -, hobj'⟩ := h.closed x hx
        exact ⟨_, body_eq_some.mpr ⟨_, hobj', rfl⟩, rfl⟩
      · exact ⟨b, h.stays hb hne (isOpened_of_isRoot hroot), hroot⟩
    · rintro ⟨b, hb, hroot⟩
      obtain ⟨hne, ⟨-, hb₀⟩ | ⟨hx, -⟩⟩ := h.body hb
      · exact .inr ⟨⟨b, hb₀, hroot⟩, hne⟩
      · exact .inl hx

theorem Frees.lists (h : Frees curr l s s') (hl : s.Lists) (hunswept : s.unswept = curr :: rest)
    (ht : s.body curr = some (.thread t)) (hnl : l.Nodup)
    (hperm : (s'.swept ++ s'.unswept).Perm (l ++ (s.swept ++ rest)))
    (htm : s'.tmudata = s.tmudata) (hstrt : s'.strt = s.strt)
    (huv : s'.uvhead.Nodup ∧ ∀ x, x ∈ s'.uvhead ↔ x ∈ s.uvhead ∧ x ∉ l)
    (hmain : curr ≠ s.mainthread) : s'.Lists := by
  have hnecurr : ∀ x b, s.body x = some b → b ≠ .thread t → x ≠ curr := fun x b hb hne hx => by
    rw [hx, ht] at hb
    exact hne (Option.some.inj hb).symm
  have hthread : ∀ x t', s'.body x = some (.thread t') → x ≠ curr ∧ s.body x = some (.thread t') :=
    fun x t' hb => by
      obtain ⟨hne, ⟨-, hb₀⟩ | ⟨-, level, -, hf⟩⟩ := h.body hb
      · exact ⟨hne, hb₀⟩
      · cases hf
  obtain ⟨hnodup, hroot⟩ := h.roots_spec hl hunswept hnl hperm htm
  refine ⟨hnodup, hroot, fun x hx => ?_, fun x hx => ?_, hstrt ▸ hl.strNodup, fun x => ?_, huv.1,
    fun x => ?_, fun th t' ht' => ?_, fun th t' ht' x => ?_, fun x th level hb => ?_, ?_⟩
  · obtain ⟨mt, env, hb⟩ := hl.tmudata x (htm ▸ hx)
    exact ⟨mt, env, h.stays hb (hnecurr x _ hb fun hf => by cases hf) rfl⟩
  · obtain ⟨mt, env, hb⟩ := hl.tmudata x (htm ▸ hx)
    have hne := hnecurr x _ hb fun hf => by cases hf
    have hfin := hl.finalized x (htm ▸ hx)
    rwa [isfinalized, h.heap x hne fun hxl => ?_]
    obtain ⟨level, hb'⟩ := h.opened_of_mem hxl
    rw [hb] at hb'
    cases hb'
  · rw [hstrt, hl.mem_strt]
    constructor
    · rintro ⟨bytes, hb⟩
      exact ⟨bytes, h.stays hb (hnecurr x _ hb fun hf => by cases hf) rfl⟩
    · rintro ⟨bytes, hb⟩
      obtain ⟨-, ⟨-, hb₀⟩ | ⟨-, level, -, hf⟩⟩ := h.body hb
      · exact ⟨bytes, hb₀⟩
      · cases hf
  · rw [huv.2, hl.mem_uvhead]
    constructor
    · rintro ⟨⟨th, level, hb⟩, hx⟩
      have hth : th ≠ curr := fun hth => hx (h.opened x level (hth ▸ hb))
      exact ⟨th, level, h.stays_opened hb hth (hnecurr x _ hb fun hf => by cases hf)⟩
    · rintro ⟨th, level, hb⟩
      obtain ⟨hth, hb₀⟩ := h.still_opened hb
      refine ⟨⟨th, level, hb₀⟩, fun hx => ?_⟩
      obtain ⟨level', hb'⟩ := h.opened_of_mem hx
      cases Option.some.inj (hb₀.symm.trans hb')
      exact hth rfl
  · exact hl.openNodup th t' (hthread th t' ht').2
  · obtain ⟨hth, ht₀⟩ := hthread th t' ht'
    rw [hl.mem_open th t' ht₀]
    constructor
    · rintro ⟨level, hb⟩
      exact ⟨level, h.stays_opened hb hth (hnecurr x _ hb fun hf => by cases hf)⟩
    · rintro ⟨level, hb⟩
      exact ⟨level, (h.still_opened hb).2⟩
  · obtain ⟨hth, hb₀⟩ := h.still_opened hb
    obtain ⟨t', ht'⟩ := hl.thread x th level hb₀
    exact ⟨t', h.stays ht' hth rfl⟩
  · rw [h.mainthread, hperm.mem_iff]
    exact List.mem_append_right _ (hl.main_of_ne hunswept hmain)

theorem frees_thread (hl : s.Lists) (ht : s.body curr = some (.thread t))
    (hwhite : s.WhiteUpvals curr) (rest : List Addr) :
    ∃ s₁, Closes curr t.openupval { s with unswept := rest } s₁ ∧
      ({ s with unswept := rest } : State).freeobj curr = s₁.free curr ∧
      Frees curr t.openupval s (s₁.free curr) := by
  have hopen := hl.mem_open curr t ht
  have hc : Closes curr t.openupval { s with unswept := rest }
      (closeupvals curr 0 t.openupval { s with unswept := rest }) := by
    refine closes_closeupvals (hl.openNodup curr t ht) ht fun x hx => ?_
    obtain ⟨level, hb⟩ := (hopen x).mp hx
    exact ⟨⟨level, hb⟩, hwhite x level hb⟩
  refine ⟨_, hc, ?_, ?_⟩
  · have hbody : ({ s with unswept := rest } : State).body curr = some (.thread t) := ht
    unfold freeobj State.close
    rw [hbody]
  · generalize closeupvals curr 0 t.openupval { s with unswept := rest } = s₁ at hc
    have hfree : ∀ x, x ≠ curr → (s₁.free curr).heap x = s₁.heap x := fun x hx =>
      Function.update_of_ne hx ..
    refine ⟨Function.update_self .., fun x hx hxl => (hfree x hx).trans (hc.heap x hx hxl),
      fun x hx => ?_, fun x level hb => (hopen x).mpr ⟨level, hb⟩, ?_, ?_, ?_, ?_⟩
    · obtain ⟨level, hb⟩ := (hopen x).mp hx
      have hne : x ≠ curr := fun hxc => by
        rw [hxc, ht] at hb
        cases hb
      obtain ⟨obj, level', hobj, hbody, hobj'⟩ := hc.closed x hx
      exact ⟨hne, obj, level', hobj, hbody, (hfree x hne).trans hobj'⟩
    all_goals
      rw [hc.frame]
      rfl

theorem freethread_inv (h : s.Inv) (hstate : s.gcstate = .sweep)
    (hunswept : s.unswept = curr :: rest) (hdead : s.keeps curr = false)
    (ht : s.body curr = some (.thread t))
    (hwhite : s.WhiteUpvals curr) : (({ s with unswept := rest } : State).freeobj curr).Inv := by
  have hl := h.lists
  have hsweeping := h.sweeping (by rw [hstate]; decide)
  obtain ⟨s₁, hc, heq, hf⟩ := frees_thread hl ht hwhite rest
  have hopen := hl.mem_open curr t ht
  have hwhite' : ∀ x ∈ t.openupval, s.color x = .white s.currentwhite := fun x hx => by
    obtain ⟨level, hb⟩ := (hopen x).mp hx
    exact hwhite x level hb
  rw [heq]
  have htm : (s₁.free curr).tmudata = s.tmudata := by rw [hc.frame]; rfl
  have hstrt : (s₁.free curr).strt = s.strt := by rw [hc.frame]; rfl
  have hgc : (s₁.free curr).sweepstrgc = s.sweepstrgc := by rw [hc.frame]; rfl
  have hst : (s₁.free curr).gcstate = s.gcstate := by rw [hc.frame]; rfl
  refine ⟨?_, hf.sound hdead h.sound, hf.colored (fun x hx hm => ?_) h.colored, fun hst' => ?_,
    fun _ => ⟨fun x b hb => ?_, fun x hx => ?_⟩⟩
  · exact hf.lists hl hunswept ht (hl.openNodup curr t ht) hc.perm htm hstrt
      (hc.uvhead hl.uvNodup) (freed_spec h hunswept hdead).1
  · rw [State.marked, hwhite' x hx] at hm
    cases hm
  · rw [hst, hstate] at hst'
    cases hst'
  · rw [hf.color, hf.currentwhite]
    obtain ⟨hne, ⟨-, hb₀⟩ | ⟨hx, -⟩⟩ := hf.body hb
    swap
    · exact .inl (hwhite' x hx)
    refine (hsweeping.pending x b hb₀).imp_right fun hp => ?_
    have hmem : ∀ y ∈ s.unswept, y ≠ curr → y ∈ (s₁.free curr).unswept := fun y hy hyc =>
      hc.unswept y ((List.mem_cons.mp (hunswept ▸ hy)).resolve_left hyc)
    cases b with
    | string bytes =>
      refine ⟨hst.trans hp.1, ?_⟩
      rw [hstrt, hgc]
      exact hp.2
    | upval uv =>
      cases uv with
      | opened th level =>
        refine ⟨?_, hmem th hp.2 (hf.still_opened hb).1⟩
        rw [hst]
        exact hp.1
      | closed v =>
        refine hp.imp (fun hp => ⟨?_, hmem x hp.2 hne⟩) fun hp => htm ▸ hp
        rw [hst]
        exact hp.1
    | _ =>
      refine hp.imp (fun hp => ⟨?_, hmem x hp.2 hne⟩) fun hp => htm ▸ hp
      rw [hst]
      exact hp.1
  · have hx' := hsweeping.tmudata x (htm ▸ hx)
    unfold State.isdead otherwhite at hx' ⊢
    rwa [hf.color, hf.currentwhite]

end State
end JLua.Collector
