import JLua.CollectorSteps

/-!
# The sweep

Sweeping a list frees what is dead in it and gives the rest the current white. Nothing that is not
dead refers to what is freed.
-/

namespace JLua.Collector

set_option autoImplicit false

namespace State
variable {s s' s'' : State} {o x : Addr} {c : Color} {b : Body} {v : TValue}

theorem keeps_congr (hheap : s'.heap x = s.heap x) (hcolor : s'.color x = s.color x)
    (hw : s'.currentwhite = s.currentwhite) : s'.keeps x = s.keeps x := by
  unfold keeps isdead otherwhite isfixed
  rw [hheap, hcolor, hw]

/-- The objects of the list that are dead are freed, the others are white. -/
theorem sweepwholelist_spec {freeobj : State → Addr → State}
    (hfree : ∀ s o, (freeobj s o).heap = Function.update s.heap o none ∧
      (freeobj s o).color = s.color ∧ (freeobj s o).currentwhite = s.currentwhite)
    {l : List Addr} (hl : l.Nodup) :
    (sweepwholelist freeobj l s).2 = l.filter s.keeps ∧
      (∀ x, (sweepwholelist freeobj l s).1.color x =
        if x ∈ l ∧ s.keeps x = true then .white s.currentwhite else s.color x) ∧
      ∀ x, (sweepwholelist freeobj l s).1.heap x =
        if x ∈ l ∧ s.keeps x = false then none else s.heap x := by
  induction l generalizing s with
  | nil => exact ⟨rfl, fun x => by simp [sweepwholelist], fun x => by simp [sweepwholelist]⟩
  | cons curr l ih =>
    obtain ⟨hcurr, hl⟩ := List.nodup_cons.mp hl
    rw [sweepwholelist]
    cases hk : s.keeps curr with
    | true =>
      rw [if_pos rfl]
      dsimp only
      have hsame : ∀ x, x ≠ curr → (s.makewhite curr).keeps x = s.keeps x := fun x hx =>
        keeps_congr rfl (setColor_of_ne hx) rfl
      obtain ⟨hlist, hcolor, hheap⟩ := ih (s := s.makewhite curr) hl
      refine ⟨?_, fun x => ?_, fun x => ?_⟩
      · rw [hlist, List.filter_cons_of_pos hk]
        refine congrArg _ (List.filter_congr fun x hx => hsame x ?_)
        exact fun hxc => hcurr (hxc ▸ hx)
      · rw [hcolor x]
        by_cases hx : x = curr
        · subst hx
          simp [hcurr, hk, makewhite]
        · rw [hsame x hx, makewhite, setColor_of_ne hx]
          simp [hx, setColor]
      · rw [hheap x]
        by_cases hx : x = curr
        · subst hx
          simp [hcurr, hk, makewhite]
        · rw [hsame x hx]
          simp [hx, makewhite]
    | false =>
      rw [if_neg Bool.false_ne_true]
      obtain ⟨hfheap, hfcolor, hfwhite⟩ := hfree s curr
      have hsame : ∀ x, x ≠ curr → (freeobj s curr).keeps x = s.keeps x := fun x hx =>
        keeps_congr (by rw [hfheap, Function.update_of_ne hx]) (by rw [hfcolor]) hfwhite
      obtain ⟨hlist, hcolor, hheap⟩ := ih (s := freeobj s curr) hl
      refine ⟨?_, fun x => ?_, fun x => ?_⟩
      · rw [hlist, List.filter_cons_of_neg (by rw [hk]; exact Bool.false_ne_true)]
        refine List.filter_congr fun x hx => hsame x ?_
        exact fun hxc => hcurr (hxc ▸ hx)
      · rw [hcolor x, hfcolor, hfwhite]
        by_cases hx : x = curr
        · subst hx
          simp [hcurr, hk]
        · rw [hsame x hx]
          simp [hx]
      · rw [hheap x, hfheap]
        by_cases hx : x = curr
        · subst hx
          simp [hcurr, hk]
        · rw [hsame x hx, Function.update_of_ne hx]
          simp [hx]

/-! ### What is left -/

/-- The part of a sweep that is not about lists: dead objects go, though no threads, others get the
current white, and threads may have fewer open upvalues. -/
structure Sweeps (s s' : State) : Prop where
  heap : ∀ x, s'.heap x = s.heap x ∨
    (s'.heap x = none ∧ s.keeps x = false ∧ ∀ t, s.body x ≠ some (.thread t)) ∨
    ∃ obj t l, s.heap x = some obj ∧ obj.body = .thread t ∧
      s'.heap x = some { obj with body := .thread { t with openupval := l } }
  color : ∀ x, s'.color x = s.color x ∨
    (s.keeps x = true ∧ s'.color x = .white s.currentwhite)
  currentwhite : s'.currentwhite = s.currentwhite
  mainthread : s'.mainthread = s.mainthread
  roots : s'.roots = s.roots

theorem Sweeps.body (h : Sweeps s s') (hb : s'.body x = some b) : s.body x = some b ∨
    ∃ t l, s.body x = some (.thread t) ∧ b = .thread { t with openupval := l } := by
  rcases h.heap x with heq | ⟨hnone, -⟩ | ⟨obj, t, l, hobj, hbody, hobj'⟩
  · rw [State.body, heq] at hb
    exact .inl hb
  · rw [State.body, hnone] at hb
    cases hb
  · rw [State.body, hobj'] at hb
    exact .inr ⟨t, l, body_eq_some.mpr ⟨obj, hobj, hbody⟩, (Option.some.inj hb).symm⟩

theorem Sweeps.body_of_keeps (h : Sweeps s s') (hb : s.body x = some b)
    (hk : s.keeps x = true ∨ b.kind = .thread) : s'.body x = some b ∨
      ∃ t l, b = .thread t ∧ s'.body x = some (.thread { t with openupval := l }) := by
  rcases h.heap x with heq | ⟨-, hdead, hnot⟩ | ⟨obj, t, l, hobj, hbody, hobj'⟩
  · rw [State.body, heq]
    exact .inl hb
  · rcases hk with hk | hk
    · rw [hdead] at hk
      cases hk
    · cases b with
      | thread t => exact absurd hb (hnot t)
      | _ => cases hk
  · have hb' := body_eq_some.mpr ⟨obj, hobj, hbody⟩
    refine .inr ⟨t, l, Option.some.inj (hb.symm.trans hb'), ?_⟩
    rw [State.body, hobj']
    rfl

theorem Sweeps.value (h : Sweeps s s') : s'.value = s.value := by
  funext uv
  cases uv with
  | closed v => rfl
  | opened th level =>
    cases hb : s'.body th with
    | some b =>
      rcases h.body hb with hb' | ⟨t, l, hb', rfl⟩
      · simp only [State.value, hb, hb']
      · simp only [State.value, hb, hb']
    | none =>
      cases hb' : s.body th with
      | none => simp only [State.value, hb, hb']
      | some b =>
        cases b with
        | thread t =>
          rcases h.body_of_keeps hb' (.inr rfl) with hb'' | ⟨t', l, -, hb''⟩
          · rw [hb] at hb''
            cases hb''
          · rw [hb] at hb''
            cases hb''
        | _ => simp only [State.value, hb, hb']

theorem Sweeps.refs (h : Sweeps s s') (hb : s'.body x = some b) :
    ∃ b₀, s.body x = some b₀ ∧ b₀.kind = b.kind ∧ s'.refs b = s.refs b₀ ∧
      ∀ c, b₀.mayBe c = b.mayBe c := by
  rcases h.body hb with hb' | ⟨t, l, hb', rfl⟩
  · refine ⟨b, hb', rfl, ?_, fun _ => rfl⟩
    cases b <;> simp only [State.refs, h.value]
  · exact ⟨.thread t, hb', rfl, rfl, fun _ => rfl⟩

theorem Sweeps.isdead (h : Sweeps s s') (hx : s.isdead x = false) : s'.isdead x = false := by
  rcases h.color x with hc | ⟨-, hc⟩
  · rw [State.isdead, State.otherwhite, hc, h.currentwhite]
    exact hx
  · exact isdead_of_white (by rw [hc, h.currentwhite])

theorem Sweeps.isfixed (h : Sweeps s s') (hx : s'.isfixed x = true) : s.isfixed x = true := by
  rcases h.heap x with heq | ⟨hnone, -⟩ | ⟨obj, t, l, hobj, -, hobj'⟩
  · rwa [State.isfixed, heq] at hx
  · rw [State.isfixed, hnone] at hx
    cases hx
  · rw [State.isfixed, hobj'] at hx
    rw [State.isfixed, hobj]
    exact hx

theorem Sweeps.keeps (h : Sweeps s s') (hx : s.keeps x = true) : s'.keeps x = true := by
  rcases keeps_iff.mp hx with hdead | hfixed
  · exact keeps_iff.mpr (.inl (h.isdead hdead))
  · refine keeps_iff.mpr (.inr ?_)
    rcases h.heap x with heq | ⟨-, hdead, -⟩ | ⟨obj, t, l, hobj, -, hobj'⟩
    · rwa [State.isfixed, heq]
    · rw [hx] at hdead
      cases hdead
    · rw [State.isfixed, hobj'] 
      rw [State.isfixed, hobj] at hfixed
      exact hfixed

theorem Sweeps.holds (h : Sweeps s s') {r : Ref} (hr : s.Holds r) : s'.Holds r := by
  obtain ⟨⟨b, hb, hacc⟩, hk⟩ := hr
  refine ⟨?_, h.keeps hk⟩
  rcases h.body_of_keeps hb (.inl hk) with hb' | ⟨t, l, rfl, hb'⟩
  · exact ⟨b, hb', hacc⟩
  · exact ⟨_, hb', hacc⟩

/-- What is not dead was not dead before. -/
theorem Sweeps.kept (h : Sweeps s s') (hx : s'.keeps x = true) : s.keeps x = true := by
  rcases keeps_iff.mp hx with hdead | hfixed
  · rcases h.color x with hc | ⟨hk, -⟩
    · refine keeps_iff.mpr (.inl ?_)
      rw [State.isdead, State.otherwhite, hc, h.currentwhite] at hdead
      exact hdead
    · exact hk
  · exact keeps_iff.mpr (.inr (h.isfixed hfixed))

theorem body_of_isfixed (h : s.isfixed x = true) : ∃ b, s.body x = some b := by
  cases hobj : s.heap x with
  | none =>
    rw [State.isfixed, hobj] at h
    cases h
  | some obj => exact ⟨obj.body, body_eq_some.mpr ⟨obj, hobj, rfl⟩⟩

theorem Sweeps.sound (h : Sweeps s s') (hs : s.Sound) : s'.Sound := by
  refine ⟨fun x b hb hk r hr => ?_, fun r hr => ?_, fun x hx => ?_⟩
  · obtain ⟨b₀, hb₀, -, hrefs, -⟩ := h.refs hb
    rw [hrefs] at hr
    exact h.holds (hs.refs x b₀ hb₀ (h.kept hk) r hr)
  · exact h.holds (hs.roots r (h.roots ▸ hr))
  · obtain ⟨b, hb⟩ := body_of_isfixed hx
    rcases hs.fixed x (h.isfixed hx) with ⟨bytes, hb'⟩ | rfl
    · rcases h.body hb with hb₀ | ⟨t, l, hb₀, -⟩
      · obtain rfl := Option.some.inj (hb'.symm.trans hb₀)
        exact .inl ⟨bytes, hb⟩
      · rw [hb'] at hb₀
        cases hb₀
    · exact .inr h.mainthread.symm

theorem Sweeps.colored (h : Sweeps s s') (hs : s.Colored) : s'.Colored := by
  intro x b hb hm
  obtain ⟨b₀, hb₀, -, -, hmay⟩ := h.refs hb
  rcases h.color x with hc | ⟨-, hc⟩
  · rw [hc, ← hmay]
    refine hs x b₀ hb₀ ?_
    rwa [State.marked, hc] at hm
  · rw [State.marked, hc] at hm
    cases hm

end State
end JLua.Collector
