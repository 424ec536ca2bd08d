import JLua.CollectorSteps

/-!
# Writes of the program

The program changes an object that it can reach and then tells the collector: a write alone keeps
the invariant when the object is not black, and the barriers mend it when it is.
-/

namespace JLua.Collector

set_option autoImplicit false

/-- The changes that a program makes to an object. -/
inductive Rewrites : Body → Body → Prop where
  | table (h h' : Table) : Rewrites (.table h) (.table h')
  | userdata (mt mt' : Option Addr) (env env' : Addr) :
    Rewrites (.userdata mt env) (.userdata mt' env')
  | function (cl cl' : Closure) : Rewrites (.function cl) (.function cl')
  | upval (v v' : TValue) : Rewrites (.upval (.closed v)) (.upval (.closed v'))
  | thread (t t' : Thread) (h : t'.openupval = t.openupval) : Rewrites (.thread t) (.thread t')
  | proto (p p' : Proto) : Rewrites (.proto p) (.proto p')

theorem Rewrites.kind {b b' : Body} (h : Rewrites b b') : b'.kind = b.kind := by
  cases h <;> rfl

theorem Rewrites.isRoot {b b' : Body} (h : Rewrites b b') : b.isRoot = true ∧ b'.isRoot = true := by
  cases h <;> exact ⟨rfl, rfl⟩

theorem Rewrites.mayBe {b b' : Body} (h : Rewrites b b') (c : Color) : b'.mayBe c = b.mayBe c := by
  cases h <;> rfl

theorem Rewrites.listed {b b' : Body} (h : Rewrites b b') : b'.listed = b.listed := by
  cases h <;> rfl

theorem Rewrites.not_string {b b' : Body} (h : Rewrites b b') (bytes : List UInt8) :
    b ≠ .string bytes ∧ b' ≠ .string bytes := by
  cases h <;> exact ⟨fun hf => (by cases hf), fun hf => (by cases hf)⟩

theorem Rewrites.not_opened {b b' : Body} (h : Rewrites b b') (th : Addr) (level : Nat) :
    b ≠ .upval (.opened th level) ∧ b' ≠ .upval (.opened th level) := by
  cases h <;> exact ⟨fun hf => (by cases hf), fun hf => (by cases hf)⟩

namespace State
variable {s s' s'' : State} {o x th : Addr} {b b' : Body} {v : TValue} {t : Thread}

section Write
variable (hb : s.body o = some b) (hw : Rewrites b b')
include hb

theorem write_self : (s.setBody o b').body o = some b' := body_setBody_self hb

theorem isfixed_write : (s.setBody o b').isfixed = s.isfixed := by
  funext x
  by_cases hx : x = o
  · obtain ⟨obj, hobj, -⟩ := body_eq_some.mp hb
    subst hx
    simp [State.isfixed, setBody, hobj]
  · simp [State.isfixed, setBody, hx]

theorem isfinalized_write : (s.setBody o b').isfinalized = s.isfinalized := by
  funext x
  by_cases hx : x = o
  · obtain ⟨obj, hobj, -⟩ := body_eq_some.mp hb
    subst hx
    simp [State.isfinalized, setBody, hobj]
  · simp [State.isfinalized, setBody, hx]

theorem keeps_write : (s.setBody o b').keeps = s.keeps := by
  funext x
  unfold State.keeps
  rw [isfixed_write hb]
  rfl

/-- Objects of other forms are what they were. -/
theorem body_write {b₁ : Body} (h₁ : b₁ ≠ b) (h₁' : b₁ ≠ b') :
    (s.setBody o b').body x = some b₁ ↔ s.body x = some b₁ := by
  by_cases hx : x = o
  · rw [hx, write_self hb, hb]
    exact ⟨fun h => absurd (Option.some.inj h).symm h₁',
      fun h => absurd (Option.some.inj h).symm h₁⟩
  · rw [body_setBody hx]

include hw

theorem string_write {bytes : List UInt8} :
    (s.setBody o b').body x = some (.string bytes) ↔ s.body x = some (.string bytes) :=
  body_write hb (hw.not_string bytes).1.symm (hw.not_string bytes).2.symm

theorem opened_write {level : Nat} : (s.setBody o b').body x = some (.upval (.opened th level)) ↔
    s.body x = some (.upval (.opened th level)) :=
  body_write hb (hw.not_opened th level).1.symm (hw.not_opened th level).2.symm

theorem thread_write {t' : Thread} (ht : (s.setBody o b').body x = some (.thread t')) :
    ∃ t, s.body x = some (.thread t) ∧ t'.openupval = t.openupval := by
  by_cases hx : x = o
  · rw [hx, write_self hb] at ht
    obtain rfl := Option.some.inj ht
    cases hw with
    | thread t _ h => exact ⟨t, hx ▸ hb, h⟩
  · rw [body_setBody hx] at ht
    exact ⟨t', ht, rfl⟩

theorem Lists.write (hl : s.Lists) : (s.setBody o b').Lists := by
  refine ⟨hl.rootNodup, fun x => ?_, fun x hx => ?_, fun x hx => ?_, hl.strNodup, fun x => ?_,
    hl.uvNodup, fun x => ?_, fun th t' ht' => ?_, fun th t' ht' x => ?_, fun x th level hx => ?_,
    hl.main⟩
  · refine (hl.mem_root x).trans ?_
    by_cases hx : x = o
    · subst hx
      exact ⟨fun _ => ⟨b', write_self hb, hw.isRoot.2⟩, fun _ => ⟨b, hb, hw.isRoot.1⟩⟩
    · rw [body_setBody hx]
  · obtain ⟨mt, env, hx'⟩ := hl.tmudata x hx
    by_cases hxo : x = o
    · subst hxo
      obtain rfl := Option.some.inj (hb.symm.trans hx')
      cases hw with
      | userdata _ mt' _ env' => exact ⟨mt', env', write_self hb⟩
    · exact ⟨mt, env, by rwa [body_setBody hxo]⟩
  · rw [isfinalized_write hb]
    exact hl.finalized x hx
  · exact (hl.mem_strt x).trans (exists_congr fun _ => (string_write hb hw).symm)
  · exact (hl.mem_uvhead x).trans
      (exists_congr fun _ => exists_congr fun _ => (opened_write hb hw).symm)
  · obtain ⟨t, ht, heq⟩ := thread_write hb hw ht'
    rw [heq]
    exact hl.openNodup th t ht
  · obtain ⟨t, ht, heq⟩ := thread_write hb hw ht'
    rw [heq]
    exact (hl.mem_open th t ht x).trans (exists_congr fun _ => (opened_write hb hw).symm)
  · obtain ⟨t, ht⟩ := hl.thread x th level ((opened_write hb hw).mp hx)
    by_cases hth : th = o
    · subst hth
      obtain rfl := Option.some.inj (hb.symm.trans ht)
      cases hw with
      | thread _ t' _ => exact ⟨t', write_self hb⟩
    · exact ⟨t, by rwa [body_setBody hth]⟩

theorem Fits.write {r : Ref} (hr : s.Fits r) : (s.setBody o b').Fits r := by
  obtain ⟨b₁, hb₁, hacc⟩ := hr
  by_cases hx : r.2 = o
  · rw [hx] at hb₁
    obtain rfl := Option.some.inj (hb.symm.trans hb₁)
    refine ⟨b', by rw [hx]; exact write_self hb, ?_⟩
    rw [hw.kind]
    exact hacc
  · exact ⟨b₁, by rwa [body_setBody hx], hacc⟩

theorem Holds.write {r : Ref} (hr : s.Holds r) : (s.setBody o b').Holds r :=
  ⟨hr.1.write hb hw, by rw [keeps_write hb]; exact hr.2⟩

/-- An open upvalue of the thread that was written denotes what is in the stack now. -/
theorem value_write {level : Nat} {r : Ref}
    (hr : r ∈ ((s.setBody o b').value (.opened th level)).refs) :
    r ∈ (s.value (.opened th level)).refs ∨ r ∈ s.refs b' := by
  by_cases hth : th = o
  · subst hth
    cases hw with
    | thread t t' h =>
      right
      simp only [State.value, write_self hb] at hr
      refine List.mem_append_right _ (List.mem_flatMap.mpr ⟨_, ?_, hr⟩)
      rw [List.getD_eq_getElem?_getD] at hr ⊢
      cases hi : t'.stack[level]? with
      | none =>
        rw [hi] at hr
        cases hr
      | some v => exact List.mem_of_getElem? hi
    | _ =>
      simp only [State.value, write_self hb] at hr
      cases hr
  · left
    simpa only [State.value, body_setBody hth] using hr

/-- The references of an object after the write. -/
theorem refs_write {b₁ : Body} {r : Ref} (hx : (s.setBody o b').body x = some b₁)
    (hr : r ∈ (s.setBody o b').refs b₁) :
    (∃ b₀, s.body x = some b₀ ∧ r ∈ s.refs b₀ ∧ (x ≠ o → b₀ = b₁)) ∨ r ∈ s.refs b' := by
  by_cases hxo : x = o
  · rw [hxo, write_self hb] at hx
    obtain rfl := Option.some.inj hx
    right
    cases hw <;> exact hr
  · rw [body_setBody hxo] at hx
    cases b₁ with
    | upval uv =>
      cases uv with
      | opened th level =>
        refine (value_write hb hw hr).imp_left fun hr => ⟨_, hx, hr, fun _ => rfl⟩
      | closed v => exact .inl ⟨_, hx, hr, fun _ => rfl⟩
    | _ => exact .inl ⟨_, hx, hr, fun _ => rfl⟩

theorem Sound.write (h : s.Sound) (hrefs : ∀ r ∈ s.refs b', s.Holds r) :
    (s.setBody o b').Sound := by
  refine ⟨fun x b₁ hx hk r hr => ?_, fun r hr => (h.roots r hr).write hb hw, fun x hx => ?_⟩
  · rw [keeps_write hb] at hk
    rcases refs_write hb hw hx hr with ⟨b₀, hb₀, hr₀, -⟩ | hr'
    · exact (h.refs x b₀ hb₀ hk r hr₀).write hb hw
    · exact (hrefs r hr').write hb hw
  · rw [isfixed_write hb] at hx
    refine (h.fixed x hx).imp_left fun ⟨bytes, hbytes⟩ => ⟨bytes, (string_write hb hw).mpr hbytes⟩

theorem Colored.write (h : s.Colored) : (s.setBody o b').Colored := by
  intro x b₁ hx hm
  change b₁.mayBe (s.color x) = true
  by_cases hxo : x = o
  · subst hxo
    rw [write_self hb] at hx
    obtain rfl := Option.some.inj hx
    rw [hw.mayBe]
    exact h x b hb hm
  · rw [body_setBody hxo] at hx
    exact h x b₁ hx hm

theorem Sweeping.write (h : s.Sweeping) : (s.setBody o b').Sweeping := by
  refine ⟨fun x b₁ hx => ?_, h.tmudata⟩
  change s.color x = _ ∨ _
  by_cases hxo : x = o
  · subst hxo
    rw [write_self hb] at hx
    obtain rfl := Option.some.inj hx
    refine (h.pending x b hb).imp_right fun hp => ?_
    cases hw <;> exact hp
  · rw [body_setBody hxo] at hx
    exact h.pending x b₁ hx

/-- Other objects settle as before. Those that denote something else now are not black. -/
theorem Frontier.write (h : s.Frontier) (hcolored : s.Colored)
    (hblack : s.color o = .black → o ∉ s.tmudata → ∀ r ∈ s.refs b', s.marked r.2) :
    (s.setBody o b').Frontier := by
  have hlisted : ∀ l, s.Listed l → (s.setBody o b').Listed l := fun l hl x hx => by
    obtain ⟨b₁, hb₁, hl₁⟩ := hl x hx
    by_cases hxo : x = o
    · subst hxo
      obtain rfl := Option.some.inj (hb.symm.trans hb₁)
      exact ⟨b', write_self hb, hw.listed.trans hl₁⟩
    · exact ⟨b₁, by rwa [body_setBody hxo], hl₁⟩
  refine ⟨fun x b₁ hx hc htm r hr => ?_, fun x b₁ hx hc hl => ?_, hlisted _ h.gray,
    hlisted _ h.grayagain, hlisted _ h.weak⟩
  · change s.marked r.2
    have hc₀ : s.color x = .black := hc
    by_cases hxo : x = o
    · subst hxo
      rw [write_self hb] at hx
      obtain rfl := Option.some.inj hx
      refine hblack hc₀ htm r ?_
      cases hw <;> exact hr
    · rw [body_setBody hxo] at hx
      refine h.black x b₁ hx hc₀ htm r ?_
      cases b₁ with
      | upval uv =>
        cases uv with
        | opened th level =>
          have hmay := hcolored x _ hx (by rw [State.marked, hc₀]; rfl)
          rw [hc₀] at hmay
          cases hmay
        | closed v => exact hr
      | _ => exact hr
  · by_cases hxo : x = o
    · subst hxo
      rw [write_self hb] at hx
      obtain rfl := Option.some.inj hx
      exact h.waits x b hb hc (hw.listed.symm.trans hl)
    · rw [body_setBody hxo] at hx
      exact h.waits x b₁ hx hc hl

theorem write_inv (h : s.Inv) (hrefs : ∀ r ∈ s.refs b', s.Holds r)
    (hblack : s.gcstate = .propagate → s.color o = .black → o ∉ s.tmudata →
      ∀ r ∈ s.refs b', s.marked r.2) : (s.setBody o b').Inv := by
  have hl := h.lists.write hb hw
  refine ⟨hl, h.sound.write hb hw hrefs, h.colored.write hb hw, fun hst => ?_,
    fun hst => (h.sweeping hst).write hb hw⟩
  have hmark := h.marking hst
  have hf := hmark.tri.frontier.write hb hw h.colored (hblack hst)
  refine ⟨hf.tri (h.colored.write hb hw) hl.tmudata, fun x b₁ hx => ?_, hmark.main, hmark.registry⟩
  change s.isdead x = false
  by_cases hxo : x = o
  · exact hmark.alive x b (hxo ▸ hb)
  · rw [body_setBody hxo] at hx
    exact hmark.alive x b₁ hx

end Write

/-- What the program puts on a stack needs no barrier: threads are never black. -/
theorem stack_inv (h : s.Inv) (ht : s.body th = some (.thread t)) (stack : List TValue)
    (hrefs : ∀ v ∈ stack, ∀ r ∈ v.refs, s.Holds r) (hgt : ∀ r ∈ t.gt.refs, s.Holds r) :
    (s.setBody th (.thread { t with stack })).Inv := by
  refine write_inv ht (.thread t _ rfl) h (fun r hr => ?_) fun _ hc => ?_
  · rcases List.mem_append.mp hr with hr | hr
    · exact hgt r hr
    · obtain ⟨v, hv, hr⟩ := List.mem_flatMap.mp hr
      exact hrefs v hv r hr
  · have hmay := h.colored th _ ht (by rw [State.marked, hc]; rfl)
    rw [hc] at hmay
    cases hmay

end State
end JLua.Collector
