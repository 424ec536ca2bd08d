import JLua.Collector

/-!
# Marking

What one marking function does to the colors, and what the frontier of gray objects means: an object
that is marked either waits in a list, or everything that it keeps is marked too.
-/

namespace JLua.Collector

set_option autoImplicit false

/-! ### What objects refer to -/

inductive Kind where
  | string
  | userdata
  | upval
  | function
  | table
  | thread
  | proto
  deriving DecidableEq

def Body.kind : Body → Kind
  | string _ => .string
  | userdata _ _ => .userdata
  | upval _ => .upval
  | function _ => .function
  | table _ => .table
  | thread _ => .thread
  | proto _ => .proto

/-- What the declaration of a reference says of the object. -/
inductive Role where
  | value
  | table
  | string
  | upval
  | thread
  | proto
  deriving DecidableEq

def Role.accepts : Role → Kind → Prop
  | value, k => k ≠ .upval
  | table, k => k = .table
  | string, k => k = .string
  | upval, k => k = .upval
  | thread, k => k = .thread
  | proto, k => k = .proto

abbrev Ref := Role × Addr

def TValue.refs : TValue → List Ref
  | object o => [(.value, o)]
  | _ => []

def optionRefs (role : Role) (o : Option Addr) : List Ref := o.toList.map (role, ·)

def Table.refs (h : Table) (weakkey weakvalue : Bool) : List Ref :=
  optionRefs .table h.metatable ++ (h.marked weakkey weakvalue).flatMap TValue.refs

def Closure.refs : Closure → List Ref
  | c env upvalue => (.table, env) :: upvalue.flatMap TValue.refs
  | lua env p upvals => (.table, env) :: (.proto, p) :: upvals.map (.upval, ·)

def Thread.refs (th : Thread) : List Ref := th.gt.refs ++ th.stack.flatMap TValue.refs

def Proto.refs (p : Proto) : List Ref :=
  optionRefs .string p.source ++ p.k.flatMap TValue.refs ++
    p.upvalues.flatMap (optionRefs .string) ++ p.p.flatMap (optionRefs .proto) ++
    p.varnames.flatMap (optionRefs .string)

/-- What waits in a list to be traversed. -/
def Body.listed : Body → Bool
  | function _ | table _ | thread _ | proto _ => true
  | _ => false

def Body.isOpened : Body → Bool
  | upval (.opened _ _) => true
  | _ => false

/-- Strings, threads and open upvalues are never black, userdata and closed upvalues never gray. -/
def Body.mayBe : Body → Color → Bool
  | string _, c | thread _, c | upval (.opened _ _), c => c ≠ .black
  | userdata _ _, c | upval (.closed _), c => c ≠ .gray
  | _, _ => true

namespace State
variable (s : State)

/-- All references of an object, those of weak tables too. An open upvalue does not keep its
thread, but the value that it denotes. -/
def refs : Body → List Ref
  | .string _ => []
  | .userdata mt env => optionRefs .table mt ++ [(.table, env)]
  | .upval uv => (s.value uv).refs
  | .function cl => cl.refs
  | .table h => h.refs false false
  | .thread th => th.refs
  | .proto p => p.refs

/-- What an object of some color keeps: a table that is gray after its traversal is weak. -/
def keptRefs (c : Color) (b : Body) : List Ref :=
  match b with
  | .table h => if c = .gray then h.refs h.weakkey h.weakvalue else h.refs false false
  | b => s.refs b

/-- A marked object is black or gray. -/
def marked (o : Addr) : Prop := (s.color o).isWhite = false

/-- All that the object keeps is marked. -/
def Done (o : Addr) : Prop :=
  ∀ b, s.body o = some b → ∀ r ∈ s.keptRefs (s.color o) b, s.marked r.2

end State

/-! ### Colors and bodies -/

namespace State
variable {s s' s'' : State} {o x : Addr} {c : Color} {b : Body} {v : TValue}

@[simp] theorem setColor_heap : (s.setColor o c).heap = s.heap := rfl
@[simp] theorem setColor_body : (s.setColor o c).body = s.body := rfl
@[simp] theorem setColor_value : (s.setColor o c).value = s.value := rfl
@[simp] theorem setColor_gray : (s.setColor o c).gray = s.gray := rfl
@[simp] theorem setColor_self : (s.setColor o c).color o = c := Function.update_self ..

theorem setColor_of_ne (h : x ≠ o) : (s.setColor o c).color x = s.color x :=
  Function.update_of_ne h ..

theorem value_congr (h : s'.body = s.body) : s'.value = s.value := by
  funext uv
  cases uv <;> simp only [value, h]

theorem keptRefs_congr (h : s'.body = s.body) : s'.keptRefs = s.keptRefs := by
  funext c b
  cases b <;> simp only [keptRefs, refs, value_congr h]

theorem iswhite_eq_false : s.iswhite o = false ↔ s.marked o := Iff.rfl

theorem iswhite_iff : s.iswhite o = true ↔ ¬s.marked o := by
  rw [← iswhite_eq_false, Bool.not_eq_false]

/-! ### One marking after the other -/

/-- A list that has all objects which can get into the gray list. -/
def Covers (s : State) (l : List Addr) : Prop := ∀ o b, s.body o = some b → b.listed = true → o ∈ l

/-- What every marking does: white objects get another color, the gray list grows, nothing else
changes; and an object that is marked now is gray and in the list, or is done with. -/
structure Marks (s s' : State) : Prop where
  eq : s' = { s with color := s'.color, gray := s'.gray }
  keeps : ∀ x, s.marked x → s'.color x = s.color x
  whites : ∀ x, ¬s'.marked x → s'.color x = s.color x
  gray : ∀ x ∈ s.gray, x ∈ s'.gray
  fresh : ∀ x, ¬s.marked x → s'.marked x → ∃ b, s.body x = some b ∧
    (b.listed = true ∧ s'.color x = .gray ∧ x ∈ s'.gray ∨
      b.listed = false ∧ b.mayBe (s'.color x) = true ∧ s'.Done x)
  listed : ∀ x ∈ s'.gray, x ∈ s.gray ∨ ∃ b, s.body x = some b ∧ b.listed = true
  count : ∀ l, s.Covers l →
    l.countP s'.iswhite + s'.gray.length ≤ l.countP s.iswhite + s.gray.length

theorem Marks.body (h : Marks s s') : s'.body = s.body := by
  rw [h.eq]
  rfl

theorem Marks.marked (h : Marks s s') (hx : s.marked x) : s'.marked x := by
  unfold State.marked
  rw [h.keeps x hx]
  exact hx

/-- What is done with stays so. -/
theorem Marks.done (h : Marks s s') (hx : s.marked x) (hdone : s.Done x) : s'.Done x := by
  intro b hb r hr
  rw [h.body] at hb
  rw [keptRefs_congr h.body, h.keeps x hx] at hr
  exact h.marked (hdone b hb r hr)

theorem Marks.refl (s : State) : Marks s s :=
  ⟨rfl, fun _ _ => rfl, fun _ _ => rfl, fun _ => id, fun _ h h' => absurd h' h, fun _ => .inl,
    fun _ _ => le_refl _⟩

theorem Covers.congr {l : List Addr} (h : s.Covers l) (hs : s'.body = s.body) : s'.Covers l := by
  unfold Covers
  rw [hs]
  exact h

theorem Marks.trans (h : Marks s s') (h' : Marks s' s'') : Marks s s'' := by
  constructor
  · rw [h'.eq, h.eq]
  · intro x hx
    rw [h'.keeps x (h.marked hx), h.keeps x hx]
  · intro x hx
    rw [h'.whites x hx, h.whites x fun hx' => hx (h'.marked hx')]
  · intro x hx
    exact h'.gray x (h.gray x hx)
  · intro x hx hx''
    by_cases hx' : s'.marked x
    · obtain ⟨b, hb, ⟨hl, hc, hg⟩ | ⟨hl, hm, hdone⟩⟩ := h.fresh x hx hx'
      · exact ⟨b, hb, .inl ⟨hl, (h'.keeps x hx').trans hc, h'.gray x hg⟩⟩
      · exact ⟨b, hb, .inr ⟨hl, by rwa [h'.keeps x hx'], h'.done hx' hdone⟩⟩
    · rw [← h.body]
      exact h'.fresh x hx' hx''
  · intro x hx
    rcases h'.listed x hx with hx' | hx'
    · exact h.listed x hx'
    · exact .inr (h.body ▸ hx')
  · intro l hl
    exact (h'.count l (hl.congr h.body)).trans (h.count l hl)

theorem marks_foldl {α : Type} {f : State → α → State} {l : List α}
    (hf : ∀ s', Marks s s' → ∀ a ∈ l, Marks s' (f s' a)) : Marks s (l.foldl f s) := by
  induction l generalizing s with
  | nil => exact Marks.refl s
  | cons a l ih =>
    have ha : Marks s (f s a) := hf s (Marks.refl s) a List.mem_cons_self
    refine ha.trans (ih fun s' hs' a' ha' => ?_)
    exact hf s' (ha.trans hs') a' (List.mem_cons_of_mem a ha')

/-- What one of many markings has marked. -/
theorem marked_foldl {α : Type} {f : State → α → State} {l : List α} {a : α}
    (hf : ∀ s', Marks s s' → ∀ a ∈ l, Marks s' (f s' a)) (ha : a ∈ l)
    (hx : ∀ s', Marks s s' → (f s' a).marked x) : (l.foldl f s).marked x := by
  induction l generalizing s with
  | nil => cases ha
  | cons a' l ih =>
    have ha' : Marks s (f s a') := hf s (Marks.refl s) a' List.mem_cons_self
    have hrest : ∀ s', Marks (f s a') s' → ∀ a ∈ l, Marks s' (f s' a) :=
      fun s' hs' a'' h => hf s' (ha'.trans hs') a'' (List.mem_cons_of_mem a' h)
    rw [List.foldl_cons]
    rcases List.mem_cons.mp ha with rfl | ha
    · exact (marks_foldl hrest).marked (hx s (Marks.refl s))
    · exact ih hrest ha fun s' hs' => hx s' (ha'.trans hs')

theorem setColor_eq_self (h : s.color o = c) : s.setColor o c = s := by
  rw [setColor, ← h, Function.update_eq_self]

theorem countP_setColor_le (l : List Addr) (s : State) (o : Addr) (hc : c.isWhite = false) :
    l.countP (s.setColor o c).iswhite ≤ l.countP s.iswhite := by
  refine List.countP_mono_left fun x _ hx => ?_
  by_cases hxo : x = o
  · rw [hxo, iswhite, setColor_self, hc] at hx
    cases hx
  · rwa [iswhite, setColor_of_ne hxo] at hx

theorem countP_setColor_lt {l : List Addr} (hl : o ∈ l) (ho : ¬s.marked o)
    (hc : c.isWhite = false) : l.countP (s.setColor o c).iswhite < l.countP s.iswhite := by
  induction l with
  | nil => cases hl
  | cons x l ih =>
    rcases List.mem_cons.mp hl with rfl | hl
    · have hold : s.iswhite o = true := iswhite_iff.mpr ho
      have hnew : ¬(s.setColor o c).iswhite o = true := by
        rw [iswhite, setColor_self, hc]
        exact Bool.false_ne_true
      rw [List.countP_cons_of_neg hnew, List.countP_cons_of_pos hold]
      exact Nat.lt_succ_of_le (countP_setColor_le l s o hc)
    · rw [List.countP_cons, List.countP_cons]
      refine Nat.add_lt_add_of_lt_of_le (ih hl) ?_
      have := countP_setColor_le [x] s o hc
      simpa [List.countP_cons] using this

/-- An object that does not go to the list gets its color, and then, maybe, another one, after
what it keeps was marked. -/
theorem Marks.around {c' : Color} (hb : s.body o = some b) (hl : b.listed = false)
    (ho : ¬s.marked o) (hc : c.isWhite = false) (h : Marks (s.setColor o c) s')
    (hm : b.mayBe c' = true) (hc' : c'.isWhite = false) (hdone : (s'.setColor o c').Done o) :
    Marks s (s'.setColor o c') := by
  have hkeeps : ∀ x, s.marked x → (s'.setColor o c').color x = s.color x := by
    intro x hx
    have hxo : x ≠ o := fun hxo => ho (hxo ▸ hx)
    have hx₁ : (s.setColor o c).color x = s.color x := setColor_of_ne hxo
    have hx₂ : (s.setColor o c).marked x := by
      rw [State.marked, hx₁]
      exact hx
    rw [setColor_of_ne hxo, h.keeps x hx₂, hx₁]
  have hmarked : ∀ {x}, s'.marked x → (s'.setColor o c').marked x := by
    intro x hx
    by_cases hxo : x = o
    · rw [hxo, State.marked, setColor_self]
      exact hc'
    · rw [State.marked, setColor_of_ne hxo]
      exact hx
  constructor
  · rw [h.eq]
    rfl
  · exact hkeeps
  · intro x hx
    have hxo : x ≠ o := by
      rintro rfl
      rw [State.marked, setColor_self] at hx
      exact hx hc'
    rw [setColor_of_ne hxo, h.whites x fun hx' => hx (hmarked hx'), setColor_of_ne hxo]
  · exact h.gray
  · intro x hx hx'
    by_cases hxo : x = o
    · subst hxo
      exact ⟨b, hb, .inr ⟨hl, by rwa [setColor_self], hdone⟩⟩
    · have hx₁ : ¬(s.setColor o c).marked x := by
        rwa [State.marked, setColor_of_ne hxo]
      have hx₂ : s'.marked x := by rwa [State.marked, setColor_of_ne hxo] at hx'
      rw [setColor_of_ne hxo]
      obtain ⟨b', hb', hcase | ⟨hl', hm', hdone'⟩⟩ := h.fresh x hx₁ hx₂
      · exact ⟨b', hb', .inl hcase⟩
      · refine ⟨b', hb', .inr ⟨hl', hm', fun b'' hb'' r hr => ?_⟩⟩
        rw [setColor_of_ne hxo] at hr
        exact hmarked (hdone' b'' hb'' r hr)
  · exact h.listed
  · intro l hl
    calc l.countP (s'.setColor o c').iswhite + (s'.setColor o c').gray.length
        ≤ l.countP s'.iswhite + s'.gray.length :=
          Nat.add_le_add_right (countP_setColor_le l s' o hc') _
      _ ≤ l.countP (s.setColor o c).iswhite + s.gray.length := h.count l hl
      _ ≤ l.countP s.iswhite + s.gray.length :=
          Nat.add_le_add_right (countP_setColor_le l s o hc) _

theorem marks_linkgray (hb : s.body o = some b) (hl : b.listed = true) (ho : ¬s.marked o) :
    Marks s (s.linkgray o) := by
  constructor
  · rfl
  · intro x hx
    exact setColor_of_ne fun hxo => ho (hxo ▸ hx)
  · intro x hx
    refine setColor_of_ne fun hxo => hx ?_
    rw [hxo]
    exact congrArg Color.isWhite setColor_self
  · exact fun x hx => List.mem_cons_of_mem o hx
  · intro x hx hx'
    by_cases hxo : x = o
    · subst hxo
      exact ⟨b, hb, .inl ⟨hl, setColor_self, List.mem_cons_self⟩⟩
    · have hcolor : (s.linkgray o).color x = s.color x := setColor_of_ne hxo
      rw [State.marked, hcolor] at hx'
      exact absurd hx' hx
  · intro x hx
    rcases List.mem_cons.mp hx with rfl | hx
    · exact .inr ⟨b, hb, hl⟩
    · exact .inl hx
  · intro l hcovers
    have hlt : l.countP (s.setColor o .gray).iswhite < l.countP s.iswhite :=
      countP_setColor_lt (hcovers o b hb hl) ho rfl
    change l.countP (s.setColor o .gray).iswhite + (s.gray.length + 1) ≤ _
    omega

theorem marks_marktable (s : State) (t : Addr) : Marks s (s.marktable t) := by
  unfold marktable
  split
  next h hb =>
    split
    next hw => exact marks_linkgray hb rfl (iswhite_iff.mp hw)
    next => exact Marks.refl s
  next => exact Marks.refl s

/-! ### Marking what the declarations promise -/

/-- The object is there, and what the reference was declared as. -/
def Fits (s : State) (r : Ref) : Prop := ∃ b, s.body r.2 = some b ∧ r.1.accepts b.kind

def Typed (s : State) : Prop := ∀ o b, s.body o = some b → ∀ r ∈ s.refs b, s.Fits r

theorem Fits.congr {r : Ref} (h : s.Fits r) (hs : s'.body = s.body) : s'.Fits r := by
  unfold Fits
  rw [hs]
  exact h

theorem refs_congr (h : s'.body = s.body) : s'.refs = s.refs := by
  funext b
  cases b <;> simp only [refs, value_congr h]

theorem Typed.congr (h : s.Typed) (hs : s'.body = s.body) : s'.Typed := by
  intro o b hb r hr
  rw [hs] at hb
  rw [refs_congr hs] at hr
  exact (h o b hb r hr).congr hs

theorem marked_marktable (h : s.Fits (.table, o)) : (s.marktable o).marked o := by
  obtain ⟨b, hb, hk⟩ := h
  cases b with
  | table t =>
    simp only [marktable, hb]
    split
    next => exact congrArg Color.isWhite setColor_self
    next hw => exact Bool.eq_false_iff.mpr hw
  | _ => exact absurd hk (by simp [Role.accepts, Body.kind])

/-- The same, when the object keeps its color. -/
theorem Marks.after (hb : s.body o = some b) (hl : b.listed = false) (ho : ¬s.marked o)
    (hc : c.isWhite = false) (h : Marks (s.setColor o c) s') (hm : b.mayBe c = true)
    (hdone : s'.Done o) : Marks s s' := by
  have hmarked : (s.setColor o c).marked o := by
    rw [State.marked, setColor_self]
    exact hc
  have hself : s'.setColor o c = s' :=
    setColor_eq_self ((h.keeps o hmarked).trans setColor_self)
  have := Marks.around hb hl ho hc h hm hc (by rwa [hself])
  rwa [hself] at this

theorem mem_optionRefs {role : Role} {m : Option Addr} {r : Ref} :
    r ∈ optionRefs role m ↔ m = some r.2 ∧ r.1 = role := by
  cases m with
  | none => simp [optionRefs]
  | some a =>
    obtain ⟨role', a'⟩ := r
    simp [optionRefs, eq_comm, and_comm]

theorem marks_marktableoption (s : State) (mt : Option Addr) : Marks s (s.marktableoption mt) := by
  cases mt with
  | none => exact Marks.refl s
  | some t => exact marks_marktable s t

theorem marked_marktableoption {mt : Option Addr} (h : ∀ r ∈ optionRefs .table mt, s.Fits r) :
    ∀ r ∈ optionRefs .table mt, (s.marktableoption mt).marked r.2 := by
  intro r hr
  obtain ⟨rfl, hrole⟩ := mem_optionRefs.mp hr
  have hfits := h r hr
  rw [show r = (.table, r.2) from Prod.ext hrole rfl] at hfits
  exact marked_marktable hfits

theorem marks_markudata (s : State) (mt : Option Addr) (env : Addr) :
    Marks s ((s.marktableoption mt).marktable env) :=
  (marks_marktableoption s mt).trans (marks_marktable _ env)

theorem marked_markudata {mt : Option Addr} {env : Addr}
    (h : ∀ r ∈ s.refs (.userdata mt env), s.Fits r) :
    ∀ r ∈ s.refs (.userdata mt env), ((s.marktableoption mt).marktable env).marked r.2 := by
  intro r hr
  rcases List.mem_append.mp hr with hr' | hr'
  · refine (marks_marktable _ env).marked (marked_marktableoption (fun r hr => ?_) r hr')
    exact h r (List.mem_append_left _ hr)
  · obtain rfl := List.mem_singleton.mp hr'
    exact marked_marktable ((h _ hr).congr (marks_marktableoption s mt).body)

theorem marks_reallymarkvalue (ht : s.Typed) (ho : ¬s.marked o) :
    Marks s (s.reallymarkvalue o) := by
  cases hb : s.body o with
  | none =>
    rw [reallymarkvalue, hb]
    exact Marks.refl s
  | some b =>
    cases b with
    | string bytes =>
      rw [reallymarkvalue, hb]
      refine Marks.after hb rfl ho rfl (Marks.refl _) rfl fun b' hb' r hr => ?_
      obtain rfl := Option.some.inj (hb.symm.trans hb')
      cases hr
    | userdata mt env =>
      rw [reallymarkvalue, hb]
      refine Marks.after hb rfl ho rfl (marks_markudata _ mt env) rfl fun b' hb' r hr => ?_
      rw [(marks_markudata _ mt env).body, setColor_body, hb] at hb'
      obtain rfl := Option.some.inj hb'
      rw [keptRefs_congr (marks_markudata _ mt env).body] at hr
      refine marked_markudata (fun r hr => ?_) r hr
      exact (ht o _ hb r hr).congr rfl
    | upval uv =>
      rw [reallymarkvalue, hb]
      exact Marks.refl s
    | function cl =>
      rw [reallymarkvalue, hb]
      exact marks_linkgray hb rfl ho
    | table h =>
      rw [reallymarkvalue, hb]
      exact marks_linkgray hb rfl ho
    | thread th =>
      rw [reallymarkvalue, hb]
      exact marks_linkgray hb rfl ho
    | proto p =>
      rw [reallymarkvalue, hb]
      exact marks_linkgray hb rfl ho

theorem marked_reallymarkvalue (hb : s.body o = some b) (hk : b.kind ≠ .upval) :
    (s.reallymarkvalue o).marked o := by
  have hself : ∀ {c : Color}, c.isWhite = false → (s.setColor o c).marked o := by
    intro c hc
    rw [State.marked, setColor_self]
    exact hc
  cases b with
  | string bytes =>
    rw [reallymarkvalue, hb]
    exact hself rfl
  | userdata mt env =>
    rw [reallymarkvalue, hb]
    exact (marks_markudata _ mt env).marked (hself rfl)
  | upval uv => exact absurd rfl hk
  | function cl | table h | thread th | proto p =>
    rw [reallymarkvalue, hb]
    exact hself rfl

theorem marks_markvalue (ht : s.Typed) (v : TValue) : Marks s (s.markvalue v) := by
  unfold markvalue
  split
  next o =>
    split
    next hw => exact marks_reallymarkvalue ht (iswhite_iff.mp hw)
    next => exact Marks.refl s
  next => exact Marks.refl s

theorem marked_markvalue (h : ∀ r ∈ v.refs, s.Fits r) :
    ∀ r ∈ v.refs, (s.markvalue v).marked r.2 := by
  intro r hr
  cases v with
  | object o =>
    obtain rfl := List.mem_singleton.mp hr
    obtain ⟨b, hb, hk⟩ := h _ hr
    rw [markvalue]
    split
    next => exact marked_reallymarkvalue hb hk
    next hw => exact Bool.eq_false_iff.mpr hw
  | nil | other => cases hr

theorem marks_reallymarkobject (ht : s.Typed) (ho : ¬s.marked o) :
    Marks s (s.reallymarkobject o) := by
  unfold reallymarkobject
  split
  next th level hb =>
    have ht' : (s.setColor o .gray).Typed := ht.congr rfl
    have hm := marks_markvalue ht' (s.value (.opened th level))
    refine Marks.after hb rfl ho rfl hm rfl fun b' hb' r hr => ?_
    rw [hm.body, setColor_body, hb] at hb'
    obtain rfl := Option.some.inj hb'
    rw [keptRefs_congr hm.body] at hr
    exact marked_markvalue (fun r hr => ht' o _ hb r hr) r hr
  next v hb =>
    have ht' : (s.setColor o .gray).Typed := ht.congr rfl
    have hm := marks_markvalue ht' v
    refine Marks.around hb rfl ho rfl hm rfl rfl fun b' hb' r hr => ?_
    rw [setColor_body, hm.body, setColor_body, hb] at hb'
    obtain rfl := Option.some.inj hb'
    have hr' : ((s.setColor o .gray).markvalue v).marked r.2 :=
      marked_markvalue (fun r hr => ht' o _ hb r hr) r hr
    by_cases hro : r.2 = o
    · rw [hro, State.marked, setColor_self]
      rfl
    · rwa [State.marked, setColor_of_ne hro]
  next => exact marks_reallymarkvalue ht ho

theorem marked_reallymarkobject (ht : s.Typed) (hb : s.body o = some b) :
    (s.reallymarkobject o).marked o := by
  unfold reallymarkobject
  split
  next th level hb' =>
    have ht' : (s.setColor o .gray).Typed := ht.congr rfl
    refine (marks_markvalue ht' _).marked ?_
    rw [State.marked, setColor_self]
    rfl
  next v hb' =>
    rw [State.marked, setColor_self]
    rfl
  next hopened hclosed =>
    refine marked_reallymarkvalue hb fun hk => ?_
    cases b with
    | upval uv =>
      cases uv with
      | opened th level => exact hopened th level hb
      | closed v => exact hclosed v hb
    | _ => cases hk

theorem marks_markobject (ht : s.Typed) (o : Addr) : Marks s (s.markobject o) := by
  unfold markobject
  split
  next hw => exact marks_reallymarkobject ht (iswhite_iff.mp hw)
  next => exact Marks.refl s

theorem marked_markobject (ht : s.Typed) (hb : s.body o = some b) : (s.markobject o).marked o := by
  unfold markobject
  split
  next => exact marked_reallymarkobject ht hb
  next hw => exact Bool.eq_false_iff.mpr hw

theorem marks_stringmark (s : State) (h : s.Fits (.string, o)) : Marks s (s.stringmark o) := by
  obtain ⟨b, hb, hk⟩ := h
  unfold stringmark
  split
  next hw =>
    cases b with
    | string bytes =>
      refine Marks.after hb rfl (iswhite_iff.mp hw) rfl (Marks.refl _) rfl fun b' hb' r hr => ?_
      obtain rfl := Option.some.inj (hb.symm.trans hb')
      cases hr
    | _ => exact absurd hk (by simp [Role.accepts, Body.kind])
  next => exact Marks.refl s

theorem marked_stringmark (s : State) (o : Addr) : (s.stringmark o).marked o := by
  unfold stringmark
  split
  next =>
    rw [State.marked, setColor_self]
    rfl
  next hw => exact Bool.eq_false_iff.mpr hw

/-! ### Traversals -/

theorem marks_markvalues (ht : s.Typed) (vs : List TValue) : Marks s (s.markvalues vs) :=
  marks_foldl fun _ hs' v _ => marks_markvalue (ht.congr hs'.body) v

theorem marked_markvalues {vs : List TValue} (ht : s.Typed)
    (h : ∀ r ∈ vs.flatMap TValue.refs, s.Fits r) :
    ∀ r ∈ vs.flatMap TValue.refs, (s.markvalues vs).marked r.2 := by
  intro r hr
  obtain ⟨v, hv, hrv⟩ := List.mem_flatMap.mp hr
  refine marked_foldl (fun _ hs' v _ => marks_markvalue (ht.congr hs'.body) v) hv fun s' hs' => ?_
  refine marked_markvalue (fun r' hr' => ?_) r hrv
  exact (h r' (List.mem_flatMap.mpr ⟨v, hv, hr'⟩)).congr hs'.body

theorem marks_markoption (ht : s.Typed) (m : Option Addr) : Marks s (s.markoption m) := by
  cases m with
  | none => exact Marks.refl s
  | some o => exact marks_markobject ht o

theorem marks_markoptions (ht : s.Typed) (ms : List (Option Addr)) :
    Marks s (ms.foldl markoption s) :=
  marks_foldl fun _ hs' m _ => marks_markoption (ht.congr hs'.body) m

theorem marked_markoptions {role : Role} {ms : List (Option Addr)} (ht : s.Typed)
    (h : ∀ r ∈ ms.flatMap (optionRefs role), s.Fits r) :
    ∀ r ∈ ms.flatMap (optionRefs role), (ms.foldl markoption s).marked r.2 := by
  intro r hr
  obtain ⟨m, hm, hrm⟩ := List.mem_flatMap.mp hr
  obtain ⟨b, hb, -⟩ := h r hr
  obtain ⟨rfl, -⟩ := mem_optionRefs.mp hrm
  refine marked_foldl (fun _ hs' m _ => marks_markoption (ht.congr hs'.body) m) hm fun s' hs' => ?_
  exact marked_markobject (ht.congr hs'.body) (b := b) (by rw [hs'.body, hb])

theorem marks_stringmarkoption {m : Option Addr}
    (h : ∀ r ∈ optionRefs .string m, s.Fits r) : Marks s (s.stringmarkoption m) := by
  cases m with
  | none => exact Marks.refl s
  | some o => exact marks_stringmark s (h (.string, o) (mem_optionRefs.mpr ⟨rfl, rfl⟩))

theorem marked_stringmarkoption {m : Option Addr} :
    ∀ r ∈ optionRefs .string m, (s.stringmarkoption m).marked r.2 := by
  intro r hr
  obtain ⟨rfl, -⟩ := mem_optionRefs.mp hr
  exact marked_stringmark s r.2

theorem marks_stringmarkoptions {ms : List (Option Addr)}
    (h : ∀ r ∈ ms.flatMap (optionRefs .string), s.Fits r) :
    Marks s (ms.foldl stringmarkoption s) :=
  marks_foldl fun _ hs' m hm => marks_stringmarkoption fun r hr =>
    (h r (List.mem_flatMap.mpr ⟨m, hm, hr⟩)).congr hs'.body

theorem marked_stringmarkoptions {ms : List (Option Addr)}
    (h : ∀ r ∈ ms.flatMap (optionRefs .string), s.Fits r) :
    ∀ r ∈ ms.flatMap (optionRefs .string), (ms.foldl stringmarkoption s).marked r.2 := by
  intro r hr
  obtain ⟨m, hm, hrm⟩ := List.mem_flatMap.mp hr
  refine marked_foldl (fun s' hs' m hm => ?_) hm fun s' _ => marked_stringmarkoption r hrm
  exact marks_stringmarkoption fun r hr => (h r (List.mem_flatMap.mpr ⟨m, hm, hr⟩)).congr hs'.body

/-- A traversal marks everything in a list of references and does nothing else. -/
def Traverses (s s' : State) (rs : List Ref) : Prop := Marks s s' ∧ ∀ r ∈ rs, s'.marked r.2

theorem Traverses.append {rs rs' : List Ref} (h : Traverses s s' rs)
    (h' : Traverses s' s'' rs') : Traverses s s'' (rs ++ rs') := by
  refine ⟨h.1.trans h'.1, fun r hr => ?_⟩
  rcases List.mem_append.mp hr with hr | hr
  · exact h'.1.marked (h.2 r hr)
  · exact h'.2 r hr

theorem traverses_closure (ht : s.Typed) (cl : Closure) (h : ∀ r ∈ cl.refs, s.Fits r) :
    Traverses s (s.traverseclosure cl) cl.refs := by
  cases cl with
  | c env upvalue =>
    have henv : Traverses s (s.marktable env) [(.table, env)] := by
      refine ⟨marks_marktable s env, fun r hr => ?_⟩
      obtain rfl := List.mem_singleton.mp hr
      exact marked_marktable (h _ List.mem_cons_self)
    have ht' := ht.congr henv.1.body
    refine henv.append ⟨marks_markvalues ht' upvalue, marked_markvalues ht' fun r hr => ?_⟩
    exact (h r (List.mem_cons_of_mem _ hr)).congr henv.1.body
  | lua env p upvals =>
    have henv : Traverses s (s.marktable env) [(.table, env)] := by
      refine ⟨marks_marktable s env, fun r hr => ?_⟩
      obtain rfl := List.mem_singleton.mp hr
      exact marked_marktable (h _ List.mem_cons_self)
    have ht₁ := ht.congr henv.1.body
    have hp : Traverses (s.marktable env) ((s.marktable env).markobject p) [(.proto, p)] := by
      refine ⟨marks_markobject ht₁ p, fun r hr => ?_⟩
      obtain rfl := List.mem_singleton.mp hr
      obtain ⟨b, hb, -⟩ := (h (.proto, p) (by simp [Closure.refs])).congr henv.1.body
      exact marked_markobject ht₁ hb
    have ht₂ := ht₁.congr hp.1.body
    refine henv.append (hp.append
      ⟨marks_foldl fun _ hs' o _ => marks_markobject (ht₂.congr hs'.body) o,
      fun r hr => ?_⟩)
    obtain ⟨o, ho, rfl⟩ := List.mem_map.mp hr
    obtain ⟨b, hb, -⟩ := ((h (.upval, o) (by simp [Closure.refs, ho])).congr
      henv.1.body).congr hp.1.body
    refine marked_foldl (fun _ hs' o _ => marks_markobject (ht₂.congr hs'.body) o) ho
      fun s' hs' => ?_
    exact marked_markobject (ht₂.congr hs'.body) (b := b) (by rw [hs'.body, hb])

theorem traverses_stack (ht : s.Typed) (th : Thread) (h : ∀ r ∈ th.refs, s.Fits r) :
    Traverses s (s.traversestack th) th.refs := by
  have hgt : Traverses s (s.markvalue th.gt) th.gt.refs :=
    ⟨marks_markvalue ht th.gt, marked_markvalue fun r hr => h r (List.mem_append_left _ hr)⟩
  have ht' := ht.congr hgt.1.body
  refine hgt.append ⟨marks_markvalues ht' th.stack, marked_markvalues ht' fun r hr => ?_⟩
  exact (h r (List.mem_append_right _ hr)).congr hgt.1.body

theorem traverses_proto (ht : s.Typed) (p : Proto) (h : ∀ r ∈ p.refs, s.Fits r) :
    Traverses s (s.traverseproto p) p.refs := by
  have hmem : ∀ {r : Ref}, r ∈ optionRefs .string p.source ∨ r ∈ p.k.flatMap TValue.refs ∨
      r ∈ p.upvalues.flatMap (optionRefs .string) ∨ r ∈ p.p.flatMap (optionRefs .proto) ∨
      r ∈ p.varnames.flatMap (optionRefs .string) → s.Fits r := by
    intro r hr
    refine h r ?_
    simp only [Proto.refs, List.mem_append]
    tauto
  have h₁ : Traverses s (s.stringmarkoption p.source) (optionRefs .string p.source) :=
    ⟨marks_stringmarkoption fun r hr => hmem (.inl hr), marked_stringmarkoption⟩
  have hb₁ := h₁.1.body
  have h₂ : Traverses _ _ (p.k.flatMap TValue.refs) :=
    ⟨marks_markvalues (ht.congr hb₁) p.k, marked_markvalues (ht.congr hb₁) fun r hr =>
      (hmem (.inr (.inl hr))).congr hb₁⟩
  have hb₂ := h₂.1.body.trans hb₁
  have hf₃ : ∀ r ∈ p.upvalues.flatMap (optionRefs .string), Fits _ r := fun r hr =>
    (hmem (.inr (.inr (.inl hr)))).congr hb₂
  have h₃ : Traverses _ _ (p.upvalues.flatMap (optionRefs .string)) :=
    ⟨marks_stringmarkoptions hf₃, marked_stringmarkoptions hf₃⟩
  have hb₃ := h₃.1.body.trans hb₂
  have h₄ : Traverses _ _ (p.p.flatMap (optionRefs .proto)) :=
    ⟨marks_markoptions (ht.congr hb₃) p.p, marked_markoptions (ht.congr hb₃) fun r hr =>
      (hmem (.inr (.inr (.inr (.inl hr))))).congr hb₃⟩
  have hb₄ := h₄.1.body.trans hb₃
  have hf₅ : ∀ r ∈ p.varnames.flatMap (optionRefs .string), Fits _ r := fun r hr =>
    (hmem (.inr (.inr (.inr (.inr hr))))).congr hb₄
  exact (((h₁.append h₂).append h₃).append h₄).append
    ⟨marks_stringmarkoptions hf₅, marked_stringmarkoptions hf₅⟩

end State
end JLua.Collector
