import JLua.Lib.FreeList
import JLua.Lib.Runs
import JLua.Registry
import JLua.Stack

/-!
# LuaObjects and the references they own

A `LuaObject` holds a reference into the registry from its construction to its finalization.
References that are given back form a free list in the registry itself, and are given out again.
-/

namespace JLua

open BinaryFloat FreeList TransitionRuns
set_option autoImplicit false

namespace Registry

/-- A key that `lua_objlen` may answer with. Each part of a table has room for `2 ^ 26` entries. -/
structure IsBorder (R : Registry) (n : Nat) : Prop where
  filled : n = 0 ∨ R.slot n ≠ .nil
  empty : R.slot (n + 1) = .nil
  fits : n < 2 ^ 27

def link (R : Registry) : Int → Int := toInteger ∘ R.slot

/-- Every reference given out so far is in use and filled, or on the free list. -/
structure Refs (R : Registry) (n : Nat) (free : List Int) : Prop where
  fits : n ≤ 2 ^ 27
  threads : Threads 0 R.link FREELIST_REF free
  nodup : free.Nodup
  given : ∀ r ∈ free, 1 ≤ r ∧ r ≤ n
  filled : ∀ i : Int, 1 ≤ i → i ≤ n → i ∉ free → R.slot i ≠ .nil
  beyond : ∀ i : Int, i < 0 ∨ n < i → R.slot i = .nil

def Used (n : Nat) (free : List Int) (i : Int) : Prop := 1 ≤ i ∧ i ≤ n ∧ i ∉ free

theorem toInteger_ofInt {i : Int} (hlo : -2 ^ 31 ≤ i) (hhi : i < 2 ^ 31) :
    toInteger (.number (.ofInt _ i)) = i := by
  have hexact : Number.Exact binary64 i :=
    Number.exact_of_natAbs_lt (by simp only [binary64]; omega) (by decide) (by decide)
  rw [toInteger, Number.toInt_ofInt hexact hlo (by omega)]

theorem link_rawSetI (R : Registry) (i : Int) (v : Value) :
    (R.rawSetI i v).link = Function.update R.link i (toInteger v) :=
  Function.comp_update ..

theorem slot_rawSetI_of_ne {R : Registry} {i j : Int} {v : Value} (h : i ≠ j) :
    (R.rawSetI i v).slot j = R.slot j := Function.update_of_ne h.symm ..

theorem slot_rawSetI_self (R : Registry) (i : Int) (v : Value) :
    (R.rawSetI i v).slot i = v := Function.update_self ..

section Refs
variable {R : Registry} {n : Nat} {free : List Int}

theorem refs_empty (R : Registry) (h : ∀ i, R.slot i = .nil) : Refs R 0 [] where
  fits := by decide
  threads := by simp [Threads, link, h, toInteger]
  nodup := List.nodup_nil
  given := by simp
  filled := by omega
  beyond := fun i _ => h i

theorem Refs.head_not_mem (h : Refs R n free) : FREELIST_REF ∉ free :=
  fun hmem => absurd (h.given _ hmem).1 (by decide)

/-- While the free list is empty, the registry has a single border. -/
theorem Refs.border_eq {b : Nat} (h : Refs R n []) (hb : R.IsBorder b) : b = n := by
  have hle : b ≤ n := by
    by_contra hlt
    rcases hb.filled with rfl | hfilled
    · omega
    · exact hfilled (h.beyond b (Or.inr (by omega)))
  by_contra hne
  exact h.filled (b + 1) (by omega) (by omega) (by simp) hb.empty

theorem Used.ne_freelist {i : Int} (h : Used n free i) : i ≠ FREELIST_REF := by
  have hlo := h.1
  simp only [FREELIST_REF]
  omega

/-- The next reference after all those given out so far. -/
theorem Refs.append {v : Value} (h : Refs R n []) (hn : n < 2 ^ 27) (hv : v ≠ .nil) :
    Refs (R.rawSetI (n + 1) v) (n + 1) [] where
  fits := hn
  threads := by
    rw [link_rawSetI]
    apply h.threads.congr
    intro k hk
    rw [List.mem_singleton.mp hk]
    apply Function.update_of_ne
    simp only [FREELIST_REF]
    omega
  nodup := List.nodup_nil
  given := by simp
  filled i hlo hhi hfree := by
    by_cases hi : (n : Int) + 1 = i
    · rw [← hi, slot_rawSetI_self]
      exact hv
    · rw [slot_rawSetI_of_ne hi]
      exact h.filled i hlo (by omega) hfree
  beyond i hi := by
    rw [slot_rawSetI_of_ne (by omega)]
    exact h.beyond i (by omega)

theorem slot_pop {r i : Int} (v : Value) (h0 : i ≠ FREELIST_REF) (hi : i ≠ r) :
    ((R.rawSetI FREELIST_REF (R.rawGetI r)).rawSetI r v).slot i = R.slot i := by
  rw [slot_rawSetI_of_ne hi.symm, slot_rawSetI_of_ne h0.symm]

/-- The first reference of the free list. -/
theorem Refs.pop {r : Int} {rest : List Int} {v : Value} (h : Refs R n (r :: rest))
    (hv : v ≠ .nil) :
    Refs ((R.rawSetI FREELIST_REF (R.rawGetI r)).rawSetI r v) n rest := by
  have hgiven := h.given r List.mem_cons_self
  have hnodup := List.nodup_cons.mp h.nodup
  have hlist : FREELIST_REF ∉ rest := fun hmem => h.head_not_mem (List.mem_cons_of_mem r hmem)
  have hne : FREELIST_REF ≠ r := fun heq => h.head_not_mem (heq ▸ List.mem_cons_self)
  refine ⟨h.fits, ?_, hnodup.2, fun s hs => h.given s (List.mem_cons_of_mem r hs), ?_, ?_⟩
  · rw [link_rawSetI, link_rawSetI]
    exact h.threads.pop hne hnodup.1 hlist
  · intro i hlo hhi hfree
    by_cases hi : r = i
    · rw [← hi, slot_rawSetI_self]
      exact hv
    · rw [slot_pop v (by simp only [FREELIST_REF]; omega) (Ne.symm hi)]
      apply h.filled i hlo hhi
      simp [Ne.symm hi, hfree]
  · intro i hi
    rw [slot_pop v (by simp only [FREELIST_REF]; omega) (by omega)]
    exact h.beyond i hi

theorem luaLRef_of_ne_nil {v : Value} (h : Refs R n free) (hb : R.IsBorder R.objlen)
    (hv : v ≠ .nil) :
    ∃ n' free', Refs (R.luaLRef v).2 n' free' ∧ Used n' free' (R.luaLRef v).1 ∧
      (R.luaLRef v).2.slot (R.luaLRef v).1 = v ∧
      ∀ i, Used n free i → Used n' free' i ∧ i ≠ (R.luaLRef v).1 ∧
        (R.luaLRef v).2.slot i = R.slot i := by
  cases free with
  | nil =>
    have hhead : toInteger (R.rawGetI FREELIST_REF) = 0 := h.threads
    have hborder : R.objlen = n := h.border_eq hb
    rw [luaLRef_of_empty hv hhead, hborder]
    refine ⟨n + 1, [], h.append (hborder ▸ hb.fits) hv, ⟨by omega, by omega, by simp⟩,
      slot_rawSetI_self .., ?_⟩
    intro i ⟨hlo, hhi, hfree⟩
    exact ⟨⟨hlo, by omega, hfree⟩, by omega, slot_rawSetI_of_ne (by omega)⟩
  | cons r rest =>
    obtain ⟨hhead, hr, _⟩ := id h.threads
    have hgiven := h.given r List.mem_cons_self
    rw [luaLRef_of_head hv hhead hr]
    refine ⟨n, rest, h.pop hv, ⟨hgiven.1, hgiven.2, (List.nodup_cons.mp h.nodup).1⟩,
      slot_rawSetI_self .., ?_⟩
    intro i hused
    have hi : i ≠ r := fun heq => hused.2.2 (heq ▸ List.mem_cons_self)
    exact ⟨⟨hused.1, hused.2.1, fun hmem => hused.2.2 (List.mem_cons_of_mem r hmem)⟩, hi,
      slot_pop v hused.ne_freelist hi⟩

/-- The value of a new reference: `nil` shares one that is never on the list. -/
def RefersTo (R : Registry) (n : Nat) (free : List Int) (ref : Int) (v : Value) : Prop :=
  (v = .nil ∧ ref = LUA_REFNIL) ∨ (v ≠ .nil ∧ Used n free ref ∧ R.slot ref = v)

/-- A reference from `luaL_ref` is none of those in use, which keep their values. -/
theorem luaLRef_spec (v : Value) (h : Refs R n free) (hb : R.IsBorder R.objlen) :
    ∃ n' free', Refs (R.luaLRef v).2 n' free' ∧
      RefersTo (R.luaLRef v).2 n' free' (R.luaLRef v).1 v ∧
      ∀ i, Used n free i → Used n' free' i ∧ i ≠ (R.luaLRef v).1 ∧
        (R.luaLRef v).2.slot i = R.slot i := by
  by_cases hv : v = .nil
  · have href : R.luaLRef v = (LUA_REFNIL, R) := if_pos hv
    rw [href]
    refine ⟨n, free, h, Or.inl ⟨hv, rfl⟩, fun i hi => ⟨hi, ?_, rfl⟩⟩
    have hlo := hi.1
    simp only [LUA_REFNIL]
    omega
  · obtain ⟨n', free', hrefs, hused, hslot, hkeep⟩ := luaLRef_of_ne_nil h hb hv
    exact ⟨n', free', hrefs, Or.inr ⟨hv, hused, hslot⟩, hkeep⟩

theorem luaLUnref_spec {r : Int} (h : Refs R n free) (hr : Used n free r) :
    Refs (R.luaLUnref r) n (r :: free) ∧
      ∀ i, Used n free i → i ≠ r → Used n (r :: free) i ∧ (R.luaLUnref r).slot i = R.slot i := by
  obtain ⟨hlo, hhi, hfree⟩ := hr
  have hfits := h.fits
  have hint : toInteger (.number (.ofInt _ r)) = r := toInteger_ofInt (by omega) (by omega)
  have hne : FREELIST_REF ≠ r := by simp only [FREELIST_REF]; omega
  have href : R.luaLUnref r = (R.rawSetI r (R.rawGetI FREELIST_REF)).rawSetI FREELIST_REF
      (.number (.ofInt _ r)) := if_pos (by omega)
  have hkeep : ∀ i, i ≠ FREELIST_REF → i ≠ r → (R.luaLUnref r).slot i = R.slot i := by
    intro i h0 hi
    rw [href, slot_rawSetI_of_ne h0.symm, slot_rawSetI_of_ne hi.symm]
  refine ⟨⟨h.fits, ?_, List.nodup_cons.mpr ⟨hfree, h.nodup⟩, ?_, ?_, ?_⟩, ?_⟩
  · rw [href, link_rawSetI, link_rawSetI, hint]
    exact h.threads.push (by omega) hne hfree h.head_not_mem
  · intro s hs
    rcases List.mem_cons.mp hs with rfl | hs
    · exact ⟨hlo, hhi⟩
    · exact h.given s hs
  · intro i hilo hihi hi
    obtain ⟨hir, hifree⟩ : i ≠ r ∧ i ∉ free := by simpa using hi
    rw [hkeep i (by simp only [FREELIST_REF]; omega) hir]
    exact h.filled i hilo hihi hifree
  · intro i hi
    rw [hkeep i (by simp only [FREELIST_REF]; omega) (by omega)]
    exact h.beyond i hi
  · intro i hused hi
    exact ⟨⟨hused.1, hused.2.1, by simp [hi, hused.2.2]⟩, hkeep i hused.ne_freelist hi⟩

/-- What `luaL_ref` relies on, with the border at the last reference given out so far. -/
structure Sound (R : Registry) (free : List Int) : Prop where
  threads : Threads 0 R.link FREELIST_REF free
  nodup : free.Nodup
  given : ∀ r ∈ free, 1 ≤ r ∧ r ≤ R.objlen
  shared : R.rawGetI LUA_REFNIL = .nil

theorem Refs.sound (h : Refs R n free) (hn : R.objlen = n) : Sound R free :=
  ⟨h.threads, h.nodup, hn ▸ h.given, h.beyond _ (Or.inl (by decide))⟩

def Held (R : Registry) (free : List Int) (ref : Int) : Prop :=
  ref = LUA_REFNIL ∨ Used R.objlen free ref

theorem objlen_rawSetI_of_le {i : Int} {v : Value} (h : i ≤ R.objlen) :
    (R.rawSetI i v).objlen = R.objlen := by
  simp only [rawSetI]
  rw [if_neg]
  rintro ⟨hi, _⟩
  omega

theorem Held.ne_freelist {i : Int} (h : Held R free i) : i ≠ FREELIST_REF := by
  rcases h with rfl | hused
  · decide
  · exact hused.ne_freelist

theorem Sound.append {v : Value} (h : Sound R []) (hv : v ≠ .nil) :
    Sound (R.rawSetI (R.objlen + 1) v) [] ∧ (R.rawSetI (R.objlen + 1) v).objlen = R.objlen + 1 := by
  refine ⟨⟨?_, List.nodup_nil, by simp, ?_⟩, ?_⟩
  · rw [link_rawSetI]
    apply h.threads.congr
    intro k hk
    rw [List.mem_singleton.mp hk]
    apply Function.update_of_ne
    simp only [FREELIST_REF]
    omega
  · rw [rawGetI, slot_rawSetI_of_ne (by simp only [LUA_REFNIL]; omega)]
    exact h.shared
  · simp [rawSetI, hv]

theorem Sound.pop {r : Int} {rest : List Int} (v : Value) (h : Sound R (r :: rest)) :
    Sound ((R.rawSetI FREELIST_REF (R.rawGetI r)).rawSetI r v) rest ∧
      ((R.rawSetI FREELIST_REF (R.rawGetI r)).rawSetI r v).objlen = R.objlen := by
  have hgiven := h.given r List.mem_cons_self
  have hnodup := List.nodup_cons.mp h.nodup
  have hlist : ∀ s ∈ r :: rest, FREELIST_REF ≠ s := by
    rintro s hs rfl
    exact absurd (h.given _ hs).1 (by decide)
  have hne : FREELIST_REF ≠ r := hlist r List.mem_cons_self
  have hlen : ((R.rawSetI FREELIST_REF (R.rawGetI r)).rawSetI r v).objlen = R.objlen := by
    have hfirst : (R.rawSetI FREELIST_REF (R.rawGetI r)).objlen = R.objlen :=
      objlen_rawSetI_of_le (by simp only [FREELIST_REF]; omega)
    rw [objlen_rawSetI_of_le (hfirst ▸ hgiven.2), hfirst]
  refine ⟨⟨?_, hnodup.2, ?_, ?_⟩, hlen⟩
  · rw [link_rawSetI, link_rawSetI]
    apply h.threads.pop hne hnodup.1
    exact fun hmem => hlist _ (List.mem_cons_of_mem r hmem) rfl
  · rw [hlen]
    exact fun s hs => h.given s (List.mem_cons_of_mem r hs)
  · rw [rawGetI, slot_pop v (by decide) (by simp only [LUA_REFNIL]; omega)]
    exact h.shared

/-- A new reference holds its value, and those held keep theirs. -/
theorem Sound.luaLRef (h : Sound R free) (v : Value) :
    ∃ free', Sound (R.luaLRef v).2 free' ∧ Held (R.luaLRef v).2 free' (R.luaLRef v).1 ∧
      (R.luaLRef v).2.rawGetI (R.luaLRef v).1 = v ∧
      ∀ i, Held R free i →
        Held (R.luaLRef v).2 free' i ∧ (R.luaLRef v).2.rawGetI i = R.rawGetI i := by
  by_cases hv : v = .nil
  · have href : R.luaLRef v = (LUA_REFNIL, R) := if_pos hv
    rw [href, hv]
    exact ⟨free, h, Or.inl rfl, h.shared, fun i hi => ⟨hi, rfl⟩⟩
  · have hvalue := R.rawGetI_luaLRef hv
    cases free with
    | nil =>
      have hhead : toInteger (R.rawGetI FREELIST_REF) = 0 := h.threads
      rw [luaLRef_of_empty hv hhead] at hvalue ⊢
      obtain ⟨hsound, hlen⟩ := h.append hv
      refine ⟨[], hsound, Or.inr ⟨by omega, by rw [hlen]; omega, by simp⟩, hvalue, ?_⟩
      rintro i (rfl | ⟨hlo, hhi, hfree⟩)
      · refine ⟨Or.inl rfl, slot_rawSetI_of_ne ?_⟩
        simp only [LUA_REFNIL]
        omega
      · exact ⟨Or.inr ⟨hlo, by rw [hlen]; omega, hfree⟩, slot_rawSetI_of_ne (by omega)⟩
    | cons r rest =>
      obtain ⟨hhead, hr, _⟩ := id h.threads
      have hgiven := h.given r List.mem_cons_self
      rw [luaLRef_of_head hv hhead hr] at hvalue ⊢
      obtain ⟨hsound, hlen⟩ := h.pop v
      have hnew : Used R.objlen rest r := ⟨hgiven.1, hgiven.2, (List.nodup_cons.mp h.nodup).1⟩
      refine ⟨rest, hsound, Or.inr (by rw [hlen]; exact hnew), hvalue, ?_⟩
      intro i hheld
      have hkeep : i ≠ r := by
        rintro rfl
        rcases hheld with rfl | hused
        · exact absurd hgiven.1 (by decide)
        · exact hused.2.2 List.mem_cons_self
      refine ⟨?_, slot_pop v hheld.ne_freelist hkeep⟩
      rcases hheld with rfl | ⟨hlo, hhi, hfree⟩
      · exact Or.inl rfl
      · refine Or.inr ⟨hlo, by rw [hlen]; exact hhi, ?_⟩
        exact fun hmem => hfree (List.mem_cons_of_mem r hmem)

end Refs
end Registry

namespace References

/-- A `LuaObject`; `ref` is `null` if its constructor has thrown. `value` is history: what the
reference was made for. -/
structure LuaObject where
  ref : Option Int
  value : Value
  finalized : Bool
  deriving DecidableEq

structure World where
  stack : Stack
  registry : Registry
  objects : List LuaObject

/-- `Lref`: the value on top becomes a reference. `border` is what `lua_objlen` finds. -/
def lref (w : World) (border : Nat) : Int × World :=
  let (ref, registry) :=
    { w.registry with objlen := border }.luaLRef ((index2adr w.stack (-1)).getD .nil)
  (ref, { w with stack := luaPop w.stack 1, registry := registry })

def registerValue (w : World) (index : Int) (border : Nat) : World :=
  let (key, w') := lref { w with stack := luaPushvalue w.stack index } border
  { w' with
    objects := w'.objects ++ [⟨some key, (index2adr w.stack index).getD .nil, false⟩] }

/-- `LuaObject(L, globalName)` of a global that holds `v`. -/
def fromGlobal (w : World) (v : Value) (border : Nat) : World :=
  let w' := registerValue { w with stack := w.stack ++ [v] } (-1) border
  { w' with stack := luaPop w'.stack 1 }

def fromIndex (w : World) (index : Int) (border : Nat) : World := registerValue w index border

def denoted (w : World) (ref : Int) : Value := w.registry.rawGetI ref

def push (w : World) (ref : Int) : World := { w with stack := w.stack ++ [denoted w ref] }

/-- The key of the constructors with a parent: a string or a number, or another `LuaObject`. -/
inductive Key where
  | value (v : Value)
  | object (ref : Int)

def pushKey (w : World) : Key → World
  | .value v => { w with stack := w.stack ++ [v] }
  | .object ref => push w ref

/-- `LuaObject(parent, name)`, where `getTable` finds `v`. -/
def fromParent (w : World) (parent : Int) (name : Key) (v : Value) (border : Nat) : World :=
  match (denoted w parent).type with
  | .table | .userdata | .lightuserdata =>
    let w₁ := pushKey (push w parent) name
    let w₂ := { w₁ with stack := w₁.stack.dropLast ++ [v] }
    let w₃ := registerValue { w₂ with stack := luaRemove w₂.stack (-2) } (-1) border
    { w₃ with stack := luaPop w₃.stack 1 }
  | _ => { w with objects := w.objects ++ [⟨none, .nil, false⟩] }

/-- A reference that is `null` makes `finalize` throw before it calls `LunRef`. -/
def finalize (w : World) (o : Nat) : World :=
  match w.objects[o]? with
  | some ⟨some ref, value, _⟩ =>
    { w with
      registry := w.registry.luaLUnref ref
      objects := w.objects.set o ⟨some ref, value, true⟩ }
  | some ⟨none, value, _⟩ => { w with objects := w.objects.set o ⟨none, value, true⟩ }
  | none => w

/-- `lua` is whatever else happens on the stack. What a metamethod does while a constructor runs
are the actions before it. -/
inductive Action where
  | fromGlobal (v : Value)
  | fromIndex (index : Int)
  | fromParent (parent : Nat) (name : Key) (v : Value)
  | push (o : Nat)
  | finalize (o : Nat)
  | lua (stack : Stack)

def Live (w : World) (o : Nat) (ref : Int) (v : Value) : Prop :=
  w.objects[o]? = some ⟨some ref, v, false⟩

instance (w : World) (o : Nat) (ref : Int) (v : Value) : Decidable (Live w o ref v) :=
  inferInstanceAs (Decidable (_ = _))

/-- An object is only used while it is alive, and finalized once. -/
inductive Step : World → Action → World → Prop where
  | fromGlobal {w : World} {v : Value} {border : Nat} (hb : w.registry.IsBorder border) :
      Step w (.fromGlobal v) (fromGlobal w v border)
  | fromIndex {w : World} {index : Int} {border : Nat} (hb : w.registry.IsBorder border) :
      Step w (.fromIndex index) (fromIndex w index border)
  | fromParent {w : World} {parent : Nat} {ref : Int} {name : Key} {p v : Value} {border : Nat}
      (hparent : Live w parent ref p) (hname : ∀ k, name = .object k → ∃ o u, Live w o k u)
      (hb : w.registry.IsBorder border) :
      Step w (.fromParent parent name v) (fromParent w ref name v border)
  | push {w : World} {o : Nat} {ref : Int} {v : Value} (ho : Live w o ref v) :
      Step w (.push o) (push w ref)
  | finalize {w : World} {o : Nat} {object : LuaObject} (ho : w.objects[o]? = some object)
      (once : object.finalized = false) : Step w (.finalize o) (finalize w o)
  | lua {w : World} (stack : Stack) : Step w (.lua stack) { w with stack := stack }

/-- Every live object pushes the value it was made for, and owns its reference alone unless that
value is nil. -/
structure Owned (w : World) : Prop where
  pushes : ∀ o ref v, Live w o ref v → (push w ref).stack = w.stack ++ [v]
  alone : ∀ o o' ref v v', Live w o ref v → Live w o' ref v' → v ≠ .nil → v' ≠ .nil → o = o'

def init : World := ⟨[], ⟨fun _ => .nil, 0⟩, []⟩

structure Owners (w : World) (n : Nat) (free : List Int) : Prop where
  holds : ∀ o ref v, Live w o ref v → w.registry.RefersTo n free ref v
  alone : ∀ o o' ref v v', Live w o ref v → Live w o' ref v' → v ≠ .nil → o = o'

def Inv (w : World) : Prop := ∃ n free, w.registry.Refs n free ∧ Owners w n free

theorem Inv.owned {w : World} (h : Inv w) : Owned w := by
  obtain ⟨n, free, hrefs, howners⟩ := h
  refine ⟨fun o ref v hlive => ?_, fun o o' ref v v' ho ho' hv _ =>
    howners.alone o o' ref v v' ho ho' hv⟩
  suffices denoted w ref = v by rw [push, this]
  rcases howners.holds o ref v hlive with ⟨rfl, rfl⟩ | ⟨_, _, hslot⟩
  · exact hrefs.beyond _ (Or.inl (by decide))
  · exact hslot

theorem Inv.congr {w w' : World} (h : Inv w) (hr : w'.registry = w.registry)
    (ho : w'.objects = w.objects) : Inv w' := by
  obtain ⟨n, free, hrefs, howners⟩ := h
  refine ⟨n, free, hr ▸ hrefs, ?_, ?_⟩
  · intro o ref v hlive
    rw [Live, ho] at hlive
    rw [hr]
    exact howners.holds o ref v hlive
  · intro o o' ref v v' hlive hlive'
    rw [Live, ho] at hlive hlive'
    exact howners.alone o o' ref v v' hlive hlive'

theorem inv_init : Inv init := by
  refine ⟨0, [], Registry.refs_empty _ fun _ => rfl, ?_, ?_⟩
  · intro o ref v h
    simp [Live, init] at h
  · intro o o' ref v v' h
    simp [Live, init] at h

/-- What a constructor that reaches `registerValue` does to the registry and the objects. -/
structure Registers (w : World) (v : Value) (border : Nat) (w' : World) : Prop where
  registry : w'.registry = ({ w.registry with objlen := border }.luaLRef v).2
  objects : w'.objects =
    w.objects ++ [⟨some ({ w.registry with objlen := border }.luaLRef v).1, v, false⟩]

theorem registers_registerValue (w : World) (index : Int) (border : Nat) :
    Registers w ((index2adr w.stack index).getD .nil) border (registerValue w index border) := by
  constructor <;> simp [registerValue, lref, luaPushvalue, index2adr_top]

theorem live_snoc {w w' : World} {x : LuaObject} (h : w'.objects = w.objects ++ [x]) {o : Nat}
    {ref : Int} {v : Value} (hlive : Live w' o ref v) :
    Live w o ref v ∨ (o = w.objects.length ∧ x = ⟨some ref, v, false⟩) := by
  rw [Live, h, List.getElem?_append] at hlive
  split at hlive
  · exact Or.inl hlive
  · rename_i hlt
    have ho : o - w.objects.length = 0 := by
      by_contra hne
      simp [hne] at hlive
    refine Or.inr ⟨by omega, ?_⟩
    simpa [ho] using hlive

/-- The reference of a value that is not nil belongs to no other live object. -/
theorem Registers.inv {w w' : World} {v : Value} {border : Nat} (h : Registers w v border w')
    (hw : Inv w) (hb : w.registry.IsBorder border) : Inv w' := by
  obtain ⟨n, free, hrefs, howners⟩ := hw
  have hrefs' : Registry.Refs { w.registry with objlen := border } n free :=
    ⟨hrefs.fits, hrefs.threads, hrefs.nodup, hrefs.given, hrefs.filled, hrefs.beyond⟩
  obtain ⟨n', free', hnew, hrefers, hkeep⟩ :=
    Registry.luaLRef_spec v hrefs' ⟨hb.filled, hb.empty, hb.fits⟩
  rw [← h.registry] at hnew hrefers hkeep
  have hobjects := h.objects
  generalize ({ w.registry with objlen := border }.luaLRef v).1 = key at hrefers hkeep hobjects
  have holds : ∀ o ref u, Live w o ref u →
      w'.registry.RefersTo n' free' ref u ∧ (u ≠ .nil → ref ≠ key) := by
    intro o ref u hlive
    rcases howners.holds o ref u hlive with ⟨hu, href⟩ | ⟨hu, hused, hslot⟩
    · exact ⟨Or.inl ⟨hu, href⟩, fun hne => absurd hu hne⟩
    · obtain ⟨hused', hne, hsame⟩ := hkeep ref hused
      exact ⟨Or.inr ⟨hu, hused', hsame.trans hslot⟩, fun _ => hne⟩
  refine ⟨n', free', hnew, ?_, ?_⟩
  · intro o ref u hlive
    rcases live_snoc hobjects hlive with hold | ⟨_, hobject⟩
    · exact (holds o ref u hold).1
    · obtain ⟨rfl, rfl⟩ : key = ref ∧ v = u := by simpa using hobject
      exact hrefers
  · intro o o' ref u u' ho ho' hu
    rcases live_snoc hobjects ho with hold | ⟨rfl, hobject⟩
    · rcases live_snoc hobjects ho' with hold' | ⟨_, hobject'⟩
      · exact howners.alone o o' ref u u' hold hold' hu
      · obtain ⟨rfl, rfl⟩ : key = ref ∧ v = u' := by simpa using hobject'
        exact absurd rfl ((holds o key u hold).2 hu)
    · obtain ⟨rfl, rfl⟩ : key = ref ∧ v = u := by simpa using hobject
      rcases live_snoc hobjects ho' with hold' | ⟨ho', _⟩
      · -- an older object with the new reference denotes nil, so its reference is another one
        rcases howners.holds o' key u' hold' with ⟨_, hnil⟩ | ⟨hu', hused, _⟩
        · rcases hrefers with ⟨hvnil, _⟩ | ⟨_, hused, _⟩
          · exact absurd hvnil hu
          · exact absurd hused.1 (by rw [hnil]; decide)
        · exact absurd rfl (hkeep key hused).2.1
      · exact ho'.symm

theorem registers_fromGlobal (w : World) (v : Value) (border : Nat) :
    Registers w v border (fromGlobal w v border) := by
  have h := registers_registerValue { w with stack := w.stack ++ [v] } (-1) border
  rw [index2adr_top, Option.getD_some] at h
  exact ⟨h.registry, h.objects⟩

theorem pushKey_spec (w : World) (name : Key) :
    ∃ k, pushKey w name = { w with stack := w.stack ++ [k] } := by
  cases name with
  | value k => exact ⟨k, rfl⟩
  | object ref => exact ⟨denoted w ref, rfl⟩

/-- A constructor with a parent registers what the field holds, or throws. -/
theorem fromParent_cases (w : World) (parent : Int) (name : Key) (v : Value) (border : Nat) :
    Registers w v border (fromParent w parent name v border) ∨
      fromParent w parent name v border =
        { w with objects := w.objects ++ [⟨none, .nil, false⟩] } := by
  obtain ⟨k, hk⟩ := pushKey_spec (push w parent) name
  have hstack : luaRemove (((push w parent).stack ++ [k]).dropLast ++ [v]) (-2) =
      w.stack ++ [v] := by
    rw [List.dropLast_concat, push, List.append_assoc]
    exact luaRemove_second _ _ _
  have h := registers_registerValue { push w parent with stack := w.stack ++ [v] } (-1) border
  rw [index2adr_top, Option.getD_some] at h
  unfold fromParent
  split
  · rw [hk]
    dsimp only
    rw [hstack]
    exact Or.inl ⟨h.registry, h.objects⟩
  · rw [hk]
    dsimp only
    rw [hstack]
    exact Or.inl ⟨h.registry, h.objects⟩
  · rw [hk]
    dsimp only
    rw [hstack]
    exact Or.inl ⟨h.registry, h.objects⟩
  · exact Or.inr rfl

theorem inv_failed {w : World} (hw : Inv w) :
    Inv { w with objects := w.objects ++ [⟨none, .nil, false⟩] } := by
  obtain ⟨n, free, hrefs, howners⟩ := hw
  have hold : ∀ o ref v, Live { w with objects := w.objects ++ [⟨none, .nil, false⟩] } o ref v →
      Live w o ref v := by
    intro o ref v hlive
    rcases live_snoc rfl hlive with hold | ⟨_, hnew⟩
    · exact hold
    · simp at hnew
  refine ⟨n, free, hrefs, ?_, ?_⟩
  · exact fun o ref v hlive => howners.holds o ref v (hold o ref v hlive)
  · exact fun o o' ref v v' ho ho' => howners.alone o o' ref v v' (hold _ _ _ ho) (hold _ _ _ ho')

theorem live_set {w w' : World} {o o' : Nat} {ref : Option Int} {ref' : Int} {v v' : Value}
    (h : w'.objects = w.objects.set o ⟨ref, v, true⟩) (hlive : Live w' o' ref' v') :
    o' ≠ o ∧ Live w o' ref' v' := by
  rw [Live, h, List.getElem?_set] at hlive
  split at hlive
  · split at hlive <;> simp at hlive
  · rename_i hne
    exact ⟨Ne.symm hne, hlive⟩

/-- A finalizer gives back at most the reference of its own object. -/
theorem finalize_spec {w : World} {o : Nat} {object : LuaObject} (hw : Inv w)
    (ho : w.objects[o]? = some object) (once : object.finalized = false) :
    Inv (finalize w o) ∧ ∀ o' ref v, o' ≠ o → Live w o' ref v →
      denoted (finalize w o) ref = denoted w ref := by
  obtain ⟨n, free, hrefs, howners⟩ := hw
  obtain ⟨ref, v, finalized⟩ := object
  obtain rfl : finalized = false := once
  cases ref with
  | none =>
    have hf : finalize w o = { w with objects := w.objects.set o ⟨none, v, true⟩ } := by
      simp [finalize, ho]
    rw [hf]
    refine ⟨⟨n, free, hrefs, ?_, ?_⟩, fun o' ref' v' _ _ => rfl⟩
    · exact fun o' ref' v' hlive => howners.holds o' ref' v' (live_set rfl hlive).2
    · exact fun a b ref' u u' ha hb =>
        howners.alone a b ref' u u' (live_set rfl ha).2 (live_set rfl hb).2
  | some ref =>
    have hf : finalize w o =
        ⟨w.stack, w.registry.luaLUnref ref, w.objects.set o ⟨some ref, v, true⟩⟩ := by
      simp [finalize, ho]
    rw [hf]
    have alone : ∀ a b ref' u u', Live ⟨w.stack, w.registry.luaLUnref ref,
        w.objects.set o ⟨some ref, v, true⟩⟩ a ref' u → Live ⟨w.stack, w.registry.luaLUnref ref,
        w.objects.set o ⟨some ref, v, true⟩⟩ b ref' u' → u ≠ .nil → a = b :=
      fun a b ref' u u' ha hb =>
        howners.alone a b ref' u u' (live_set rfl ha).2 (live_set rfl hb).2
    rcases howners.holds o ref v ho with ⟨_, rfl⟩ | ⟨hv, hused, _⟩
    · -- the reference that stands for nil is not given back
      refine ⟨⟨n, free, hrefs, ?_, alone⟩, fun o' ref' v' _ _ => rfl⟩
      exact fun o' ref' v' hlive => howners.holds o' ref' v' (live_set rfl hlive).2
    · obtain ⟨hrefs', hkeep⟩ := Registry.luaLUnref_spec hrefs hused
      have hothers : ∀ o' ref' v', o' ≠ o → Live w o' ref' v' → v' ≠ .nil → ref' ≠ ref := by
        rintro o' ref' v' hne hlive hv' rfl
        exact hne (howners.alone o' o ref' v' v hlive ho hv')
      refine ⟨⟨n, ref :: free, hrefs', ?_, alone⟩, ?_⟩
      · intro o' ref' v' hlive
        obtain ⟨hne, hold⟩ := live_set rfl hlive
        rcases howners.holds o' ref' v' hold with hnil | ⟨hv', hused', hslot⟩
        · exact Or.inl hnil
        · obtain ⟨hused'', hsame⟩ := hkeep ref' hused' (hothers o' ref' v' hne hold hv')
          exact Or.inr ⟨hv', hused'', hsame.trans hslot⟩
      · intro o' ref' v' hne hlive
        rcases howners.holds o' ref' v' hlive with ⟨_, rfl⟩ | ⟨hv', hused', _⟩
        · exact (hrefs'.beyond _ (Or.inl (by decide))).trans
            (hrefs.beyond _ (Or.inl (by decide))).symm
        · exact (hkeep ref' hused' (hothers o' ref' v' hne hlive hv')).2

theorem inv_step {w w' : World} {a : Action} (hw : Inv w) (h : Step w a w') : Inv w' := by
  cases h with
  | fromGlobal hb => exact (registers_fromGlobal ..).inv hw hb
  | fromIndex hb => exact (registers_registerValue ..).inv hw hb
  | fromParent _ _ hb =>
    rcases fromParent_cases .. with h | h
    · exact h.inv hw hb
    · exact h ▸ inv_failed hw
  | push => exact hw.congr rfl rfl
  | finalize ho once => exact (finalize_spec hw ho once).1
  | lua => exact hw.congr rfl rfl

/-- A finalizer leaves alone what any other live object denotes. -/
def Harmless (w : World) : Action → Prop
  | .finalize o => ∀ o' ref v, o' ≠ o → Live w o' ref v →
    denoted (finalize w o) ref = denoted w ref
  | _ => True

theorem harmless_step {w w' : World} {a : Action} (hw : Inv w) (h : Step w a w') :
    Harmless w a := by
  cases h with
  | finalize ho once => exact (finalize_spec hw ho once).2
  | _ => trivial

/-- In every run each live object owns its reference and denotes the value that it was made for,
and no finalizer changes what another object denotes. -/
theorem references_owned {log : List (World × Action)} {w : World} (run : Run Step init log w) :
    Visits Owned log w ∧ Meets Harmless log := by
  have hall : Meets (fun _ _ => True) log := by simp [Meets]
  constructor
  · have hv := run.visits_of_meets (P := Inv) inv_init (fun _ _ _ hw _ => inv_step hw) hall
    exact hv.imp fun w hw => hw.owned
  · exact run.meets_of_step inv_init (fun _ _ _ => inv_step)
      (fun _ _ _ hw _ => harmless_step hw) hall

theorem references_owned_reused :
    ∃ log w, Run Step init log w ∧
      log.map Prod.snd = [.fromGlobal (.table 0), .fromGlobal (.table 1), .finalize 0,
        .fromGlobal (.table 2)] ∧
      Live w 1 2 (.table 1) ∧ Live w 2 1 (.table 2) ∧ Visits Owned log w ∧ Meets Harmless log := by
  have run₁ : Run Step init _ _ := .next .start (.fromGlobal (v := .table 0)
    (show Registry.IsBorder _ 0 from ⟨Or.inl rfl, rfl, by decide⟩))
  have run₂ := run₁.next (.fromGlobal (v := .table 1)
    (show Registry.IsBorder _ 1 from ⟨Or.inr (by decide), by decide, by decide⟩))
  have run₃ := run₂.next (.finalize (o := 0) rfl rfl)
  have run₄ := run₃.next (.fromGlobal (v := .table 2)
    (show Registry.IsBorder _ 2 from ⟨Or.inr (by decide), by decide, by decide⟩))
  exact ⟨_, _, run₄, rfl, by decide, by decide, references_owned run₄⟩

end References
end JLua
