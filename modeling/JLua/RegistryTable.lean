import JLua.Borders
import JLua.References

/-!
# The table behind the registry

The registry is a table like any other: references are integer keys of it, next to all other keys
that are kept there. Over the real table a reference keeps its value until it is given back.
-/

namespace JLua.Tables.Table

open BinaryFloat TransitionRuns
set_option autoImplicit false

/-! ### Integer keys -/

/-- `lua_rawgeti`. -/
def rawgeti (t : Table) (n : Int) : Value := (t.luaHGetnum n).elim .nil t.read

/-- `lua_rawseti`. -/
def rawseti (t : Table) (n : Int) (v : Value) : Except String Table := do
  let (t, s) ← t.luaHSetnum n
  return t.write v s

/-- `luaL_ref`. -/
def luaLRef (t : Table) (v : Value) : Except String (Int × Table) :=
  if v = .nil then .ok (Registry.LUA_REFNIL, t)
  else
    let ref := Registry.toInteger (t.rawgeti Registry.FREELIST_REF)
    if ref ≠ 0 then do
      let t ← t.rawseti Registry.FREELIST_REF (t.rawgeti ref)
      let t ← t.rawseti ref v
      return (ref, t)
    else do
      let ref : Int := t.luaHGetn + 1
      let t ← t.rawseti ref v
      return (ref, t)

/-- `luaL_unref`. -/
def luaLUnref (t : Table) (ref : Int) : Except String Table :=
  if 0 ≤ ref then do
    let t ← t.rawseti ref (t.rawgeti Registry.FREELIST_REF)
    t.rawseti Registry.FREELIST_REF (num ref)
  else return t

variable {t t' : Table} {i r : Int} {v : Value} {n : Nat} {free : List Int}

/-- The integers of C. -/
def IsInt (i : Int) : Prop := -2 ^ 31 ≤ i ∧ i < 2 ^ 31

instance (i : Int) : Decidable (IsInt i) := by unfold IsInt; infer_instance

theorem rawgeti_eq (hi : IsInt i) : t.rawgeti i = t.get (num i) := by
  rw [rawgeti, luaHGetnum_eq hi.1 hi.2]
  rfl

theorem rawseti_eq (hi : IsInt i) : t.rawseti i v = t.rawset (num i) v := by
  rw [rawseti, luaHSetnum_eq t hi.1 hi.2]
  rfl

/-- The integer keys of a table as a registry. -/
def toRegistry (t : Table) : Registry where
  slot i := if IsInt i then t.get (num i) else .nil
  objlen := t.luaHGetn

theorem slot_toRegistry (hi : IsInt i) : t.toRegistry.slot i = t.get (num i) := if_pos hi

theorem rawset_assigned (h : Represents t t.get) {key : Value} (hok : t.rawset key v = .ok t') :
    Represents t' (assign t.get key v) :=
  (Step.rawset hok).represents h

theorem slot_of_rawseti (h : Represents t t.get) (hi : IsInt i) (hok : t.rawseti i v = .ok t') :
    Represents t' t'.get ∧ t'.toRegistry.slot = Function.update t.toRegistry.slot i v := by
  rw [rawseti_eq hi] at hok
  have hrep := rawset_assigned h hok
  refine ⟨⟨hrep.wellFormed, hrep.free, rfl⟩, funext fun j => ?_⟩
  by_cases hj : IsInt j
  · rw [slot_toRegistry hj, hrep.get, assign]
    by_cases hij : i = j
    · rw [if_pos ((rawEqual_num hi hj).mpr hij), hij, Function.update_self]
    · rw [if_neg (mt (rawEqual_num hi hj).mp hij), Function.update_of_ne (Ne.symm hij),
        slot_toRegistry hj]
  · have hij : j ≠ i := fun heq => hj (heq ▸ hi)
    rw [Function.update_of_ne hij]
    simp [toRegistry, hj]

theorem refs_of_slot {R R' : Registry} (h : Registry.Refs R n free) (heq : R'.slot = R.slot) :
    Registry.Refs R' n free := by
  cases R
  cases R'
  cases heq
  exact ⟨h.fits, h.threads, h.nodup, h.given, h.filled, h.beyond⟩

/-! ### References in the table -/

/-- The integer keys are references as far as `n`, used or free. -/
structure Kept (t : Table) (n : Nat) (free : List Int) : Prop where
  represents : Represents t t.get
  refs : Registry.Refs t.toRegistry n free

/-- A reference in use. -/
theorem isInt_of_used (h : Registry.Refs t.toRegistry n free) (hr : Registry.Used n free r) :
    IsInt r := by
  have := h.fits
  exact ⟨by have := hr.1; omega, by have := hr.2.1; omega⟩

/-- While no reference is free, the length of the table is the number of references. -/
theorem Kept.length_eq (h : Kept t n []) : t.luaHGetn = n := by
  have hborder := luaHGetn_isBorder h.represents.wellFormed
  have hle := luaHGetn_le h.represents.wellFormed
  have hfits := h.refs.fits
  have hget : ∀ m : Nat, m < 2 ^ 31 → t.getnum m = t.toRegistry.slot m := by
    intro m hm
    rw [getnum_eq hm, slot_toRegistry ⟨by omega, by omega⟩]
  simp only [MAX_INT] at hle
  have hlen : t.luaHGetn ≤ n := by
    by_contra hgt
    rcases hborder.filled with h0 | hfilled
    · omega
    · exact hfilled ((hget _ (by omega)).trans (h.refs.beyond _ (.inr (by omega))))
  by_contra hne
  have hempty := hborder.empty
  rw [hget _ (by omega)] at hempty
  exact h.refs.filled _ (by omega) (by push_cast; omega) (by simp) hempty

/-- There is no reference that the table had no slot for. -/
theorem lt_of_filled (h : Represents t t.get) (hn : n ≤ 2 ^ 27)
    (hfilled : ∀ i : Int, 1 ≤ i → i ≤ n + 1 → t.toRegistry.slot i ≠ .nil) : n < 2 ^ 27 := by
  have hle := length_le_of_filled h.wellFormed (n := n + 1) (by omega) fun i hlo hhi => by
    have hslot := hfilled i (by omega) (by omega)
    rwa [slot_toRegistry ⟨by omega, by omega⟩, ← getnum_eq (by omega)] at hslot
  have := h.wellFormed.sizes_le
  omega

theorem luaLRef_kept (h : Kept t n free) (hv : v ≠ .nil) (hok : t.luaLRef v = .ok (r, t')) :
    ∃ n' free', Kept t' n' free' ∧ Registry.Used n' free' r ∧ t'.toRegistry.slot r = v ∧
      ∀ i, Registry.Used n free i → Registry.Used n' free' i ∧ i ≠ r ∧
        t'.toRegistry.slot i = t.toRegistry.slot i := by
  have hfits := h.refs.fits
  have hzero : IsInt Registry.FREELIST_REF := by decide
  rw [luaLRef, if_neg hv, rawgeti_eq hzero, ← slot_toRegistry hzero] at hok
  cases free with
  | nil =>
    have hhead : Registry.toInteger (t.toRegistry.slot Registry.FREELIST_REF) = 0 := h.refs.threads
    rw [if_neg (not_not.mpr hhead), h.length_eq] at hok
    dsimp only at hok
    cases hset : t.rawseti (n + 1) v with
    | error e =>
      rw [hset] at hok
      cases hok
    | ok u =>
      rw [hset] at hok
      cases hok
      obtain ⟨hrep, hslot⟩ := slot_of_rawseti h.represents ⟨by omega, by omega⟩ hset
      have hfilled : ∀ i : Int, 1 ≤ i → i ≤ n + 1 → t'.toRegistry.slot i ≠ .nil := by
        intro i hlo hhi
        rw [hslot]
        by_cases hi : i = n + 1
        · rw [hi, Function.update_self]
          exact hv
        · rw [Function.update_of_ne hi]
          exact h.refs.filled i hlo (by omega) (by simp)
      have hn := lt_of_filled hrep hfits hfilled
      refine ⟨n + 1, [], ⟨hrep, refs_of_slot (h.refs.append hn hv) hslot⟩,
        ⟨by omega, by push_cast; omega, by simp⟩, by rw [hslot, Function.update_self], ?_⟩
      intro i ⟨hlo, hhi, hfree⟩
      refine ⟨⟨hlo, by push_cast; omega, hfree⟩, by omega, ?_⟩
      rw [hslot, Function.update_of_ne (by omega)]
  | cons r' rest =>
    obtain ⟨hhead, hr, _⟩ := id h.refs.threads
    have hgiven := h.refs.given r' List.mem_cons_self
    have hint : IsInt r' := ⟨by omega, by omega⟩
    change Registry.toInteger (t.toRegistry.slot Registry.FREELIST_REF) = r' at hhead
    rw [hhead, if_pos hr, rawgeti_eq hint, ← slot_toRegistry hint] at hok
    cases hset : t.rawseti Registry.FREELIST_REF (t.toRegistry.slot r') with
    | error e =>
      rw [hset] at hok
      cases hok
    | ok u =>
      rw [hset] at hok
      change (u.rawseti r' v >>= fun t => pure (r', t)) = _ at hok
      obtain ⟨hrep, hslot⟩ := slot_of_rawseti h.represents hzero hset
      cases hset' : u.rawseti r' v with
      | error e =>
        rw [hset'] at hok
        cases hok
      | ok w =>
        rw [hset'] at hok
        cases hok
        obtain ⟨hrep', hslot'⟩ := slot_of_rawseti hrep hint hset'
        have hpop : t'.toRegistry.slot = ((t.toRegistry.rawSetI Registry.FREELIST_REF
            (t.toRegistry.rawGetI r)).rawSetI r v).slot := by
          rw [hslot', hslot]
          rfl
        refine ⟨n, rest, ⟨hrep', refs_of_slot (h.refs.pop hv) hpop⟩,
          ⟨hgiven.1, hgiven.2, (List.nodup_cons.mp h.refs.nodup).1⟩,
          by rw [hslot', Function.update_self], ?_⟩
        intro i hused
        have hi : i ≠ r := fun heq => hused.2.2 (heq ▸ List.mem_cons_self)
        refine ⟨⟨hused.1, hused.2.1, fun hmem => hused.2.2 (List.mem_cons_of_mem r hmem)⟩, hi, ?_⟩
        rw [hpop]
        exact Registry.slot_pop v hused.ne_freelist hi

theorem luaLUnref_kept (h : Kept t n free) (hr : Registry.Used n free r)
    (hok : t.luaLUnref r = .ok t') :
    Kept t' n (r :: free) ∧ ∀ i, Registry.Used n free i → i ≠ r →
      Registry.Used n (r :: free) i ∧ t'.toRegistry.slot i = t.toRegistry.slot i := by
  have hzero : IsInt Registry.FREELIST_REF := by decide
  have hint := isInt_of_used h.refs hr
  obtain ⟨hrefs, hkeep⟩ := Registry.luaLUnref_spec h.refs hr
  have hpos : 0 ≤ r := by have := hr.1; omega
  rw [luaLUnref, if_pos hpos, rawgeti_eq hzero, ← slot_toRegistry hzero] at hok
  cases hset : t.rawseti r (t.toRegistry.slot Registry.FREELIST_REF) with
  | error e =>
    rw [hset] at hok
    cases hok
  | ok u =>
    rw [hset] at hok
    change u.rawseti Registry.FREELIST_REF (num r) = _ at hok
    obtain ⟨hrep, hslot⟩ := slot_of_rawseti h.represents hint hset
    obtain ⟨hrep', hslot'⟩ := slot_of_rawseti hrep hzero hok
    have hunref : t'.toRegistry.slot = (t.toRegistry.luaLUnref r).slot := by
      rw [hslot', hslot, Registry.luaLUnref, if_pos hpos]
      rfl
    refine ⟨⟨hrep', refs_of_slot hrefs hunref⟩, fun i hused hi => ?_⟩
    rw [hunref]
    exact hkeep i hused hi

/-! ### Runs -/

/-- The table and the references that are held, with the values they were made for. -/
structure Held where
  table : Table
  held : List (Int × Value)

/-- What happens to the registry. Its other keys are no numbers. -/
inductive Use where
  | ref (v : Value) (r : Int)
  | unref (r : Int)
  | rawset (key v : Value)
  | removeEntries

inductive Uses : Held → Use → Held → Prop where
  | ref {t t' : Table} {held : List (Int × Value)} {v : Value} {r : Int} (hv : v ≠ .nil)
      (h : t.luaLRef v = .ok (r, t')) : Uses ⟨t, held⟩ (.ref v r) ⟨t', (r, v) :: held⟩
  | unref {t t' : Table} {held : List (Int × Value)} {r : Int} (hr : r ∈ held.map Prod.fst)
      (h : t.luaLUnref r = .ok t') :
      Uses ⟨t, held⟩ (.unref r) ⟨t', held.filter fun p => p.1 ≠ r⟩
  | rawset {t t' : Table} {held : List (Int × Value)} {key v : Value} (hkey : key.type ≠ .number)
      (h : t.rawset key v = .ok t') : Uses ⟨t, held⟩ (.rawset key v) ⟨t', held⟩
  | removeEntries {t : Table} {held : List (Int × Value)} :
      Uses ⟨t, held⟩ .removeEntries ⟨t.removeEntries, held⟩

/-- Every held reference is one of its own and has its value. -/
structure AllHeld (x : Held) : Prop where
  kept : ∃ n free, Kept x.table n free ∧ ∀ p ∈ x.held, Registry.Used n free p.1
  nodup : (x.held.map Prod.fst).Nodup
  value : ∀ p ∈ x.held, x.table.toRegistry.slot p.1 = p.2

theorem toRegistry_slot_congr (h : ∀ i, IsInt i → t'.get (num i) = t.get (num i)) :
    t'.toRegistry.slot = t.toRegistry.slot := by
  funext i
  by_cases hi : IsInt i
  · rw [slot_toRegistry hi, slot_toRegistry hi, h i hi]
  · simp [toRegistry, hi]

theorem Kept.congr (h : Kept t n free) (hrep : Represents t' t'.get)
    (hslot : t'.toRegistry.slot = t.toRegistry.slot) : Kept t' n free :=
  ⟨hrep, refs_of_slot h.refs hslot⟩

theorem AllHeld.congr {held : List (Int × Value)} (h : AllHeld ⟨t, held⟩)
    (hrep : Represents t' t'.get) (hslot : t'.toRegistry.slot = t.toRegistry.slot) :
    AllHeld ⟨t', held⟩ := by
  obtain ⟨n, free, hkept, hused⟩ := h.kept
  exact ⟨⟨n, free, hkept.congr hrep hslot, hused⟩, h.nodup, fun p hp => hslot ▸ h.value p hp⟩

theorem AllHeld.step {x y : Held} {e : Use} (h : AllHeld x) (hstep : Uses x e y) : AllHeld y := by
  obtain ⟨n, free, hkept, hused⟩ := h.kept
  cases hstep with
  | @ref t t' held v r hv hok =>
    obtain ⟨n', free', hkept', hnew, hvalue, hkeep⟩ := luaLRef_kept hkept hv hok
    refine ⟨⟨n', free', hkept', ?_⟩, ?_, ?_⟩
    · rintro p (_ | ⟨_, hp⟩)
      · exact hnew
      · exact (hkeep p.1 (hused p hp)).1
    · refine List.nodup_cons.mpr ⟨fun hmem => ?_, h.nodup⟩
      obtain ⟨p, hp, hpr⟩ := List.mem_map.mp hmem
      exact (hkeep p.1 (hused p hp)).2.1 hpr
    · rintro p (_ | ⟨_, hp⟩)
      · exact hvalue
      · exact (hkeep p.1 (hused p hp)).2.2.trans (h.value p hp)
  | @unref t t' held r hr hok =>
    obtain ⟨p, hp, hpr⟩ := List.mem_map.mp hr
    obtain ⟨hkept', hkeep⟩ := luaLUnref_kept hkept (hpr ▸ hused p hp) hok
    have hmem : ∀ q ∈ held.filter fun p => p.1 ≠ r, q ∈ held ∧ q.1 ≠ r := by
      intro q hq
      simpa using List.mem_filter.mp hq
    refine ⟨⟨n, r :: free, hkept', fun q hq => ?_⟩, ?_, fun q hq => ?_⟩
    · exact (hkeep q.1 (hused q (hmem q hq).1) (hmem q hq).2).1
    · exact h.nodup.sublist (List.filter_sublist.map _)
    · exact (hkeep q.1 (hused q (hmem q hq).1) (hmem q hq).2).2.trans (h.value q (hmem q hq).1)
  | @rawset t t' held key v hkey hok =>
    have hrep := rawset_assigned hkept.represents hok
    refine h.congr ⟨hrep.wellFormed, hrep.free, rfl⟩ (toRegistry_slot_congr fun i _ => ?_)
    rw [hrep.get, assign, if_neg]
    intro hraw
    cases key <;> first | exact hkey rfl | cases hraw
  | @removeEntries t held =>
    have hrep := (Step.removeEntries t).represents hkept.represents
    refine h.congr ⟨hrep.wellFormed, hrep.free, rfl⟩ (toRegistry_slot_congr fun i _ => ?_)
    rw [get_removeEntries hkept.represents.wellFormed]

/-- Over the real table, in every run: a reference that is held still has its value, and no other
one is the same. -/
theorem registry_run {narray nhash : Nat} (harray : narray ≤ MAXASIZE) (hhash : nhash ≤ 2 ^ MAXBITS)
    {t₀ : Table} (hnew : luaHNew narray nhash = .ok t₀) {log : List (Held × Use)} {x : Held}
    (run : Run Uses ⟨t₀, []⟩ log x) :
    (x.held.map Prod.fst).Nodup ∧ ∀ p ∈ x.held, 1 ≤ p.1 ∧ x.table.rawgeti p.1 = p.2 := by
  have hstart : AllHeld ⟨t₀, []⟩ := by
    obtain ⟨u, hu, hwf, hfree, hget⟩ := luaHNew_spec harray hhash
    cases hu.symm.trans hnew
    have hslot : ∀ i, t₀.toRegistry.slot i = .nil := fun i => by simp [toRegistry, hget]
    exact ⟨⟨0, [], ⟨⟨hwf, hfree, rfl⟩, Registry.refs_empty _ hslot⟩, by simp⟩, List.nodup_nil,
      by simp⟩
  have hall := run.invariant hstart fun _ _ _ hx hstep => hx.step hstep
  obtain ⟨n, free, hkept, hused⟩ := hall.kept
  refine ⟨hall.nodup, fun p hp => ⟨(hused p hp).1, ?_⟩⟩
  have hint := isInt_of_used hkept.refs (hused p hp)
  rw [rawgeti_eq hint, ← slot_toRegistry hint]
  exact hall.value p hp

def Use.exec (x : Held) : Use → Option Held
  | .ref v r =>
    match x.table.luaLRef v with
    | .ok (r', t) => if v ≠ .nil ∧ r' = r then some ⟨t, (r, v) :: x.held⟩ else none
    | .error _ => none
  | .unref r =>
    match x.table.luaLUnref r with
    | .ok t =>
      if r ∈ x.held.map Prod.fst then some ⟨t, x.held.filter fun p => p.1 ≠ r⟩ else none
    | .error _ => none
  | .rawset key v =>
    match x.table.rawset key v with
    | .ok t => if key.type ≠ .number then some ⟨t, x.held⟩ else none
    | .error _ => none
  | .removeEntries => some ⟨x.table.removeEntries, x.held⟩

theorem Uses.of_exec (x : Held) (e : Use) (y : Held) (h : e.exec x = some y) : Uses x e y := by
  cases e with
  | ref v r =>
    rw [Use.exec] at h
    split at h
    next r' t href =>
      split_ifs at h with hr
      obtain ⟨hv, rfl⟩ := hr
      cases h
      exact .ref hv href
    next => cases h
  | unref r =>
    rw [Use.exec] at h
    split at h
    next t hunref =>
      split_ifs at h with hr
      cases h
      exact .unref hr hunref
    next => cases h
  | rawset key v =>
    rw [Use.exec] at h
    split at h
    next t hset =>
      split_ifs at h with hkey
      cases h
      exact .rawset hkey hset
    next => cases h
  | removeEntries =>
    cases h
    exact .removeEntries

/-- The first of two references is given back, and used for another value. -/
def reuse : List Use :=
  [.ref (.boolean true) 1, .rawset (.string [97]) (.boolean true), .ref (.boolean false) 2,
    .unref 1, .removeEntries, .ref (.string [98]) 1]

theorem registry_run_once : ∃ log x, Run Uses ⟨emptyTable, []⟩ log x ∧ log.map Prod.snd = reuse ∧
    x.held = [(1, .string [98]), (2, .boolean false)] ∧ x.table.rawgeti 1 = .string [98] ∧
    x.table.rawgeti 2 = .boolean false := by
  obtain ⟨log, x, run, hlog, hheld⟩ := Run.exists_of_trace
    (fun x : Held => decide (x.held = [(1, .string [98]), (2, .boolean false)])) Uses.of_exec
    (show ((Run.trace Use.exec reuse ⟨emptyTable, []⟩ []).any fun last => _) = true by
      decide +kernel)
  have hx := of_decide_eq_true hheld
  obtain ⟨_, hvalues⟩ := registry_run (Nat.zero_le _) (Nat.zero_le _) luaHNew_empty run
  rw [hx] at hvalues
  exact ⟨log, x, run, hlog, hx, (hvalues (1, _) (by simp)).2, (hvalues (2, _) (by simp)).2⟩

end JLua.Tables.Table
