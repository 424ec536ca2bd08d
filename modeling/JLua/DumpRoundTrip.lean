import JLua.Dump

/-!
# Saving and loading functions

What was dumped is loaded as it was, wherever the stream is cut into chunks, and nothing that is cut
off is loaded. What is dumped without debug information lacks only that.
-/

namespace JLua.Dump

open Decoding Streams Protos Opcodes
set_option autoImplicit false

/-! ### What is dumped -/

section
variable (M : Machine)

/-- A string whose size is a `size_t`. -/
def FitsString (s : TString) : Prop := (s.elim 0 fun s => s.length + 1) < 2 ^ (8 * M.sizeofSizeT)

/-- A number that `LoadInt` takes. -/
def IsSize (n : Nat) : Prop := n < 2 ^ 31

/-- The numbers of a function are in their ranges, and its code is good. -/
structure Fits (f : Proto) : Prop where
  k : IsSize f.k.length
  name : ∀ s, .string s ∈ f.k → FitsString M s
  code : IsSize f.code.length
  p : IsSize f.p.length
  lineinfo : IsSize f.lineinfo.length
  locvars : IsSize f.locvars.length
  locvar : ∀ v ∈ f.locvars, FitsString M v.varname ∧ 0 ≤ v.startpc.toInt ∧ 0 ≤ v.endpc.toInt
  upvalues : IsSize f.upvalues.length
  upvalue : ∀ s ∈ f.upvalues, FitsString M s
  source : FitsString M f.source
  lines : 0 ≤ f.linedefined.toInt ∧ 0 ≤ f.lastlinedefined.toInt
  check : f.luaGCheckcode = true

/-- So do those of the functions inside. -/
inductive AllFit : Proto → Prop where
  | mk {f : Proto} (fits : Fits M f) (inner : ∀ g ∈ f.p, AllFit g) : AllFit f

end

mutual

/-- How deep functions are nested. -/
def depth : Proto → Nat
  | ⟨_, _, ps, _, _, _, _, _, _, _, _, _, _⟩ => depths ps + 1

def depths : List Proto → Nat
  | [] => 0
  | f :: fs => max (depth f) (depths fs)

end

mutual

/-- What is loaded from a dump: a source that is left out is that of the function around, which
is `q` there and was `p` before. -/
def reload (strip : Bool) : Proto → TString → TString → Proto
  | ⟨k, code, ps, lineinfo, locvars, upvalues, source, linedefined, lastlinedefined, nups,
      numparams, isVararg, maxstacksize⟩, p, q =>
    let source' := (if source = p ∨ strip = true then none else source).orElse fun _ => q
    ⟨k, code, reloadAll strip ps source source', if strip then [] else lineinfo,
      if strip then [] else locvars, if strip then [] else upvalues, source', linedefined,
      lastlinedefined, nups, numparams, isVararg, maxstacksize⟩

def reloadAll (strip : Bool) : List Proto → TString → TString → List Proto
  | [], _, _ => []
  | f :: fs, p, q => reload strip f p q :: reloadAll strip fs p q

end

theorem reloadAll_eq (strip : Bool) (fs : List Proto) (p q : TString) :
    reloadAll strip fs p q = fs.map fun f => reload strip f p q := by
  induction fs with
  | nil => rfl
  | cons f fs ih => rw [reloadAll, ih, List.map_cons]

theorem dumpFunctions_eq (M : Machine) (strip : Bool) (fs : List Proto) (p : TString) :
    dumpFunctions M strip fs p = fs.flatMap fun f => dumpFunction M strip f p := by
  induction fs with
  | nil => rfl
  | cons f fs ih => rw [dumpFunctions, ih, List.flatMap_cons]

theorem depth_lt {f g : Proto} (h : g ∈ f.p) : depth g < depth f := by
  obtain ⟨k, code, ps, _⟩ := f
  have hall : ∀ fs : List Proto, g ∈ fs → depth g ≤ depths fs := by
    intro fs hg
    induction fs with
    | nil => cases hg
    | cons f fs ih =>
      rw [depths]
      rcases List.mem_cons.mp hg with rfl | hmem
      · exact le_max_left _ _
      · exact (ih hmem).trans (le_max_right _ _)
  rw [depth]
  exact Nat.lt_succ_of_le (hall ps h)

theorem exists_depth {f : Proto} {n : Nat} (h : n + 1 < depth f) : ∃ g ∈ f.p, n < depth g := by
  obtain ⟨k, code, ps, _⟩ := f
  rw [depth] at h
  have hall : ∀ fs : List Proto, n < depths fs → ∃ g ∈ fs, n < depth g := by
    intro fs hlt
    induction fs with
    | nil => exact absurd hlt (Nat.not_lt_zero n)
    | cons f fs ih =>
      rw [depths] at hlt
      rcases lt_max_iff.mp hlt with hf | hfs
      · exact ⟨f, List.mem_cons_self, hf⟩
      · obtain ⟨g, hg, hlt⟩ := ih hfs
        exact ⟨g, List.mem_cons_of_mem _ hg, hlt⟩
  exact hall ps (by omega)

/-! ### Parts of a chunk -/

section Parts
variable {M : Machine}

/-- How a chunk is read from a stream. -/
abbrev Reads {X : Type} (p : Load X) (bs : List UInt8) (x : X) : Prop :=
  Decodes Zio.content "unexpected end" p bs x

theorem reads_block {bs : List UInt8} {n : Nat} (hn : bs.length = n) :
    Reads (loadBlock n) bs bs where
  reads z rest h := by
    obtain ⟨z', hok, hrest⟩ := luaZRead_enough hn h
    refine ⟨z', ?_, hrest⟩
    rw [loadBlock, hok]
    rfl
  ends z h hne := by
    have hlt : z.content.length < n := by
      have hle := h.length_le
      rcases Nat.lt_or_eq_of_le hle with hlt | heq
      · omega
      · exact absurd (h.eq_of_length heq) hne
    have hmissing := luaZRead_missing hlt
    rw [loadBlock]
    exact if_pos hmissing

theorem reads_char (y : UInt8) : Reads loadChar (dumpChar y).flatten y :=
  (reads_block (n := 1) rfl).bind_pure rfl

theorem length_word (size n : Nat) : (word M size n).length = size := length_image _ _ _

theorem ofWord_word {size n : Nat} (h : n < 2 ^ (8 * size)) : ofWord M (word M size n) = n :=
  ofImage_image _ h

theorem reads_int {x : CInt} (h : 0 ≤ x.toInt) : Reads (loadInt M) (dumpInt M x).flatten x := by
  rw [dumpInt, List.flatten_singleton]
  apply (reads_block (length_word _ _)).bind_pure
  rw [ofWord_word x.isLt, BitVec.ofNat_toNat, BitVec.setWidth_eq]
  exact if_neg (not_lt.mpr h)

theorem reads_size {n : Nat} (h : IsSize n) :
    Reads (loadInt M) (dumpInt M (.ofNat 32 n)).flatten (.ofNat 32 n) := by
  apply reads_int
  rw [IsSize] at h
  rw [BitVec.toInt_eq_toNat_of_lt] <;> rw [BitVec.toNat_ofNat] <;> omega

theorem toNat_size {n : Nat} (h : IsSize n) : (BitVec.ofNat 32 n).toNat = n := by
  rw [IsSize] at h
  rw [BitVec.toNat_ofNat]
  omega

theorem reads_number (x : BitVec 64) : Reads (loadNumber M) (dumpNumber M x).flatten x := by
  rw [dumpNumber, List.flatten_singleton]
  apply (reads_block (length_word _ _)).bind_pure
  rw [ofWord_word x.isLt, BitVec.ofNat_toNat, BitVec.setWidth_eq]

theorem words_flatMap (b : List (BitVec 32)) :
    words M b.length (b.flatMap fun x => word M 4 x.toNat) = b := by
  induction b with
  | nil => rfl
  | cons x b ih =>
    have htake : (word M 4 x.toNat ++ b.flatMap fun x => word M 4 x.toNat).take 4 =
        word M 4 x.toNat := List.take_left' (length_word _ _)
    have hdrop : (word M 4 x.toNat ++ b.flatMap fun x => word M 4 x.toNat).drop 4 =
        b.flatMap fun x => word M 4 x.toNat := List.drop_left' (length_word _ _)
    rw [List.flatMap_cons, List.length_cons, words, htake, hdrop, ih, ofWord_word x.isLt,
      BitVec.ofNat_toNat, BitVec.setWidth_eq]

theorem length_flatMap_word (b : List (BitVec 32)) :
    (b.flatMap fun x => word M 4 x.toNat).length = b.length * 4 := by
  induction b with
  | nil => rfl
  | cons x b ih =>
    rw [List.flatMap_cons, List.length_append, ih, length_word, List.length_cons]
    omega

theorem reads_vector {b : List (BitVec 32)} (h : IsSize b.length) :
    Reads (loadCode M) (dumpVector M b).flatten b := by
  rw [dumpVector, List.flatten_append, List.flatten_singleton]
  apply (reads_size h).bind
  rw [toNat_size h]
  exact (reads_block (length_flatMap_word b)).bind_pure (congrArg pure (words_flatMap b))

theorem reads_string {s : TString} (h : FitsString M s) :
    Reads (loadString M) (dumpString M s).flatten s := by
  cases s with
  | none =>
    rw [dumpString, List.flatten_singleton]
    apply (reads_block (length_word _ _)).bind_pure
    rw [ofWord_word (Nat.two_pow_pos _)]
    rfl
  | some s =>
    have hsize : s.length + 1 < 2 ^ (8 * M.sizeofSizeT) := h
    rw [dumpString, List.flatten_cons, List.flatten_singleton]
    apply (reads_block (length_word M.sizeofSizeT _)).bind
    rw [ofWord_word hsize]
    have htake : (s ++ [0]).take (s.length + 1 - 1) = s := List.take_left' rfl
    exact (reads_block (by simp)).bind_pure (congrArg (fun s => pure (some s)) htake)

theorem reads_constant {o : Constant} (h : ∀ s, .string s = o → FitsString M s) :
    Reads (loadConstant M) (dumpConstant M o).flatten o := by
  cases o with
  | nil => exact (reads_char LUA_TNIL).bind (decodes_pure _ _ _)
  | boolean b =>
    rw [dumpConstant, List.flatten_append]
    apply (reads_char LUA_TBOOLEAN).bind
    apply (reads_char (if b then 1 else 0)).bind_pure
    cases b <;> rfl
  | number n =>
    rw [dumpConstant, List.flatten_append]
    apply (reads_char LUA_TNUMBER).bind
    exact (reads_number n).bind_pure rfl
  | string s =>
    rw [dumpConstant, List.flatten_append]
    apply (reads_char LUA_TSTRING).bind
    exact (reads_string (h s rfl)).bind_pure rfl

theorem reads_many {X Y : Type} {load : Load X} {dump : Y → Blocks} {f : Y → X} {ys : List Y}
    (hsize : IsSize ys.length) (h : ∀ y ∈ ys, Reads load (dump y).flatten (f y)) :
    Reads (loadMany M load) (dumpMany M ys.length (ys.flatMap dump)).flatten (ys.map f) := by
  rw [dumpMany, List.flatten_append]
  apply (reads_size hsize).bind
  rw [toNat_size hsize]
  have hall := Decodes.repeated h
  rw [List.flatten_eq_flatMap, List.flatMap_assoc]
  simpa only [List.flatMap_id] using hall

theorem reads_locVar {v : LocVar} (hname : FitsString M v.varname) (hstart : 0 ≤ v.startpc.toInt)
    (hend : 0 ≤ v.endpc.toInt) : Reads (loadLocVar M) (dumpLocVar M v).flatten v := by
  rw [dumpLocVar, List.flatten_append, List.flatten_append, List.append_assoc]
  apply (reads_string hname).bind
  apply (reads_int hstart).bind
  exact (reads_int hend).bind_pure rfl

theorem reads_all {X : Type} {load : Load X} {dump : X → Blocks} {xs : List X}
    (hsize : IsSize xs.length) (h : ∀ x ∈ xs, Reads load (dump x).flatten x) :
    Reads (loadMany M load) (dumpMany M xs.length (xs.flatMap dump)).flatten xs := by
  have hall := reads_many (M := M) (f := id) hsize h
  rwa [List.map_id] at hall

end Parts

/-! ### Functions -/

section Functions
variable {M : Machine} {strip : Bool}

theorem fitsString_ite {c : Prop} [Decidable c] {s : TString} (h : FitsString M s) :
    FitsString M (if c then none else s) := by
  split_ifs
  · exact Nat.two_pow_pos _
  · exact h

theorem isSize_ite {X : Type} {l : List X} (h : IsSize l.length) :
    IsSize (if strip then [] else l).length := by
  split_ifs
  · exact Nat.two_pow_pos _
  · exact h

theorem of_mem_ite {X : Type} {l : List X} {x : X} (h : x ∈ if strip then [] else l) : x ∈ l := by
  split_ifs at h
  · cases h
  · exact h

theorem sameCode_reload (f : Proto) (p q : TString) : Proto.SameCode f (reload strip f p q) := by
  obtain ⟨k, code, ps, _⟩ := f
  refine ⟨rfl, rfl, ?_, rfl, rfl, rfl, rfl⟩
  rw [reload]
  dsimp only
  rw [reloadAll_eq, List.map_map]
  refine List.map_congr_left fun g _ => ?_
  cases g
  rfl

variable (strip) in
theorem checkcode_reload {f : Proto} (h : f.luaGCheckcode = true) (p q : TString) :
    (reload strip f p q).luaGCheckcode = true := by
  apply (sameCode_reload f p q).luaGCheckcode _ _ h
  · obtain ⟨_⟩ := f
    rw [reload]
    cases strip
    · exact .inl rfl
    · exact .inr rfl
  · obtain ⟨_⟩ := f
    rw [reload]
    cases strip
    · exact le_rfl
    · exact Nat.zero_le _

/-- A function that is not nested too deep is read as it was dumped. -/
theorem reads_function (f : Proto) {room : Nat} {p q : TString} (h : AllFit M f)
    (hroom : depth f ≤ room) :
    Reads (loadFunction M room q) (dumpFunction M strip f p).flatten (reload strip f p q) := by
  induction f using Proto.induction generalizing room p q with
  | h f ih =>
    obtain ⟨hfits, hinner⟩ := h
    rcases room with _ | room
    · obtain ⟨_⟩ := f
      rw [depth] at hroom
      omega
    have hchildren : ∀ g ∈ f.p, ∀ p q, Reads (loadFunction M room q)
        (dumpFunction M strip g p).flatten (reload strip g p q) := fun g hg p q =>
      ih g hg (hinner g hg) (Nat.le_of_lt_succ ((depth_lt hg).trans_le hroom))
    have hcheck := checkcode_reload strip hfits.check p q
    obtain ⟨k, code, ps, lineinfo, locvars, upvalues, source, linedefined, lastlinedefined, nups,
      numparams, isVararg, maxstacksize⟩ := f
    rw [dumpFunction, loadFunction, dumpDebug, dumpFunctions_eq]
    rw [reload, reloadAll_eq] at hcheck ⊢
    simp only [List.flatten_append, List.append_assoc]
    apply (reads_string (fitsString_ite hfits.source)).bind
    apply (reads_int hfits.lines.1).bind
    apply (reads_int hfits.lines.2).bind
    apply (reads_char nups).bind
    apply (reads_char numparams).bind
    apply (reads_char isVararg).bind
    apply (reads_char maxstacksize).bind
    apply (reads_vector hfits.code).bind
    apply (reads_all hfits.k fun o ho => reads_constant fun s hs => hfits.name s (hs ▸ ho)).bind
    apply (reads_many hfits.p fun g hg => hchildren g hg _ _).bind
    apply (reads_vector (isSize_ite hfits.lineinfo)).bind
    apply (reads_all (isSize_ite hfits.locvars) fun v hv => ?_).bind
    · apply (reads_all (isSize_ite hfits.upvalues) fun s hs => ?_).bind_pure
      · exact if_pos hcheck
      · exact reads_string (hfits.upvalue s (of_mem_ite hs))
    · obtain ⟨hname, hstart, hend⟩ := hfits.locvar v (of_mem_ite hv)
      exact reads_locVar hname hstart hend

theorem rejects_many {X Y : Type} {load : Load X} {dump : Y → Blocks} {f : Y → X} {ys : List Y}
    {e : String} (hsize : IsSize ys.length)
    (h : ∀ y ∈ ys, Reads load (dump y).flatten (f y) ∨
      Rejects Zio.content load (dump y).flatten e)
    (hbad : ∃ y ∈ ys, Rejects Zio.content load (dump y).flatten e) :
    Rejects Zio.content (loadMany M load) (dumpMany M ys.length (ys.flatMap dump)).flatten e := by
  rw [dumpMany, List.flatten_append]
  apply (reads_size hsize).bind_rejects
  rw [toNat_size hsize, List.flatten_eq_flatMap, List.flatMap_assoc]
  simpa only [List.flatMap_id] using rejects_repeated h hbad

/-- A function that is nested too deep is found to be so. -/
theorem rejects_function (f : Proto) {room : Nat} {p q : TString} (h : AllFit M f)
    (hroom : room < depth f) :
    Rejects Zio.content (loadFunction M room q) (dumpFunction M strip f p).flatten
      "code too deep" := by
  induction f using Proto.induction generalizing room p q with
  | h f ih =>
    obtain ⟨hfits, hinner⟩ := h
    rcases room with _ | room
    · exact fun z rest _ => rfl
    have hchildren : ∀ g ∈ f.p, ∀ p q,
        Reads (loadFunction M room q) (dumpFunction M strip g p).flatten (reload strip g p q) ∨
          Rejects Zio.content (loadFunction M room q) (dumpFunction M strip g p).flatten
            "code too deep" := by
      intro g hg p q
      rcases Nat.lt_or_ge room (depth g) with hlt | hge
      · exact .inr (ih g hg (hinner g hg) hlt)
      · exact .inl (reads_function g (hinner g hg) hge)
    have hbad : ∃ g ∈ f.p, ∀ p q, Rejects Zio.content (loadFunction M room q)
        (dumpFunction M strip g p).flatten "code too deep" := by
      obtain ⟨g, hg, hlt⟩ := exists_depth hroom
      exact ⟨g, hg, fun p q => ih g hg (hinner g hg) hlt⟩
    obtain ⟨k, code, ps, lineinfo, locvars, upvalues, source, linedefined, lastlinedefined, nups,
      numparams, isVararg, maxstacksize⟩ := f
    rw [dumpFunction, loadFunction, dumpFunctions_eq]
    simp only [List.flatten_append, List.append_assoc]
    apply (reads_string (fitsString_ite hfits.source)).bind_rejects
    apply (reads_int hfits.lines.1).bind_rejects
    apply (reads_int hfits.lines.2).bind_rejects
    apply (reads_char nups).bind_rejects
    apply (reads_char numparams).bind_rejects
    apply (reads_char isVararg).bind_rejects
    apply (reads_char maxstacksize).bind_rejects
    apply (reads_vector hfits.code).bind_rejects
    apply (reads_all hfits.k fun o ho =>
      reads_constant fun s hs => hfits.name s (hs ▸ ho)).bind_rejects
    apply Rejects.append
    apply Rejects.bind
    apply rejects_many hfits.p fun g hg => hchildren g hg _ _
    obtain ⟨g, hg, hrej⟩ := hbad
    exact ⟨g, hg, hrej _ _⟩

end Functions

/-! ### Chunks -/

section Chunks
variable {M : Machine} {strip : Bool} {f : Proto} {nCcalls : Nat} {name : String} {z : Zio}

/-- Every function knows its source, as all do that were compiled. -/
inductive Sourced : Proto → Prop where
  | mk {f : Proto} (source : f.source ≠ none) (inner : ∀ g ∈ f.p, Sourced g) : Sourced f

/-- Nothing is lost of a function that is dumped with its debug information. -/
theorem reload_eq (f : Proto) {p q : TString} (h : Sourced f) (hpq : f.source = p → q = p) :
    reload false f p q = f := by
  induction f using Proto.induction generalizing p q with
  | h f ih =>
    obtain ⟨hsource, hinner⟩ := h
    obtain ⟨k, code, ps, lineinfo, locvars, upvalues, source, linedefined, lastlinedefined, nups,
      numparams, isVararg, maxstacksize⟩ := f
    have hsame : ((if source = p ∨ false = true then none else source).orElse fun _ => q) =
        source := by
      by_cases heq : source = p
      · rw [if_pos (.inl heq), hpq heq, heq]
        rfl
      · rw [if_neg (by simpa using heq)]
        cases source with
        | none => exact absurd rfl hsource
        | some s => rfl
    have hps : ps.map (fun g => reload false g source source) = ps := by
      apply (List.map_congr_left fun g hg => ?_).trans (List.map_id ps)
      exact ih g hg (hinner g hg) fun h => rfl
    rw [reload, reloadAll_eq, hsame, hps]
    rfl

theorem reads_header : Reads (loadHeader M) (luaUHeader M) () :=
  (reads_block (n := LUAC_HEADERSIZE) rfl).bind_pure (if_neg (not_not.mpr rfl))

theorem reads_chunk (h : AllFit M f) {room : Nat} (hroom : depth f ≤ room) :
    Reads (do loadHeader M; loadFunction M room unknownSource) (chunk M strip f).flatten
      (reload strip f none unknownSource) := by
  rw [chunk, List.flatten_cons]
  exact reads_header.bind (reads_function f h hroom)

/-- A writer that puts one block after the other gets the chunk. -/
theorem luaUDump_append (f : Proto) (data : List UInt8) :
    luaUDump M f (fun b d => (0, d ++ b)) data strip = (0, data ++ (chunk M strip f).flatten) := by
  rw [luaUDump]
  induction chunk M strip f generalizing data with
  | nil => simp
  | cons b blocks ih =>
    rw [List.foldl_cons, dumpBlock, if_pos rfl, ih, List.flatten_cons, List.append_assoc]

variable (nCcalls name) in
/-- What is dumped is loaded again, however it comes in and whatever follows: as it was, if all of
it was dumped. -/
theorem undump_dump (h : AllFit M f) (hdepth : nCcalls + depth f ≤ LUAI_MAXCCALLS)
    {rest : List UInt8} (hz : z.content = (chunk M strip f).flatten ++ rest) :
    ∃ g z', luaUUndump M nCcalls name z = .ok (g, z') ∧ z'.content = rest ∧
      g = reload strip f none unknownSource ∧ (strip = false → Sourced f → g = f) := by
  have hroom : depth f ≤ LUAI_MAXCCALLS - nCcalls := by omega
  obtain ⟨z', hok, hrest⟩ := (reads_chunk h hroom).reads z rest hz
  refine ⟨_, z', ?_, hrest, rfl, ?_⟩
  · rw [luaUUndump, hok]
    rfl
  · rintro rfl hsourced
    exact reload_eq f hsourced fun hnone => by
      obtain ⟨hsource, _⟩ := hsourced
      exact absurd hnone hsource

/-- A function that returns at once, with one inside of it. -/
def returning (p : List Proto) : Proto :=
  { Proto.ofCode [createABC .RETURN 0 1 0] with source := some [64, 97], k := [.boolean true], p }

theorem allFit_returning {p : List Proto} (hp : IsSize p.length) (h : ∀ g ∈ p, AllFit M g)
    (hM : 2 ≤ M.sizeofSizeT) (hcheck : (returning p).luaGCheckcode = true) :
    AllFit M (returning p) := by
  have hone : IsSize 1 := by unfold IsSize; decide
  have hzero : IsSize 0 := by unfold IsSize; decide
  have hsource : FitsString M (returning p).source := by
    have hpow : 2 ^ 16 ≤ 2 ^ (8 * M.sizeofSizeT) := Nat.pow_le_pow_right (by decide) (by omega)
    exact lt_of_lt_of_le (show 3 < 2 ^ 16 by decide) hpow
  exact ⟨⟨hone, by simp [returning], hone, hp, hzero, hzero, by simp [returning, Proto.ofCode],
    hzero, by simp [returning, Proto.ofCode], hsource, ⟨le_rfl, le_rfl⟩, hcheck⟩, h⟩

/-- The bytes come in one by one. -/
def byteByByte (bs : List UInt8) : Zio := ⟨[], bs.map fun b => [b]⟩

theorem undump_dump_inside :
    let M : Machine := ⟨true, 4⟩
    let f := returning [returning []]
    ∃ z', luaUUndump M 1 "@a"
      (byteByByte (luaUDump M f (fun b d => (0, d ++ b)) [] false).2) = .ok (f, z') := by
  intro M f
  rw [luaUDump_append]
  have hin : AllFit M (returning []) := allFit_returning (Nat.two_pow_pos _) (by simp) (by decide)
    (by decide +kernel)
  have h : AllFit M f := allFit_returning (by unfold IsSize; decide) (by simpa using hin)
    (by decide) (by decide +kernel)
  have hsourced : Sourced f := ⟨by decide, by simpa [f, returning] using ⟨by decide, by simp⟩⟩
  have hz : (byteByByte ([] ++ (chunk M false f).flatten)).content =
      (chunk M false f).flatten ++ [] := by
    decide +kernel
  obtain ⟨g, z', hok, _, _, hsame⟩ :=
    undump_dump 1 "@a" h (by decide) hz
  have hg : g = f := hsame rfl hsourced
  rw [hg] at hok
  exact ⟨z', hok⟩

variable (nCcalls name) in
/-- A chunk that is cut off is not loaded, wherever that is. -/
theorem undump_truncated (h : AllFit M f) (hdepth : nCcalls + depth f ≤ LUAI_MAXCCALLS)
    (hz : z.content <+: (chunk M strip f).flatten) (hne : z.content ≠ (chunk M strip f).flatten) :
    luaUUndump M nCcalls name z =
      .error (shownName name ++ ": " ++ "unexpected end" ++ " in precompiled chunk") := by
  have hroom : depth f ≤ LUAI_MAXCCALLS - nCcalls := by omega
  rw [luaUUndump, (reads_chunk h hroom).ends z hz hne]
  rfl

theorem undump_truncated_returning :
    luaUUndump ⟨true, 4⟩ 0 "a"
      (byteByByte ((chunk ⟨true, 4⟩ true (returning [])).flatten.take 20)) =
      .error "a: unexpected end in precompiled chunk" := by
  have h : AllFit ⟨true, 4⟩ (returning []) :=
    allFit_returning (Nat.two_pow_pos _) (by simp) (by decide) (by decide +kernel)
  have hz : (byteByByte ((chunk ⟨true, 4⟩ true (returning [])).flatten.take 20)).content =
      (chunk ⟨true, 4⟩ true (returning [])).flatten.take 20 := by decide +kernel
  have hne : (chunk ⟨true, 4⟩ true (returning [])).flatten.take 20 ≠
      (chunk ⟨true, 4⟩ true (returning [])).flatten := by decide +kernel
  have hpre := List.take_prefix 20 (chunk ⟨true, 4⟩ true (returning [])).flatten
  exact undump_truncated 0 "a" h (by decide) (hz ▸ hpre) (hz ▸ hne)

/-- Neither is one with functions nested too deep for the calls there are already. -/
theorem undump_tooDeep (h : AllFit M f) (hdepth : LUAI_MAXCCALLS < nCcalls + depth f)
    {rest : List UInt8} (hz : z.content = (chunk M strip f).flatten ++ rest) :
    luaUUndump M nCcalls name z =
      .error (shownName name ++ ": " ++ "code too deep" ++ " in precompiled chunk") := by
  have hpos : 0 < depth f := by
    obtain ⟨_⟩ := f
    rw [depth]
    exact Nat.succ_pos _
  have hroom : LUAI_MAXCCALLS - nCcalls < depth f := by omega
  rw [chunk, List.flatten_cons] at hz
  have hfun : Rejects Zio.content (loadFunction M (LUAI_MAXCCALLS - nCcalls) unknownSource)
      (dumpFunction M strip f none).flatten "code too deep" := rejects_function f h hroom
  have hrej := (reads_header (M := M)).bind_rejects (f := fun _ => loadFunction M _ _) hfun
  rw [luaUUndump, hrej z rest hz]
  rfl

/-- A chunk of another machine is known by its header. -/
theorem undump_otherMachine {M' : Machine} (hne : luaUHeader M ≠ luaUHeader M')
    {rest : List UInt8} (hz : z.content = luaUHeader M ++ rest) :
    luaUUndump M' nCcalls name z =
      .error (shownName name ++ ": " ++ "bad header" ++ " in precompiled chunk") := by
  obtain ⟨z', hok, _⟩ := (reads_block (n := LUAC_HEADERSIZE) rfl).reads z rest hz
  have hbad : loadHeader M' z = .error "bad header" := by
    rw [loadHeader, bind_of_ok hok, if_pos hne]
    rfl
  rw [luaUUndump, bind_of_error hbad]
  rfl

end Chunks

end JLua.Dump
