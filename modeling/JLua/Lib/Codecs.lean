import Mathlib.Algebra.Group.Nat.Defs
import Mathlib.Data.List.Infix

/-!
# Decoding

A decoder reads from a state that stands for a list of symbols. It decodes a word if it reads the
word off every input that starts with it, and says so if the input ends before the word does. Both
properties go through sequences, and so through formats.
-/

namespace Decoding

set_option autoImplicit false
variable {S A E X Y : Type}

abbrev Decoder (S E X : Type) := StateT S (Except E) X

section
variable (content : S → List A) (short : E)

/-- Whatever comes after `bs`, the decoder reads it as `x` and leaves the rest alone. An input that
ends within `bs` is too short. -/
structure Decodes (p : Decoder S E X) (bs : List A) (x : X) : Prop where
  reads : ∀ s rest, content s = bs ++ rest → ∃ s', p s = .ok (x, s') ∧ content s' = rest
  ends : ∀ s, content s <+: bs → content s ≠ bs → p s = .error short

/-- Whatever comes after `bs`, the decoder stops with `e`. -/
def Rejects (p : Decoder S E X) (bs : List A) (e : E) : Prop :=
  ∀ s rest, content s = bs ++ rest → p s = .error e

end

variable {content : S → List A} {short e : E} {p : Decoder S E X} {f : X → Decoder S E Y}
  {bs bs' : List A} {x : X} {y : Y}

theorem bind_of_ok {s s' : S} (h : p s = .ok (x, s')) : (p >>= f) s = f x s' := by
  change (p s >>= fun r => f r.1 r.2) = _
  rw [h]
  rfl

theorem bind_of_error {s : S} (h : p s = .error e) : (p >>= f) s = .error e := by
  change (p s >>= fun r => f r.1 r.2) = _
  rw [h]
  rfl

theorem decodes_pure (content : S → List A) (short : E) (x : X) :
    Decodes content short (pure x : Decoder S E X) [] x where
  reads s _ h := ⟨s, rfl, h⟩
  ends _ h hne := absurd (List.prefix_nil.mp h) hne

/-- A proper prefix of a sequence ends within its first word, or within the second one. -/
theorem split_of_prefix {as : List A} (h : as <+: bs ++ bs') :
    (as <+: bs ∧ as ≠ bs) ∨ ∃ as', as = bs ++ as' ∧ as' <+: bs' := by
  rcases List.prefix_or_prefix_of_prefix h (List.prefix_append bs bs') with hpre | ⟨as', hsplit⟩
  · by_cases heq : as = bs
    · exact .inr ⟨[], by rw [heq, List.append_nil], List.nil_prefix⟩
    · exact .inl ⟨hpre, heq⟩
  · refine .inr ⟨as', hsplit.symm, ?_⟩
    rw [← hsplit] at h
    exact (List.prefix_append_right_inj bs).mp h

theorem Decodes.bind (hp : Decodes content short p bs x) (hf : Decodes content short (f x) bs' y) :
    Decodes content short (p >>= f) (bs ++ bs') y where
  reads s rest h := by
    rw [List.append_assoc] at h
    obtain ⟨s', hok, hrest⟩ := hp.reads s _ h
    obtain ⟨s'', hok', hrest'⟩ := hf.reads s' _ hrest
    exact ⟨s'', (bind_of_ok hok).trans hok', hrest'⟩
  ends s h hne := by
    rcases split_of_prefix h with ⟨hpre, hproper⟩ | ⟨as', hsplit, hpre⟩
    · exact bind_of_error (hp.ends s hpre hproper)
    · obtain ⟨s', hok, hrest⟩ := hp.reads s _ hsplit
      rw [bind_of_ok hok]
      apply hf.ends s' (hrest ▸ hpre)
      rintro heq
      apply hne
      rw [hsplit, ← hrest, heq]

theorem Decodes.bind_pure (hp : Decodes content short p bs x) (hf : f x = pure y) :
    Decodes content short (p >>= f) bs y := by
  have h := hp.bind (hf ▸ decodes_pure content short y)
  rwa [List.append_nil] at h

theorem Decodes.map (hp : Decodes content short p bs x) (g : X → Y) :
    Decodes content short (g <$> p) bs (g x) := by
  rw [← bind_pure_comp]
  exact hp.bind_pure rfl

theorem Decodes.bind_rejects (hp : Decodes content short p bs x)
    (hf : Rejects content (f x) bs' e) : Rejects content (p >>= f) (bs ++ bs') e := by
  intro s rest h
  rw [List.append_assoc] at h
  obtain ⟨s', hok, hrest⟩ := hp.reads s _ h
  exact (bind_of_ok hok).trans (hf s' _ hrest)

theorem Rejects.bind (hp : Rejects content p bs e) : Rejects content (p >>= f) bs e :=
  fun s rest h => bind_of_error (hp s rest h)

theorem Rejects.append (hp : Rejects content p bs e) (bs' : List A) :
    Rejects content p (bs ++ bs') e :=
  fun s rest h => hp s (bs' ++ rest) (by rw [h, List.append_assoc])

/-- What reads several words of one kind. -/
def repeated (p : Decoder S E X) : Nat → Decoder S E (List X)
  | 0 => pure []
  | n + 1 => do
    let x ← p
    let xs ← repeated p n
    pure (x :: xs)

theorem repeated_succ (p : Decoder S E X) (n : Nat) :
    repeated p (n + 1) = p >>= fun x => (x :: ·) <$> repeated p n := by
  rw [repeated]
  simp only [bind_pure_comp]

theorem Decodes.repeated {word : Y → List A} {val : Y → X} {ys : List Y}
    (h : ∀ y ∈ ys, Decodes content short p (word y) (val y)) :
    Decodes content short (repeated p ys.length) (ys.flatMap word) (ys.map val) := by
  induction ys with
  | nil => exact decodes_pure content short []
  | cons y ys ih =>
    have hrest := (ih fun y hy => h y (List.mem_cons_of_mem _ hy)).map (val y :: ·)
    rw [List.length_cons, repeated_succ, List.flatMap_cons]
    exact (h y List.mem_cons_self).bind hrest

/-- The first word that is rejected ends the reading. -/
theorem rejects_repeated {word : Y → List A} {val : Y → X} {ys : List Y}
    (h : ∀ y ∈ ys, Decodes content short p (word y) (val y) ∨ Rejects content p (word y) e)
    (hbad : ∃ y ∈ ys, Rejects content p (word y) e) :
    Rejects content (repeated p ys.length) (ys.flatMap word) e := by
  induction ys with
  | nil =>
    obtain ⟨y, hy, _⟩ := hbad
    cases hy
  | cons y ys ih =>
    rw [List.length_cons, repeated_succ, List.flatMap_cons]
    rcases h y List.mem_cons_self with hgood | hrej
    · by_cases hy : Rejects content p (word y) e
      · exact hy.bind.append _
      · apply hgood.bind_rejects
        rw [← bind_pure_comp]
        apply Rejects.bind
        apply ih fun y hy => h y (List.mem_cons_of_mem _ hy)
        obtain ⟨z, hz, hrej⟩ := hbad
        rcases List.mem_cons.mp hz with rfl | hmem
        · exact absurd hrej hy
        · exact ⟨z, hmem, hrej⟩
    · exact hrej.bind.append _

/-! ### Bytes of a number -/

/-- The first bytes of a number, from the least significant one on. -/
def toBytes : Nat → Nat → List UInt8
  | 0, _ => []
  | k + 1, n => UInt8.ofNat n :: toBytes k (n / 2 ^ 8)

def ofBytes : List UInt8 → Nat
  | [] => 0
  | b :: bs => b.toNat + 2 ^ 8 * ofBytes bs

theorem length_toBytes (k n : Nat) : (toBytes k n).length = k := by
  induction k generalizing n with
  | zero => rfl
  | succ k ih => rw [toBytes, List.length_cons, ih]

theorem ofBytes_toBytes {k n : Nat} (h : n < 2 ^ (8 * k)) : ofBytes (toBytes k n) = n := by
  induction k generalizing n with
  | zero =>
    have hzero : n = 0 := by simpa using h
    rw [hzero]
    rfl
  | succ k ih =>
    have hdiv : n / 2 ^ 8 < 2 ^ (8 * k) := by
      apply Nat.div_lt_of_lt_mul
      rw [← Nat.pow_add]
      exact h.trans_eq (congrArg _ (by omega))
    rw [toBytes, ofBytes, ih hdiv, UInt8.toNat_ofNat', Nat.mod_add_div]

/-- The bytes of a number in memory. -/
def image (littleEndian : Bool) (k n : Nat) : List UInt8 :=
  if littleEndian then toBytes k n else (toBytes k n).reverse

def ofImage (littleEndian : Bool) (bs : List UInt8) : Nat :=
  ofBytes (if littleEndian then bs else bs.reverse)

theorem length_image (littleEndian : Bool) (k n : Nat) : (image littleEndian k n).length = k := by
  cases littleEndian <;> simp [image, length_toBytes]

theorem ofImage_image (littleEndian : Bool) {k n : Nat} (h : n < 2 ^ (8 * k)) :
    ofImage littleEndian (image littleEndian k n) = n := by
  cases littleEndian <;> simp [image, ofImage, ofBytes_toBytes h]

end Decoding
