import Mathlib.Algebra.Order.Field.Rat
import Mathlib.Data.Int.Bitwise
import Mathlib.Tactic.NormNum
import Mathlib.Tactic.Ring

/-!
# Binary floating-point numbers

A finite number is an odd multiple of a power of two that fits its format, so equal numbers have
equal representations. Conversions round to nearest, ties to even; conversions to integers
truncate and saturate.
-/

namespace BinaryFloat

set_option autoImplicit false

/-- Mantissas have `precision` bits, the last one is worth at least `2 ^ minExponent`, and
absolute values stay below `2 ^ maxExponent`. -/
structure Format where
  precision : Nat
  minExponent : Int
  maxExponent : Int

def binary32 : Format := ⟨24, -149, 128⟩

def binary64 : Format := ⟨53, -1074, 1024⟩

/-- `m * 2 ^ e` is a number of the format, in lowest terms. -/
structure Format.Fits (F : Format) (m e : Int) : Prop where
  odd : m % 2 = 1
  bits : m.natAbs < 2 ^ F.precision
  above : F.minExponent ≤ e
  below : m.natAbs.log2 + 1 + e ≤ F.maxExponent

instance (F : Format) (m e : Int) : Decidable (F.Fits m e) :=
  decidable_of_iff (m % 2 = 1 ∧ m.natAbs < 2 ^ F.precision ∧ F.minExponent ≤ e ∧
      m.natAbs.log2 + 1 + e ≤ F.maxExponent)
    ⟨fun ⟨h₁, h₂, h₃, h₄⟩ => ⟨h₁, h₂, h₃, h₄⟩, fun h => ⟨h.odd, h.bits, h.above, h.below⟩⟩

structure Format.Within (F G : Format) : Prop where
  precision : F.precision ≤ G.precision
  minExponent : G.minExponent ≤ F.minExponent
  maxExponent : F.maxExponent ≤ G.maxExponent

theorem Format.Fits.mono {F G : Format} {m e : Int} (h : F.Fits m e) (hFG : F.Within G) :
    G.Fits m e where
  odd := h.odd
  bits := lt_of_lt_of_le h.bits (Nat.pow_le_pow_right (by decide) hFG.precision)
  above := hFG.minExponent.trans h.above
  below := h.below.trans hFG.maxExponent

theorem binary32_within_binary64 : binary32.Within binary64 := ⟨by decide, by decide, by decide⟩

inductive Number (F : Format) where
  | nan
  | inf (negative : Bool)
  | zero (negative : Bool)
  | finite (m e : Int) (fits : F.Fits m e)
  deriving DecidableEq

namespace Number
variable {F G : Format}

/-- The comparison of IEEE 754. -/
def ieeeEq : Number F → Number F → Bool
  | nan, _ => false
  | _, nan => false
  | zero _, zero _ => true
  | x, y => x = y

def value : Number F → Option ℚ
  | nan => none
  | inf _ => none
  | zero _ => some 0
  | finite m e _ => some (m * 2 ^ e)

def Exact (F : Format) (i : Int) : Prop := ∃ x : Number F, x.value = some (i : ℚ)

def lowest (m e : Int) : Int × Int := (m / 2 ^ m.trailingZeros, e + m.trailingZeros)

/-- The integer nearest to `m / 2 ^ s`, the even one of two. -/
def nearestEven (m : Int) (s : Nat) : Int :=
  let q := m / 2 ^ s
  let r := m % 2 ^ s
  if 2 * r < 2 ^ s then q
  else if 2 ^ s < 2 * r then q + 1
  else if q % 2 = 0 then q else q + 1

/-- The number `m * 2 ^ e`, whose mantissa has no bit too many. -/
def pack (F : Format) (negative : Bool) (m e : Int) : Number F :=
  if m = 0 then zero negative
  else
    let p := lowest m e
    if h : F.Fits p.1 p.2 then finite p.1 p.2 h else inf negative

def round (F : Format) (m e : Int) : Number F :=
  let p := lowest m e
  if h : F.Fits p.1 p.2 then finite p.1 p.2 h
  else
    let last := max p.2 (max F.minExponent (p.1.natAbs.log2 + 1 + p.2 - F.precision))
    pack F (m < 0) (nearestEven p.1 (last - p.2).toNat) last

def ofInt (F : Format) (i : Int) : Number F := if i = 0 then zero false else round F i 0

def convert (G : Format) : Number F → Number G
  | nan => nan
  | inf negative => inf negative
  | zero negative => zero negative
  | finite m e _ => round G m e

def truncate (m e : Int) : Int := if 0 ≤ e then m * 2 ^ e.toNat else m.tdiv (2 ^ (-e).toNat)

/-- Not a number becomes 0, and what lies outside of `lo..hi` the bound it passed. -/
def toInt (lo hi : Int) : Number F → Int
  | nan => 0
  | inf negative => if negative then lo else hi
  | zero _ => 0
  | finite m e _ => max lo (min hi (truncate m e))

theorem ieeeEq_self_iff (x : Number F) : x.ieeeEq x = true ↔ x ≠ nan := by
  cases x <;> simp [ieeeEq]

theorem lowest_of_odd {m : Int} (h : m % 2 = 1) (e : Int) : lowest m e = (m, e) := by
  simp [lowest, Int.trailingZeros_eq_zero_of_mod_eq h]

theorem ne_zero_of_odd {m : Int} (h : m % 2 = 1) : m ≠ 0 := by
  rintro rfl
  simp at h

theorem lowest_mul_two_pow {m : Int} (h : m % 2 = 1) (k : Nat) :
    lowest (m * 2 ^ k) 0 = (m, (k : Int)) := by
  have htz : (m * 2 ^ k).trailingZeros = k := by
    rw [← Int.shiftLeft_eq, Int.trailingZeros_shiftLeft (ne_zero_of_odd h),
      Int.trailingZeros_eq_zero_of_mod_eq h, Nat.zero_add]
  simp [lowest, htz]

theorem exists_odd_mul_two_pow {i : Int} (hi : i ≠ 0) :
    ∃ m : Int, ∃ k : Nat, m % 2 = 1 ∧ i = m * 2 ^ k := by
  refine ⟨i / 2 ^ i.trailingZeros, i.trailingZeros, ?_, ?_⟩
  · simpa [Int.shiftRight_eq_div_pow] using Int.shiftRight_trailingZeros_mod_two hi
  · exact (Int.ediv_mul_cancel (Int.two_pow_trailingZeros_dvd hi)).symm

theorem round_of_fits {m e : Int} (h : F.Fits m e) : round F m e = finite m e h := by
  have hp := lowest_of_odd h.odd e
  simp [round, hp, h]

theorem round_mul_two_pow {m : Int} {k : Nat} (h : F.Fits m k) :
    round F (m * 2 ^ k) 0 = finite m k h := by
  have hp := lowest_mul_two_pow h.odd k
  simp [round, hp, h]

theorem convert_finite {m e : Int} (hF : F.Fits m e) (hG : G.Fits m e) :
    convert G (finite m e hF) = finite m e hG := round_of_fits hG

theorem convert_convert {F G : Format} (h : F.Within G) (x : Number F) :
    convert F (convert G x) = x := by
  cases x with
  | nan | inf | zero => rfl
  | finite m e fits => rw [convert_finite fits (fits.mono h), convert_finite (fits.mono h) fits]

theorem exact_zero : Exact F 0 := ⟨zero false, by simp [value]⟩

theorem exact_of_fits {m : Int} {k : Nat} (h : F.Fits m k) : Exact F (m * 2 ^ k) :=
  ⟨finite m k h, by simp [value]⟩

/-- A finite number whose value is an integer has no digits after the point. -/
theorem exponent_of_value {m e i : Int} (fits : F.Fits m e)
    (h : (finite m e fits).value = some (i : ℚ)) : ∃ k : Nat, e = k ∧ m * 2 ^ k = i := by
  simp only [value, Option.some.injEq] at h
  cases e with
  | ofNat k =>
    rw [Int.ofNat_eq_natCast, zpow_natCast] at h
    exact ⟨k, rfl, by exact_mod_cast h⟩
  | negSucc k =>
    have hm : m = i * 2 ^ (k + 1) := by
      rw [zpow_negSucc, mul_inv_eq_iff_eq_mul₀ (by positivity)] at h
      exact_mod_cast h
    have hodd := fits.odd
    rw [hm, pow_succ, ← mul_assoc] at hodd
    simp at hodd

theorem Exact.fits {i : Int} (h : Exact F i) (hi : i ≠ 0) :
    ∃ m : Int, ∃ k : Nat, i = m * 2 ^ k ∧ F.Fits m k := by
  obtain ⟨x, hx⟩ := h
  cases x with
  | nan | inf => simp [value] at hx
  | zero =>
    simp only [value, Option.some.injEq] at hx
    exact absurd (by exact_mod_cast hx.symm) hi
  | finite m e fits =>
    obtain ⟨k, rfl, hk⟩ := exponent_of_value fits hx
    exact ⟨m, k, hk.symm, fits⟩

theorem ofInt_mul_two_pow {m : Int} {k : Nat} (h : F.Fits m k) :
    ofInt F (m * 2 ^ k) = finite m k h := by
  have hne : m * 2 ^ k ≠ 0 := mul_ne_zero (ne_zero_of_odd h.odd) (by positivity)
  rw [ofInt, if_neg hne, round_mul_two_pow h]

theorem toInt_ofInt {i lo hi : Int} (h : Exact F i) (hlo : lo ≤ i) (hhi : i ≤ hi) :
    (ofInt F i).toInt lo hi = i := by
  by_cases h0 : i = 0
  · simp [h0, ofInt, toInt]
  · obtain ⟨m, k, rfl, fits⟩ := h.fits h0
    rw [ofInt_mul_two_pow fits]
    simp [toInt, truncate, hlo, hhi]

theorem truncate_of_value {m e i : Int} (fits : F.Fits m e)
    (h : (finite m e fits).value = some (i : ℚ)) : truncate m e = i := by
  obtain ⟨k, rfl, hi⟩ := exponent_of_value fits h
  simpa [truncate] using hi

/-- Integers with no more bits than a mantissa are all exact. -/
theorem exact_of_natAbs_lt {i : Int} (hi : i.natAbs < 2 ^ F.precision)
    (hmin : F.minExponent ≤ 0) (hmax : F.precision ≤ F.maxExponent) : Exact F i := by
  by_cases h0 : i = 0
  · exact h0 ▸ exact_zero
  · obtain ⟨m, k, hodd, rfl⟩ := exists_odd_mul_two_pow h0
    have hm : m.natAbs ≠ 0 := Int.natAbs_ne_zero.mpr (ne_zero_of_odd hodd)
    rw [Int.natAbs_mul, Int.natAbs_pow] at hi
    have hlog : m.natAbs.log2 + k < F.precision := by
      have hle := Nat.log2_self_le hm
      have hpow : 2 ^ (m.natAbs.log2 + k) < 2 ^ F.precision := by
        rw [pow_add]
        exact lt_of_le_of_lt (Nat.mul_le_mul_right _ hle) hi
      exact (Nat.pow_lt_pow_iff_right (by decide)).mp hpow
    exact exact_of_fits
      { odd := hodd
        bits := lt_of_le_of_lt (Nat.le_mul_of_pos_right _ (by positivity)) hi
        above := by omega
        below := by omega }

end Number
end BinaryFloat
