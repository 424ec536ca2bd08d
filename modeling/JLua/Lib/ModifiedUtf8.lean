import Mathlib.Data.List.TakeWhile

/-!
# Modified UTF-8

The encoding of UTF-16 strings that the Java native interface uses: unit by unit, with two
bytes for the unit 0, so that no encoded string contains a zero byte.
-/

namespace ModifiedUtf8

set_option autoImplicit false

def encodeUnit (u : UInt16) : List UInt8 :=
  let n := u.toNat
  if n ≠ 0 ∧ n < 0x80 then [UInt8.ofNat n]
  else if n < 0x800 then [UInt8.ofNat (0xC0 + n / 64), UInt8.ofNat (0x80 + n % 64)]
  else [UInt8.ofNat (0xE0 + n / 4096), UInt8.ofNat (0x80 + n / 64 % 64),
    UInt8.ofNat (0x80 + n % 64)]

def encode (s : List UInt16) : List UInt8 := s.flatMap encodeUnit

def decode : List UInt8 → List UInt16
  | [] => []
  | a :: rest =>
    if a.toNat < 0x80 then UInt16.ofNat a.toNat :: decode rest
    else match rest with
      | [] => []
      | b :: rest =>
        if a.toNat < 0xE0 then
          UInt16.ofNat ((a.toNat - 0xC0) * 64 + (b.toNat - 0x80)) :: decode rest
        else match rest with
          | [] => []
          | c :: rest =>
            UInt16.ofNat ((a.toNat - 0xE0) * 4096 + (b.toNat - 0x80) * 64 + (c.toNat - 0x80)) ::
              decode rest

theorem encodeUnit_cases (u : UInt16) :
    (∃ a : UInt8, encodeUnit u = [a] ∧ a.toNat = u.toNat ∧ 0 < a.toNat ∧ a.toNat < 0x80) ∨
    (∃ a b : UInt8, encodeUnit u = [a, b] ∧ 0xC0 ≤ a.toNat ∧ a.toNat < 0xE0 ∧ 0x80 ≤ b.toNat ∧
      (a.toNat - 0xC0) * 64 + (b.toNat - 0x80) = u.toNat) ∨
    (∃ a b c : UInt8, encodeUnit u = [a, b, c] ∧ 0xE0 ≤ a.toNat ∧ 0x80 ≤ b.toNat ∧
      0x80 ≤ c.toNat ∧
      (a.toNat - 0xE0) * 4096 + (b.toNat - 0x80) * 64 + (c.toNat - 0x80) = u.toNat) := by
  have hu := u.toNat_lt
  have byte : ∀ n : Nat, n < 256 → (UInt8.ofNat n).toNat = n := fun _ =>
    UInt8.toNat_ofNat_of_lt'
  simp only [encodeUnit]
  split
  · exact Or.inl ⟨_, rfl, by rw [byte _ (by omega)], by rw [byte _ (by omega)]; omega,
      by rw [byte _ (by omega)]; omega⟩
  · split
    · refine Or.inr (Or.inl ⟨_, _, rfl, ?_⟩)
      rw [byte _ (by omega), byte _ (by omega)]
      omega
    · refine Or.inr (Or.inr ⟨_, _, _, rfl, ?_⟩)
      rw [byte _ (by omega), byte _ (by omega), byte _ (by omega)]
      omega

theorem decode_encodeUnit_append (u : UInt16) (rest : List UInt8) :
    decode (encodeUnit u ++ rest) = u :: decode rest := by
  rcases encodeUnit_cases u with ⟨a, h, ha, _, _⟩ | ⟨a, b, h, _, hlt, _, hu⟩ |
    ⟨a, b, c, h, hge, _, _, hu⟩
  · have hlt : u.toNat < 0x80 := by omega
    rcases rest with _ | ⟨b, _ | ⟨c, rest⟩⟩ <;> simp [h, decode, hlt, ha]
  · have hge : ¬ a.toNat < 0x80 := by omega
    rcases rest with _ | ⟨c, rest⟩ <;> simp [h, decode, hlt, hge, hu]
  · have h₁ : ¬ a.toNat < 0x80 := by omega
    have h₂ : ¬ a.toNat < 0xE0 := by omega
    simp [h, decode, h₁, h₂, hu]

theorem decode_encode (s : List UInt16) : decode (encode s) = s := by
  induction s with
  | nil => rfl
  | cons u s ih =>
    rw [encode, List.flatMap_cons, decode_encodeUnit_append]
    exact congrArg (u :: ·) ih

theorem zero_notMem_encode (s : List UInt16) : (0 : UInt8) ∉ encode s := by
  intro h
  obtain ⟨u, _, hu⟩ := List.mem_flatMap.mp h
  rcases encodeUnit_cases u with ⟨a, he, _, ha, _⟩ | ⟨a, b, he, ha, _, hb, _⟩ |
    ⟨a, b, c, he, ha, hb, hc, _⟩ <;>
    rw [he] at hu <;>
    simp only [List.mem_cons, List.not_mem_nil, or_false] at hu <;>
    rcases hu with rfl | rfl | rfl <;>
    simp at *

/-- A C string ends at its first zero byte. -/
def cString (bytes : List UInt8) : List UInt8 := bytes.takeWhile (· ≠ 0)

theorem cString_eq_self {bytes : List UInt8} (h : (0 : UInt8) ∉ bytes) :
    cString bytes = bytes := by
  rw [cString, List.takeWhile_eq_self_iff]
  intro b hb
  simpa using fun h0 : b = 0 => h (h0 ▸ hb)

theorem cString_encode (s : List UInt16) : cString (encode s) = encode s :=
  cString_eq_self (zero_notMem_encode s)

end ModifiedUtf8
