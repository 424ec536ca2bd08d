import JLua.Lib.Codecs

/-!
# Input streams

A stream gets its bytes in chunks from a reader. Where one chunk ends and the next one begins makes
no difference to what is read.
-/

namespace JLua.Streams

open Decoding
set_option autoImplicit false

/-- The bytes still unread, and the chunks that the reader has yet to give. After the last one it
gives NULL. -/
structure Zio where
  buff : List UInt8
  chunks : List (List UInt8)

/-- `luaZ_fill`: no byte stands for `EOZ`. -/
def luaZFill (z : Zio) : Option UInt8 × Zio :=
  match z.chunks with
  | [] => (none, z)
  | [] :: chunks => (none, { z with chunks })
  | (b :: bs) :: chunks => (some b, ⟨bs, chunks⟩)

def luaZLookahead (z : Zio) : Option UInt8 × Zio :=
  match z.buff with
  | b :: _ => (some b, z)
  | [] =>
    match luaZFill z with
    | (some b, z) => (some b, { z with buff := b :: z.buff })
    | (none, z) => (none, z)

def readLoop : Nat → Zio → Nat → List UInt8 × Nat × Zio
  | 0, z, n => ([], n, z)
  | rounds + 1, z, n =>
    if n = 0 then ([], 0, z)
    else
      match luaZLookahead z with
      | (none, z) => ([], n, z)
      | (some _, z) =>
        let m := min n z.buff.length
        let (bs, missing, z') := readLoop rounds { z with buff := z.buff.drop m } (n - m)
        (z.buff.take m ++ bs, missing, z')

/-- `luaZ_read`: the bytes, how many are missing, and the stream after them. Every round reads a
byte at least. -/
def luaZRead (z : Zio) (n : Nat) : List UInt8 × Nat × Zio := readLoop n z n

/-- What a reader gives before it gives an empty chunk. -/
def unread : List (List UInt8) → List UInt8
  | [] => []
  | [] :: _ => []
  | (b :: bs) :: chunks => b :: bs ++ unread chunks

def Zio.content (z : Zio) : List UInt8 := z.buff ++ unread z.chunks

variable {z z' : Zio} {n : Nat} {b : UInt8}

/-- Looking ahead makes sure of a byte, if there is one. -/
theorem luaZLookahead_cases (z : Zio) :
    (∃ z', luaZLookahead z = (none, z') ∧ z.content = []) ∨
      ∃ b bs z', luaZLookahead z = (some b, z') ∧ z'.buff = b :: bs ∧ z'.content = z.content := by
  obtain ⟨buff, chunks⟩ := z
  rcases buff with _ | ⟨b, bs⟩
  · rcases chunks with _ | ⟨chunk, chunks⟩
    · exact .inl ⟨_, rfl, rfl⟩
    · rcases chunk with _ | ⟨b, bs⟩
      · exact .inl ⟨_, rfl, rfl⟩
      · exact .inr ⟨b, bs, _, rfl, rfl, rfl⟩
  · exact .inr ⟨b, bs, _, rfl, rfl, rfl⟩

theorem readLoop_enough {rounds : Nat} {rest bs : List UInt8} (hn : bs.length = n)
    (hrounds : n ≤ rounds) (h : z.content = bs ++ rest) :
    ∃ z', readLoop rounds z n = (bs, 0, z') ∧ z'.content = rest := by
  induction rounds generalizing z n bs with
  | zero =>
    have hnil : bs = [] := List.eq_nil_of_length_eq_zero (by omega)
    subst hnil
    exact ⟨z, by rw [readLoop, ← hn]; rfl, h⟩
  | succ rounds ih =>
    rw [readLoop]
    by_cases hzero : n = 0
    · have hnil : bs = [] := List.eq_nil_of_length_eq_zero (by omega)
      subst hnil
      rw [if_pos hzero]
      exact ⟨z, rfl, h⟩
    · rw [if_neg hzero]
      rcases luaZLookahead_cases z with ⟨z', _, hnil⟩ | ⟨b, buff, z', hlook, hbuff, hcontent⟩
      · rw [hnil] at h
        have := congrArg List.length h
        simp only [List.length_nil, List.length_append] at this
        omega
      · rw [hlook]
        dsimp only
        set m := min n z'.buff.length with hm
        have hsplit : z'.buff ++ unread z'.chunks = bs ++ rest := hcontent.trans h
        have htake : bs.take m = z'.buff.take m := by
          have := congrArg (List.take m) hsplit
          rwa [List.take_append_of_le_length (by omega), List.take_append_of_le_length (by omega),
            eq_comm] at this
        have hdrop : z'.buff.drop m ++ unread z'.chunks = bs.drop m ++ rest := by
          have := congrArg (List.drop m) hsplit
          rwa [List.drop_append_of_le_length (by omega),
            List.drop_append_of_le_length (by omega)] at this
        have hpos : 0 < m := by
          rw [hm, hbuff, List.length_cons]
          omega
        obtain ⟨z'', hok, hrest⟩ := ih (z := { z' with buff := z'.buff.drop m }) (n := n - m)
          (by rw [List.length_drop, hn]) (by omega) hdrop
        refine ⟨z'', ?_, hrest⟩
        rw [hok, ← htake, List.take_append_drop]

theorem readLoop_missing {rounds : Nat} (hrounds : n ≤ rounds) (h : z.content.length < n) :
    (readLoop rounds z n).2.1 ≠ 0 := by
  induction rounds generalizing z n with
  | zero => omega
  | succ rounds ih =>
    rw [readLoop, if_neg (by omega)]
    rcases luaZLookahead_cases z with ⟨z', hlook, _⟩ | ⟨b, buff, z', hlook, hbuff, hcontent⟩
    · rw [hlook]
      dsimp only
      omega
    · rw [hlook]
      dsimp only
      have hpos : 0 < z'.buff.length := by rw [hbuff]; exact Nat.succ_pos _
      have hlen := congrArg List.length hcontent
      rw [Zio.content, List.length_append] at hlen
      apply ih (by omega)
      rw [Zio.content, List.length_append, List.length_drop]
      dsimp only
      omega

/-- Reading takes a prefix of the content, whatever its chunks are. -/
theorem luaZRead_enough {bs rest : List UInt8} (hn : bs.length = n) (h : z.content = bs ++ rest) :
    ∃ z', luaZRead z n = (bs, 0, z') ∧ z'.content = rest :=
  readLoop_enough hn le_rfl h

theorem luaZRead_missing (h : z.content.length < n) : (luaZRead z n).2.1 ≠ 0 :=
  readLoop_missing le_rfl h

end JLua.Streams
