/-
UTF-8 there and back.

The bytes of a text are read as its characters, `chars_encode`, so reading bytes
and writing them again changes nothing exactly when they are the UTF-8 form of
some text, `isUtf8_iff`.  Over ASCII the form is a byte for each character.
-/
import RuleLex.Proofs.Text
import RuleLex.Text.Utf8

namespace RuleLex
namespace Text

/-! ## Bytes of one character -/

section Bytes

variable {b c d e : UInt8} (rest : List UInt8)

theorem first_one (h : b.toNat < 0x80) : first b rest = (some (Char.ofNat b.toNat), 1) := by
  have one : b < 0x80 := UInt8.lt_iff_toNat_lt.2 h
  unfold first
  rw [if_pos one]

theorem first_two (low : 0xC2 ≤ b.toNat) (high : b.toNat ≤ 0xDF) (hc : isTail c = true) :
    first b (c :: rest) = (some (Char.ofNat (b.toNat % 32 * 64 + tailBits c)), 2) := by
  have one : ¬ b < 0x80 := fun h => by
    have : b.toNat < 0x80 := UInt8.lt_iff_toNat_lt.1 h
    omega
  have two : (0xC2 ≤ b && b ≤ 0xDF) = true := by
    rw [Bool.and_eq_true, decide_eq_true_eq, decide_eq_true_eq]
    exact ⟨UInt8.le_iff_toNat_le.2 low, UInt8.le_iff_toNat_le.2 high⟩
  unfold first
  rw [if_neg one, if_pos two]
  simp only [if_pos hc]

theorem first_three (low : 0xE0 ≤ b.toNat) (high : b.toNat ≤ 0xEF)
    (hc : isSecondOfThree b c = true) (hd : isTail d = true) :
    first b (c :: d :: rest) =
      (some (Char.ofNat ((b.toNat % 16 * 64 + tailBits c) * 64 + tailBits d)), 3) := by
  have one : ¬ b < 0x80 := fun h => by
    have : b.toNat < 0x80 := UInt8.lt_iff_toNat_lt.1 h
    omega
  have two : ¬ (0xC2 ≤ b && b ≤ 0xDF) = true := fun h => by
    rw [Bool.and_eq_true, decide_eq_true_eq, decide_eq_true_eq] at h
    have : b.toNat ≤ 0xDF := UInt8.le_iff_toNat_le.1 h.2
    omega
  have three : (0xE0 ≤ b && b ≤ 0xEF) = true := by
    rw [Bool.and_eq_true, decide_eq_true_eq, decide_eq_true_eq]
    exact ⟨UInt8.le_iff_toNat_le.2 low, UInt8.le_iff_toNat_le.2 high⟩
  unfold first
  rw [if_neg one, if_neg two, if_pos three]
  simp only [if_pos hc, if_pos hd]

theorem first_four (low : 0xF0 ≤ b.toNat) (high : b.toNat ≤ 0xF4)
    (hc : isSecondOfFour b c = true) (hd : isTail d = true) (he : isTail e = true) :
    first b (c :: d :: e :: rest) =
      (some (Char.ofNat (((b.toNat % 8 * 64 + tailBits c) * 64 + tailBits d) * 64 + tailBits e)),
        4) := by
  have one : ¬ b < 0x80 := fun h => by
    have : b.toNat < 0x80 := UInt8.lt_iff_toNat_lt.1 h
    omega
  have two : ¬ (0xC2 ≤ b && b ≤ 0xDF) = true := fun h => by
    rw [Bool.and_eq_true, decide_eq_true_eq, decide_eq_true_eq] at h
    have : b.toNat ≤ 0xDF := UInt8.le_iff_toNat_le.1 h.2
    omega
  have three : ¬ (0xE0 ≤ b && b ≤ 0xEF) = true := fun h => by
    rw [Bool.and_eq_true, decide_eq_true_eq, decide_eq_true_eq] at h
    have : b.toNat ≤ 0xEF := UInt8.le_iff_toNat_le.1 h.2
    omega
  have four : (0xF0 ≤ b && b ≤ 0xF4) = true := by
    rw [Bool.and_eq_true, decide_eq_true_eq, decide_eq_true_eq]
    exact ⟨UInt8.le_iff_toNat_le.2 low, UInt8.le_iff_toNat_le.2 high⟩
  unfold first
  rw [if_neg one, if_neg two, if_neg three, if_pos four]
  simp only [if_pos hc, if_pos hd, if_pos he]

end Bytes

theorem toNat_byte {n : Nat} (h : n < 256) : (UInt8.ofNat n).toNat = n :=
  UInt8.toNat_ofNat_of_lt' h

theorem isTail_byte {n : Nat} (h : n < 64) : isTail (UInt8.ofNat (n + 0x80)) = true := by
  have value := toNat_byte (n := n + 0x80) (by omega)
  rw [isTail, Bool.and_eq_true, decide_eq_true_eq, decide_eq_true_eq, UInt8.le_iff_toNat_le,
    UInt8.le_iff_toNat_le, value]
  constructor
  · exact Nat.le_add_left _ _
  · show n + 0x80 ≤ 0xBF
    omega

theorem tailBits_byte {n : Nat} (h : n < 64) : tailBits (UInt8.ofNat (n + 0x80)) = n := by
  rw [tailBits, toNat_byte (by omega)]
  omega

theorem isSecondOfThree_byte {m n : Nat} (hm : m < 16) (hn : n < 64) (overlong : m = 0 → 32 ≤ n)
    (surrogate : m = 13 → n < 32) :
    isSecondOfThree (UInt8.ofNat (m + 0xE0)) (UInt8.ofNat (n + 0x80)) = true := by
  have lead := toNat_byte (n := m + 0xE0) (by omega)
  have second := toNat_byte (n := n + 0x80) (by omega)
  unfold isSecondOfThree
  split
  · rename_i h
    have zero : m = 0 := by
      rw [h] at lead
      exact Nat.add_right_cancel (lead.symm.trans (Nat.zero_add 0xE0).symm)
    have := overlong zero
    rw [Bool.and_eq_true, decide_eq_true_eq, decide_eq_true_eq, UInt8.le_iff_toNat_le,
      UInt8.le_iff_toNat_le, second]
    exact ⟨show 0xA0 ≤ n + 0x80 by omega, show n + 0x80 ≤ 0xBF by omega⟩
  · split
    · rename_i h
      have thirteen : m = 13 := by
        rw [h] at lead
        exact Nat.add_right_cancel (lead.symm.trans (rfl : 0xED = 13 + 0xE0))
      have := surrogate thirteen
      rw [Bool.and_eq_true, decide_eq_true_eq, decide_eq_true_eq, UInt8.le_iff_toNat_le,
        UInt8.le_iff_toNat_le, second]
      exact ⟨Nat.le_add_left _ _, show n + 0x80 ≤ 0x9F by omega⟩
    · exact isTail_byte hn

theorem isSecondOfFour_byte {m n : Nat} (hm : m < 8) (hn : n < 64) (overlong : m = 0 → 16 ≤ n)
    (last : m = 4 → n < 16) :
    isSecondOfFour (UInt8.ofNat (m + 0xF0)) (UInt8.ofNat (n + 0x80)) = true := by
  have lead := toNat_byte (n := m + 0xF0) (by omega)
  have second := toNat_byte (n := n + 0x80) (by omega)
  unfold isSecondOfFour
  split
  · rename_i h
    have zero : m = 0 := by
      rw [h] at lead
      exact Nat.add_right_cancel (lead.symm.trans (Nat.zero_add 0xF0).symm)
    have := overlong zero
    rw [Bool.and_eq_true, decide_eq_true_eq, decide_eq_true_eq, UInt8.le_iff_toNat_le,
      UInt8.le_iff_toNat_le, second]
    exact ⟨show 0x90 ≤ n + 0x80 by omega, show n + 0x80 ≤ 0xBF by omega⟩
  · split
    · rename_i h
      have four : m = 4 := by
        rw [h] at lead
        exact Nat.add_right_cancel (lead.symm.trans (rfl : 0xF4 = 4 + 0xF0))
      have := last four
      rw [Bool.and_eq_true, decide_eq_true_eq, decide_eq_true_eq, UInt8.le_iff_toNat_le,
        UInt8.le_iff_toNat_le, second]
      exact ⟨Nat.le_add_left _ _, show n + 0x80 ≤ 0x8F by omega⟩
    · exact isTail_byte hn

/-- The bytes of a character are read as that character. -/
theorem first_encodeChar (c : Char) (rest : List UInt8) :
    ∃ b tail, String.utf8EncodeChar c = b :: tail ∧
      first b (tail ++ rest) = (some c, tail.length + 1) := by
  have whole : Char.ofNat c.val.toNat = c := Char.ofNat_toNat c
  have valid : c.val.toNat < 0xD800 ∨ 0xDFFF < c.val.toNat ∧ c.val.toNat < 0x110000 := c.valid
  unfold String.utf8EncodeChar
  generalize c.val.toNat = v at whole valid
  simp only
  split
  · have lead := toNat_byte (n := v) (by omega)
    refine ⟨_, _, rfl, ?_⟩
    rw [first_one _ (by omega), lead, whole]
    rfl
  · split
    · have lead := toNat_byte (n := v / 64 % 0x20 + 0xC0) (by omega)
      have payload : (v / 64 % 0x20 + 0xC0) % 32 * 64 + v % 0x40 = v := by omega
      refine ⟨_, _, rfl, ?_⟩
      rw [List.cons_append, first_two _ (by omega) (by omega) (isTail_byte (by omega)), lead,
        tailBits_byte (by omega), payload, whole]
      rfl
    · split
      · have lead := toNat_byte (n := v / 4096 % 0x10 + 0xE0) (by omega)
        have payload :
            ((v / 4096 % 0x10 + 0xE0) % 16 * 64 + v / 64 % 0x40) * 64 + v % 0x40 = v := by omega
        refine ⟨_, _, rfl, ?_⟩
        rw [List.cons_append, List.cons_append, first_three _ (by omega) (by omega)
            (isSecondOfThree_byte (by omega) (by omega) (by omega) (by omega))
            (isTail_byte (by omega)), lead,
          tailBits_byte (by omega), tailBits_byte (by omega), payload, whole]
        rfl
      · have lead := toNat_byte (n := v / 262144 % 0x08 + 0xF0) (by omega)
        have payload : (((v / 262144 % 0x08 + 0xF0) % 8 * 64 + v / 4096 % 0x40) * 64 +
            v / 64 % 0x40) * 64 + v % 0x40 = v := by omega
        refine ⟨_, _, rfl, ?_⟩
        rw [List.cons_append, List.cons_append, List.cons_append,
          first_four _ (by omega) (by omega)
            (isSecondOfFour_byte (by omega) (by omega) (by omega) (by omega))
            (isTail_byte (by omega)) (isTail_byte (by omega)), lead,
          tailBits_byte (by omega), tailBits_byte (by omega), tailBits_byte (by omega), payload,
          whole]
        rfl

/-! ## Texts -/

theorem charsAfter_append (tail rest : List UInt8) :
    charsAfter tail.length (tail ++ rest) = charsAfter 0 rest := by
  induction tail with
  | nil => rfl
  | cons b tail ih => exact ih

theorem chars_encode (cs : List Char) : chars (encode cs) = cs := by
  induction cs with
  | nil => rfl
  | cons c cs ih =>
    obtain ⟨b, tail, hbytes, hfirst⟩ := first_encodeChar c (encode cs)
    have split : encode (c :: cs) = b :: (tail ++ encode cs) := by
      rw [encode, List.flatMap_cons, hbytes]
      rfl
    rw [split, chars, charsAfter, hfirst]
    simp only [Nat.add_sub_cancel, charsAfter_append]
    exact congrArg (c :: ·) ih

/-- Bytes are UTF-8 exactly when they are the bytes of some text. -/
theorem isUtf8_iff {bs : List UInt8} : isUtf8 bs = true ↔ ∃ s : String, toBytes s = bs := by
  rw [isUtf8, beq_iff_eq]
  constructor
  · intro h
    refine ⟨String.ofList (chars bs), ?_⟩
    rw [toBytes, String.toList_ofList, h]
  · rintro ⟨s, rfl⟩
    rw [toBytes, chars_encode]

theorem toBytes_ofBytes {bs : List UInt8} (h : isUtf8 bs = true) : toBytes (ofBytes bs) = bs := by
  rw [toBytes, ofBytes, String.toList_ofList]
  exact eq_of_beq h

theorem toBytes_append (s t : String) : toBytes (s ++ t) = toBytes s ++ toBytes t := by
  rw [toBytes, toBytes, toBytes, String.toList_append, encode, List.flatMap_append]
  rfl

/-- Over ASCII the bytes of a text are its characters. -/
theorem toBytes_eq_bytes {s : String} (h : ∀ c ∈ s.toList, c.toNat < 128) :
    toBytes s = Ascii.bytes s := by
  rw [toBytes, Ascii.bytes]
  generalize s.toList = cs at h
  induction cs with
  | nil => rfl
  | cons c cs ih =>
    obtain ⟨hc, hcs⟩ := List.forall_mem_cons.1 h
    have one : String.utf8EncodeChar c = [c.toNat.toUInt8] := by
      have small : c.val.toNat ≤ 0x7F := Nat.le_of_lt_succ hc
      rw [String.utf8EncodeChar, if_pos small]
      rfl
    rw [encode, List.flatMap_cons, one, List.map_cons]
    exact congrArg (c.toNat.toUInt8 :: ·) (ih hcs)

end Text
end RuleLex
