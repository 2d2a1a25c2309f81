/-
Text from bytes and bytes from text, by UTF-8.

`chars` reads any bytes.  Where they are no UTF-8 it writes one replacement
character for each maximal subpart that starts a character without finishing
one, or for a byte that starts none, and goes on with the next byte.

The ranges are those of the well-formed byte sequences: the second byte is
narrowed after E0, ED, F0 and F4, which excludes overlong forms, surrogates and
values past the last code point.
-/

namespace RuleLex
namespace Text

/-- Stands for bytes that are no character. -/
def replacement : Char := Char.ofNat 0xFFFD

/-- A byte that continues a character. -/
def isTail (b : UInt8) : Bool := 0x80 ≤ b && b ≤ 0xBF

/-- The second bytes that may follow the first byte of a three byte character. -/
def isSecondOfThree (first second : UInt8) : Bool :=
  if first = 0xE0 then 0xA0 ≤ second && second ≤ 0xBF
  else if first = 0xED then 0x80 ≤ second && second ≤ 0x9F
  else isTail second

/-- The second bytes that may follow the first byte of a four byte character. -/
def isSecondOfFour (first second : UInt8) : Bool :=
  if first = 0xF0 then 0x90 ≤ second && second ≤ 0xBF
  else if first = 0xF4 then 0x80 ≤ second && second ≤ 0x8F
  else isTail second

/-- The six payload bits of a tail byte. -/
def tailBits (b : UInt8) : Nat := b.toNat % 64

/-- The first character of some bytes with its length, or nothing with the
length of the subpart that is in its place. -/
def first (b : UInt8) (rest : List UInt8) : Option Char × Nat :=
  if b < 0x80 then (some (Char.ofNat b.toNat), 1)
  else if 0xC2 ≤ b && b ≤ 0xDF then
    match rest with
    | c :: _ =>
      if isTail c then (some (Char.ofNat (b.toNat % 32 * 64 + tailBits c)), 2) else (none, 1)
    | [] => (none, 1)
  else if 0xE0 ≤ b && b ≤ 0xEF then
    match rest with
    | c :: d :: _ =>
      if isSecondOfThree b c then
        if isTail d then
          (some (Char.ofNat ((b.toNat % 16 * 64 + tailBits c) * 64 + tailBits d)), 3)
        else (none, 2)
      else (none, 1)
    | [c] => (none, if isSecondOfThree b c then 2 else 1)
    | [] => (none, 1)
  else if 0xF0 ≤ b && b ≤ 0xF4 then
    match rest with
    | c :: d :: e :: _ =>
      if isSecondOfFour b c then
        if isTail d then
          if isTail e then
            (some (Char.ofNat
              (((b.toNat % 8 * 64 + tailBits c) * 64 + tailBits d) * 64 + tailBits e)), 4)
          else (none, 3)
        else (none, 2)
      else (none, 1)
    | [c, d] => (none, if isSecondOfFour b c then if isTail d then 3 else 2 else 1)
    | [c] => (none, if isSecondOfFour b c then 2 else 1)
    | [] => (none, 1)
  else (none, 1)

/-- Reads characters off some bytes.  The first argument counts the bytes that
still belong to the last one. -/
def charsAfter : Nat → List UInt8 → List Char
  | _, [] => []
  | skip + 1, _ :: rest => charsAfter skip rest
  | 0, b :: rest =>
    let (c, length) := first b rest
    c.getD replacement :: charsAfter (length - 1) rest

/-- The characters of some bytes, with replacements where they are no UTF-8. -/
def chars (bs : List UInt8) : List Char := charsAfter 0 bs

/-- The text of some bytes, with replacements where they are no UTF-8. -/
def ofBytes (bs : List UInt8) : String := String.ofList (chars bs)

/-- The bytes of a list of characters. -/
def encode (cs : List Char) : List UInt8 := cs.flatMap String.utf8EncodeChar

/-- The bytes of a text. -/
def toBytes (s : String) : List UInt8 := encode s.toList

/-- Whether some bytes are the UTF-8 form of a text. -/
def isUtf8 (bs : List UInt8) : Bool := encode (chars bs) == bs

end Text
end RuleLex
