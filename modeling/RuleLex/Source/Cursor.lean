/-
A cursor over rule source.

A cursor takes the source one byte at a time.  It counts lines as they end and
keeps the offset at which the current one began; a column is worked out only
when the position is asked for.  `Position.advance` counts columns instead, and
`position_bump` says that the two never differ.

As in a `Position`, the line has no bound.  The lexer of `Proofs/Checked/Lexer` counts
lines and columns in 32 bits.
-/
import RuleLex.Source.Position

namespace RuleLex

/-- A place in the source and the line it is on. -/
structure Cursor where
  offset : Nat
  line : Nat
  lineStart : Nat
  lineStart_le : lineStart ≤ offset
deriving DecidableEq, Repr

namespace Cursor

/-- The cursor before the first byte. -/
def start : Cursor where
  offset := 0
  line := 1
  lineStart := 0
  lineStart_le := Nat.le_refl 0

/-- The cursor behind one more byte. -/
def bump (c : Cursor) (b : UInt8) : Cursor :=
  if b = Ascii.newline then
    { offset := c.offset + 1,
      line := c.line + 1,
      lineStart := c.offset + 1,
      lineStart_le := Nat.le_refl _ }
  else
    { offset := c.offset + 1,
      line := c.line,
      lineStart := c.lineStart,
      lineStart_le := Nat.le_succ_of_le c.lineStart_le }

/-- The cursor behind a run of bytes. -/
def bumpAll (c : Cursor) (bs : List UInt8) : Cursor := bs.foldl bump c

/-- The place of the cursor, its column counted from where the line began. -/
def position (c : Cursor) : Position where
  offset := c.offset
  line := c.line
  column := c.offset - c.lineStart + 1

theorem position_start : start.position = Position.start := rfl

theorem position_bump (c : Cursor) (b : UInt8) :
    (c.bump b).position = c.position.advance b := by
  unfold bump Position.advance
  by_cases hb : b = Ascii.newline
  · rw [if_pos hb, if_pos hb]
    simp only [position, Nat.sub_self]
  · rw [if_neg hb, if_neg hb]
    have column : c.offset + 1 - c.lineStart = c.offset - c.lineStart + 1 :=
      Nat.succ_sub c.lineStart_le
    simp only [position, column]

theorem position_bumpAll (c : Cursor) (bs : List UInt8) :
    (c.bumpAll bs).position = c.position.advanceBytes bs := by
  induction bs generalizing c with
  | nil => rfl
  | cons b bs ih =>
    show ((c.bump b).bumpAll bs).position = (c.position.advance b).advanceBytes bs
    rw [ih, position_bump]

end Cursor
end RuleLex
