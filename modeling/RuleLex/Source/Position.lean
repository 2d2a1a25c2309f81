/-
Places in rule source.

A position counts bytes: `offset` from zero, `line` and `column` from one.  It
is always computed from the bytes before it, by `advance` one at a time, so the
offset alone decides the other two on a given source.

Lines and columns are counted without a bound here, where a program keeps them in
words of 32 bits.  On sources of fewer than `2 ^ 32 - 1` bytes the two are the same:
`Proofs/Checked/Safety` shows it with a lexer that counts in words.  On longer ones
nothing is said of words that have run over.
-/
import RuleLex.Ascii

namespace RuleLex

/-- A place between two bytes of the source. -/
structure Position where
  offset : Nat
  line : Nat
  column : Nat
deriving DecidableEq, Repr, Inhabited

namespace Position

/-- The place before the first byte. -/
def start : Position := { offset := 0, line := 1, column := 1 }

/-- The all-zero value, which is no place in any source. -/
def zero : Position := { offset := 0, line := 0, column := 0 }

/-- The place after one more byte. -/
def advance (p : Position) (b : UInt8) : Position :=
  if b = Ascii.newline then { offset := p.offset + 1, line := p.line + 1, column := 1 }
  else { offset := p.offset + 1, line := p.line, column := p.column + 1 }

/-- The place after a run of bytes. -/
def advanceBytes (p : Position) (bs : List UInt8) : Position := bs.foldl advance p

/-- Line and column, as diagnostics show a place. -/
def text (p : Position) : String := s!"{p.line}:{p.column}"

/-- Positions compare by offset, then line, then column. -/
def compare (p q : Position) : Ordering :=
  (Ord.compare p.offset q.offset).then
    ((Ord.compare p.line q.line).then (Ord.compare p.column q.column))

theorem advanceBytes_nil (p : Position) : p.advanceBytes [] = p := rfl

theorem advanceBytes_append (p : Position) (xs ys : List UInt8) :
    p.advanceBytes (xs ++ ys) = (p.advanceBytes xs).advanceBytes ys :=
  List.foldl_append

/-- Every byte moves the offset by one. -/
theorem offset_advance (p : Position) (b : UInt8) : (p.advance b).offset = p.offset + 1 := by
  unfold advance
  split <;> rfl

theorem offset_advanceBytes (p : Position) (bs : List UInt8) :
    (p.advanceBytes bs).offset = p.offset + bs.length := by
  induction bs generalizing p with
  | nil => rfl
  | cons b bs ih =>
    have step : p.advanceBytes (b :: bs) = (p.advance b).advanceBytes bs := rfl
    rw [step, ih, offset_advance, List.length_cons]
    omega

end Position
end RuleLex
