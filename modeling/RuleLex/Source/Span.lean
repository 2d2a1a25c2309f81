/-
Stretches of rule source.

A span runs from `start` up to but not including `stop`.  `join` covers two
spans with one; where both begin or both end at the same offset it keeps the
end of the first.
-/
import RuleLex.Source.Position

namespace RuleLex

/-- A stretch of source between two places. -/
structure Span where
  start : Position
  stop : Position
deriving DecidableEq, Repr, Inhabited

namespace Span

/-- The span of no bytes at a place. -/
def emptyAt (p : Position) : Span := { start := p, stop := p }

/-- The span from the earlier start to the later stop. -/
def join (a b : Span) : Span :=
  { start := if a.start.offset ≤ b.start.offset then a.start else b.start,
    stop := if b.stop.offset ≤ a.stop.offset then a.stop else b.stop }

/-- The number of bytes covered. -/
def length (s : Span) : Nat := s.stop.offset - s.start.offset

def isEmpty (s : Span) : Bool := s.start.offset == s.stop.offset

/-- The bytes covered, when the source reaches that far. -/
def slice? (s : Span) (source : List UInt8) : Option (List UInt8) :=
  if s.start.offset ≤ s.stop.offset ∧ s.stop.offset ≤ source.length then
    some ((source.drop s.start.offset).take s.length)
  else none

/-- A span on one line shows the line once. -/
def text (s : Span) : String :=
  if s.start.line = s.stop.line then s!"{s.start.line}:{s.start.column}-{s.stop.column}"
  else s!"{s.start.text}-{s.stop.text}"

end Span
end RuleLex
