/-
What can be wrong with a byte pattern.

A flaw names the place it was found at.  While a pattern is being read a place
is the text from there on, which needs no counting; in the answer it is an
offset into the pattern as it was handed over.  The type of places is therefore
a parameter.
-/
import RuleLex.Ascii
import RuleLex.Limits

namespace RuleLex
namespace Pattern

/-- A reason to refuse a byte pattern. -/
inductive Flaw (Place : Type) where
  | emptyPattern
  | incompleteByte (place : Place)
  | unexpectedCharacter (byte : UInt8) (place : Place)
  | unbalancedAlternation (place : Place)
  | emptyAlternative (place : Place)
  | malformedJump (place : Place)
  | invertedJumpRange (min max : UInt32) (place : Place)
  | jumpAtBoundary (place : Place)
  | nestingTooDeep (place : Place)
deriving DecidableEq, Repr

/-- A flaw as callers see it, at an offset into the text of the pattern. -/
abbrev Error := Flaw Nat

namespace Flaw

variable {Place Other : Type}

/-- The same flaw with its place told in another way. -/
def map (f : Place → Other) : Flaw Place → Flaw Other
  | .emptyPattern => .emptyPattern
  | .incompleteByte p => .incompleteByte (f p)
  | .unexpectedCharacter b p => .unexpectedCharacter b (f p)
  | .unbalancedAlternation p => .unbalancedAlternation (f p)
  | .emptyAlternative p => .emptyAlternative (f p)
  | .malformedJump p => .malformedJump (f p)
  | .invertedJumpRange min max p => .invertedJumpRange min max (f p)
  | .jumpAtBoundary p => .jumpAtBoundary (f p)
  | .nestingTooDeep p => .nestingTooDeep (f p)

/-- The place of the culprit.  A pattern with nothing in it has none. -/
def place? : Flaw Place → Option Place
  | .emptyPattern => none
  | .incompleteByte p | .unexpectedCharacter _ p | .unbalancedAlternation p
  | .emptyAlternative p | .malformedJump p | .invertedJumpRange _ _ p
  | .jumpAtBoundary p | .nestingTooDeep p => some p

/-- The name of the kind of flaw. -/
def name : Flaw Place → String
  | .emptyPattern => "EmptyPattern"
  | .incompleteByte _ => "IncompleteByte"
  | .unexpectedCharacter _ _ => "UnexpectedCharacter"
  | .unbalancedAlternation _ => "UnbalancedAlternation"
  | .emptyAlternative _ => "EmptyAlternative"
  | .malformedJump _ => "MalformedJump"
  | .invertedJumpRange _ _ _ => "InvertedJumpRange"
  | .jumpAtBoundary _ => "JumpAtBoundary"
  | .nestingTooDeep _ => "NestingTooDeep"

end Flaw

/-- The wording of a flaw. -/
def Flaw.message : Error → String
  | .emptyPattern => "byte pattern contains no elements"
  | .incompleteByte o => s!"incomplete byte at offset {o}: a byte needs two nibbles"
  | .unexpectedCharacter b o => s!"unexpected character '{Ascii.escape b}' at offset {o}"
  | .unbalancedAlternation o => s!"unbalanced alternation at offset {o}"
  | .emptyAlternative o => s!"empty alternative at offset {o}"
  | .malformedJump o => s!"malformed jump at offset {o}"
  | .invertedJumpRange min max o =>
    s!"inverted jump range [{min.toNat}-{max.toNat}] at offset {o}"
  | .jumpAtBoundary o => s!"jump at offset {o} cannot start or end a pattern"
  | .nestingTooDeep o =>
    s!"alternation at offset {o} nested deeper than {limits.maxNestingDepth} levels"

end Pattern
end RuleLex
