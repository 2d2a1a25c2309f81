/-
Where a byte pattern ends.

At an opening brace the lexer has to know whether a byte pattern starts there
and how far it goes, without reading its elements.  `extent?` answers with the
longest head of the text that is an opening brace, one or more items, and a
closing brace, where an item is a byte of the pattern alphabet, a line comment
or a block comment.

A line comment may stop anywhere, so the text alone does not say whether a brace
or a slash inside it still belongs to the comment.  The recognizer keeps every
reading that is still possible and lets the longest one win.
-/
import RuleLex.Ascii

namespace RuleLex
namespace Pattern

/-- The bytes that may stand in a pattern outside comments. -/
def isPatternByte (b : UInt8) : Bool :=
  Ascii.isHexDigit b || b == Ascii.minus || b == Ascii.bar || b == Ascii.question ||
    b == Ascii.openBracket || b == Ascii.closeBracket || b == Ascii.openParen ||
    b == Ascii.closeParen || Ascii.isBlank b

/-- The readings of the text so far that are still possible: just after the
opening brace, after an item, after the slash that begins a comment, in a line
comment, in a block comment, and after a star in a block comment. -/
structure Readings where
  atStart : Bool
  afterItem : Bool
  afterSlash : Bool
  inLine : Bool
  inBlock : Bool
  afterStar : Bool
deriving DecidableEq, Repr

namespace Readings

/-- After the opening brace. -/
def initial : Readings where
  atStart := true
  afterItem := false
  afterSlash := false
  inLine := false
  inBlock := false
  afterStar := false

/-- An item has just ended.  A line comment is an item wherever it stops. -/
def itemEnds (r : Readings) : Bool := r.afterItem || r.inLine

/-- An item may begin. -/
def itemBegins (r : Readings) : Bool := r.atStart || r.itemEnds

/-- The pattern may close here. -/
def closes (r : Readings) (b : UInt8) : Bool := r.itemEnds && b == Ascii.closeBrace

/-- The readings after one more byte. -/
def next (r : Readings) (b : UInt8) : Readings where
  atStart := false
  afterItem := (r.itemBegins && isPatternByte b) || (r.afterStar && b == Ascii.slash)
  afterSlash := r.itemBegins && b == Ascii.slash
  inLine := (r.afterSlash && b == Ascii.slash) || (r.inLine && b != Ascii.newline)
  inBlock :=
    (r.afterSlash && b == Ascii.star) || (r.inBlock && b != Ascii.star) ||
      (r.afterStar && b != Ascii.star && b != Ascii.slash)
  afterStar := (r.inBlock || r.afterStar) && b == Ascii.star

/-- No reading is left. -/
def isDead (r : Readings) : Bool :=
  !(r.atStart || r.afterItem || r.afterSlash || r.inLine || r.inBlock || r.afterStar)

end Readings

/-- Follows the readings through a text.  `length` counts the bytes before it
and `best` is the longest pattern found among them. -/
def extentFrom (r : Readings) (length : Nat) (best : Option Nat) : List UInt8 → Option Nat
  | [] => best
  | b :: rest =>
    let best := if r.closes b then some (length + 1) else best
    let r := r.next b
    if r.isDead then best else extentFrom r (length + 1) best rest

/-- The length of the longest byte pattern at the head of a text. -/
def extent? : List UInt8 → Option Nat
  | [] => none
  | b :: rest => if b = Ascii.openBrace then extentFrom .initial 1 none rest else none

end Pattern
end RuleLex
