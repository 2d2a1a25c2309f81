/-
The elements of a byte pattern.

A pattern such as `{ 4D 5A [2-4] (01 | ?? 02) }` is a sequence of bytes whose
halves may be left open, jumps over a number of bytes, and alternations of
sequences.  `render` writes a sequence the way rule source does.
-/
import RuleLex.Ascii

namespace RuleLex
namespace Pattern

/-- One half of a pattern byte. -/
inductive Nibble where
  | literal (value : UInt8)
  | wildcard
deriving DecidableEq, Repr, Inhabited

namespace Nibble

/-- The nibble that a byte of source stands for. -/
def ofByte? (b : UInt8) : Option Nibble :=
  if b = Ascii.question then some .wildcard
  else if Ascii.isHexDigit b then some (.literal (Ascii.hexValue b).toUInt8)
  else none

def admits : Nibble → UInt8 → Bool
  | .literal v, value => v == value
  | .wildcard, _ => true

/-- A nibble is one digit; a literal that is none is written with two. -/
def chars : Nibble → List Char
  | .literal v =>
    if v.toNat < 16 then [Ascii.upperHexDigit v.toNat]
    else [Ascii.upperHexDigit (v.toNat / 16), Ascii.upperHexDigit (v.toNat % 16)]
  | .wildcard => ['?']

end Nibble

/-- An element of a pattern.  A jump without `max` has no upper bound. -/
inductive Element where
  | byte (high low : Nibble)
  | alternation (alternatives : List (List Element))
  | jump (min : UInt32) (max : Option UInt32)
deriving Repr, Inhabited

namespace Element

/-- The element that fixes both halves of a byte. -/
def ofByte (value : UInt8) : Element :=
  .byte (.literal (value / 16)) (.literal (value % 16))

/-- The element that leaves a byte open. -/
def wildcard : Element := .byte .wildcard .wildcard

def isJump : Element → Bool
  | .jump _ _ => true
  | _ => false

/-- Whether a byte element admits a value.  Other elements admit none. -/
def admits : Element → UInt8 → Bool
  | .byte high low, value => high.admits (value / 16) && low.admits (value % 16)
  | _, _ => false

/-- A jump in brackets: one number when it is exact, no number for a bound that
is not there. -/
def jumpChars (min : UInt32) (max : Option UInt32) : List Char :=
  let low := (toString min.toNat).toList
  match max with
  | some m =>
    if m = min then '[' :: low ++ [']']
    else '[' :: low ++ '-' :: (toString m.toNat).toList ++ [']']
  | none => if min = 0 then ['[', '-', ']'] else '[' :: low ++ ['-', ']']

end Element

/-! ## Writing -/

mutual

/-- One element in rule source. -/
def Element.chars : Element → List Char
  | .byte high low => high.chars ++ low.chars
  | .alternation alternatives => '(' :: (alternativesChars alternatives ++ [')'])
  | .jump min max => Element.jumpChars min max

/-- The elements of a sequence, one space apart. -/
def sequenceChars : List Element → List Char
  | [] => []
  | [e] => e.chars
  | e :: f :: rest => e.chars ++ ' ' :: sequenceChars (f :: rest)

/-- The alternatives of an alternation, a spaced bar apart. -/
def alternativesChars : List (List Element) → List Char
  | [] => []
  | [s] => sequenceChars s
  | s :: t :: rest => sequenceChars s ++ ' ' :: '|' :: ' ' :: alternativesChars (t :: rest)

end

def Element.text (e : Element) : String := String.ofList e.chars

/-- A whole pattern in braces. -/
def renderChars (es : List Element) : List Char :=
  '\x7b' :: ' ' :: (sequenceChars es ++ [' ', '\x7d'])

def render (es : List Element) : String := String.ofList (renderChars es)

end Pattern
end RuleLex
