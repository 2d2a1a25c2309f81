/-
The flags after a regular expression.

Flags are kept as one byte.  Two of its bits are declared: `i` for letters of
either case and `s` for a dot that also matches a newline.  A stored token may
carry other bits; they are kept and never shown as flags.
-/
import RuleLex.Ascii

namespace RuleLex

/-- A set of regular expression flags. -/
structure Modifiers where
  bits : UInt8
deriving DecidableEq, Repr, Inhabited

namespace Modifiers

def empty : Modifiers := { bits := 0 }

def caseInsensitive : Modifiers := { bits := 1 }

def dotMatchesNewline : Modifiers := { bits := 2 }

def union (a b : Modifiers) : Modifiers := { bits := a.bits ||| b.bits }

def contains (a b : Modifiers) : Bool := a.bits &&& b.bits == b.bits

/-- The flag of one byte after a regular expression. -/
def ofByte? (b : UInt8) : Option Modifiers :=
  if b = Ascii.lowerI then some caseInsensitive
  else if b = Ascii.lowerS then some dotMatchesNewline
  else none

/-- The declared flags in their order. -/
def text (m : Modifiers) : String :=
  (if m.contains caseInsensitive then "i" else "") ++
    (if m.contains dotMatchesNewline then "s" else "")

/-- The union of the flags of a run of bytes, or the first byte that is none. -/
def ofRun (run : List UInt8) : Except UInt8 Modifiers :=
  run.foldlM (fun m b =>
    match ofByte? b with
    | some flag => .ok (m.union flag)
    | none => .error b) empty

end Modifiers
end RuleLex
