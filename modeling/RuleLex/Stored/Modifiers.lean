/-
The stored form of regular expression flags: the names of the declared flags
with bars between them, and any other bits as one hexadecimal number.
-/
import RuleLex.Stored.Basic
import RuleLex.Text.Blank
import RuleLex.Text.Digit
import RuleLex.Token.Modifiers

namespace RuleLex
namespace Modifiers

/-- The declared flags with their stored names. -/
def declared : List (String × Modifiers) :=
  [("CASE_INSENSITIVE", caseInsensitive), ("DOT_MATCHES_NEWLINE", dotMatchesNewline)]

/-- Digits of a number in the base sixteen, in lower case. -/
def hexText (bits : UInt8) : List Char :=
  if bits.toNat < 16 then [Ascii.hexDigit bits.toNat] else Ascii.hexPair bits

/-- The bits that are no declared flag. -/
def undeclared (m : Modifiers) : UInt8 := m.bits &&& 0xFC

/-- The stored text of a set of flags. -/
def stored (m : Modifiers) : String :=
  let names := (declared.filter fun d => m.contains d.2).map Prod.fst
  let other :=
    if m.undeclared = 0 then [] else [String.ofList ('0' :: 'x' :: hexText m.undeclared)]
  String.intercalate " | " (names ++ other)

/-- A byte in hexadecimal, with an optional plus sign. -/
def hexByte? (cs : List Char) : Option UInt8 :=
  let digits := if cs.head? = some '+' then cs.tail else cs
  if digits = [] then none
  else
    match digits.mapM Text.hexValue? with
    | some values =>
      let n := values.foldl (fun n v => n * 16 + v) 0
      if n < 256 then some n.toUInt8 else none
    | none => none

/-- One part of a stored text. -/
def part? (cs : List Char) : Option Modifiers :=
  match cs with
  | '0' :: 'x' :: digits => (hexByte? digits).map fun bits => { bits := bits }
  | _ => declared.lookup (String.ofList cs)

/-- The flags of a stored text.  A blank text has none; otherwise every part has
to name something. -/
def ofStored? (s : String) : Option Modifiers :=
  if Text.trim s.toList = [] then some empty
  else
    ((Text.parts '|' s.toList).map Text.trim).foldlM
      (fun m part => (part? part).map m.union) empty

end Modifiers

instance : Stored Modifiers where
  toJson m := .string m.stored
  ofJson?
    | .string s => Modifiers.ofStored? s
    | _ => none

end RuleLex
