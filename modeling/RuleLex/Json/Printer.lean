/-
JSON as text, without white space.

Strings escape the quote, the backslash and the control characters and nothing
else, so a printed value is a single line.  Five control characters have a
short form; the others are written with four hexadecimal digits.
-/
import RuleLex.Ascii
import RuleLex.Binary64.Shortest
import RuleLex.Json.Basic

namespace RuleLex
namespace Json

/-- One character inside a string. -/
def escapeChar (c : Char) : List Char :=
  if c = '"' then ['\\', '"']
  else if c = '\\' then ['\\', '\\']
  else if c = '\x08' then ['\\', 'b']
  else if c = '\x0c' then ['\\', 'f']
  else if c = '\n' then ['\\', 'n']
  else if c = '\r' then ['\\', 'r']
  else if c = '\t' then ['\\', 't']
  else if c.toNat < 0x20 then
    ['\\', 'u', '0', '0', Ascii.hexDigit (c.toNat / 16), Ascii.hexDigit (c.toNat % 16)]
  else [c]

/-- A string in quotes. -/
def stringChars (s : String) : List Char := '"' :: (s.toList.flatMap escapeChar ++ ['"'])

/-- A floating point number keeps a point, so that it reads back as one.  What
is not finite has no JSON form. -/
def floatChars (x : Binary64) : List Char :=
  if x.isFinite then
    let digits := x.magnitude
    let shown := if digits.contains '.' then digits else digits ++ ['.', '0']
    if x.isNegative then '-' :: shown else shown
  else ['n', 'u', 'l', 'l']

mutual

/-- The text of a value. -/
def chars : Json → List Char
  | .null => ['n', 'u', 'l', 'l']
  | .bool true => ['t', 'r', 'u', 'e']
  | .bool false => ['f', 'a', 'l', 's', 'e']
  | .integer n => (toString n).toList
  | .float x => floatChars x
  | .string s => stringChars s
  | .array items => '[' :: (itemsChars items ++ [']'])
  | .object members => '\x7b' :: (membersChars members ++ ['\x7d'])

/-- Items with commas between them. -/
def itemsChars : List Json → List Char
  | [] => []
  | [v] => v.chars
  | v :: w :: rest => v.chars ++ ',' :: itemsChars (w :: rest)

/-- Members with commas between them. -/
def membersChars : List (String × Json) → List Char
  | [] => []
  | [(name, v)] => stringChars name ++ ':' :: v.chars
  | (name, v) :: m :: rest =>
    stringChars name ++ ':' :: (v.chars ++ ',' :: membersChars (m :: rest))

end

/-- The text of a value. -/
def render (v : Json) : String := String.ofList v.chars

end Json
end RuleLex
