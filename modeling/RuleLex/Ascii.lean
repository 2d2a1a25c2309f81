/-
Bytes of rule source and the classes the lexer sorts them into.

Rule source is a list of bytes, not text: only the ASCII range has a meaning
outside literals and comments, so every class below is a set of ASCII bytes and
every byte from 0x80 on belongs to none of them.

`escape` writes one byte with printable ASCII only.  It is what keeps error
messages on a single printable line whatever bytes the source holds.
-/

namespace RuleLex
namespace Ascii

/-! ## Named bytes -/

abbrev tab : UInt8 := 0x09
abbrev newline : UInt8 := 0x0A
abbrev carriageReturn : UInt8 := 0x0D
abbrev space : UInt8 := 0x20
abbrev bang : UInt8 := 0x21
abbrev quote : UInt8 := 0x22
abbrev hash : UInt8 := 0x23
abbrev dollar : UInt8 := 0x24
abbrev apostrophe : UInt8 := 0x27
abbrev openParen : UInt8 := 0x28
abbrev closeParen : UInt8 := 0x29
abbrev star : UInt8 := 0x2A
abbrev minus : UInt8 := 0x2D
abbrev dot : UInt8 := 0x2E
abbrev slash : UInt8 := 0x2F
abbrev zero : UInt8 := 0x30
abbrev less : UInt8 := 0x3C
abbrev equals : UInt8 := 0x3D
abbrev greater : UInt8 := 0x3E
abbrev question : UInt8 := 0x3F
abbrev atSign : UInt8 := 0x40
abbrev upperB : UInt8 := 0x42
abbrev upperK : UInt8 := 0x4B
abbrev upperM : UInt8 := 0x4D
abbrev openBracket : UInt8 := 0x5B
abbrev backslash : UInt8 := 0x5C
abbrev closeBracket : UInt8 := 0x5D
abbrev underscore : UInt8 := 0x5F
abbrev lowerI : UInt8 := 0x69
abbrev lowerN : UInt8 := 0x6E
abbrev lowerO : UInt8 := 0x6F
abbrev lowerS : UInt8 := 0x73
abbrev lowerT : UInt8 := 0x74
abbrev lowerX : UInt8 := 0x78
abbrev openBrace : UInt8 := 0x7B
abbrev bar : UInt8 := 0x7C
abbrev closeBrace : UInt8 := 0x7D

/-! ## Classes -/

/-- Space, tab, carriage return and newline separate lexemes. -/
def isBlank (b : UInt8) : Bool :=
  b == space || b == tab || b == carriageReturn || b == newline

def isDigit (b : UInt8) : Bool := 0x30 ≤ b && b ≤ 0x39

def isOctalDigit (b : UInt8) : Bool := 0x30 ≤ b && b ≤ 0x37

def isUpper (b : UInt8) : Bool := 0x41 ≤ b && b ≤ 0x5A

def isLower (b : UInt8) : Bool := 0x61 ≤ b && b ≤ 0x7A

def isHexDigit (b : UInt8) : Bool :=
  isDigit b || (0x41 ≤ b && b ≤ 0x46) || (0x61 ≤ b && b ≤ 0x66)

/-- A word starts with a letter or an underscore. -/
def isWordStart (b : UInt8) : Bool := isUpper b || isLower b || b == underscore

/-- A word goes on with letters, digits and underscores. -/
def isWordByte (b : UInt8) : Bool := isWordStart b || isDigit b

/-- The bytes that may stand as a symbol of their own. -/
def isPrintable (b : UInt8) : Bool := 0x20 ≤ b && b ≤ 0x7E

/-- The value of a hexadecimal digit of either case.  Bytes that are no such
digit have the value zero; callers test `isHexDigit` first. -/
def hexValue (b : UInt8) : Nat :=
  if isDigit b then b.toNat - 0x30
  else if 0x41 ≤ b && b ≤ 0x46 then b.toNat - 0x37
  else if 0x61 ≤ b && b ≤ 0x66 then b.toNat - 0x57
  else 0

/-- The value of a run of digits in the given base, most significant first. -/
def numeral (base : Nat) (digits : List UInt8) : Nat :=
  digits.foldl (fun n b => n * base + hexValue b) 0

/-- The length of the longest head of the bytes in a class. -/
def runLength (test : UInt8 → Bool) (s : List UInt8) : Nat := (s.takeWhile test).length

/-- A run that starts at all has at least one byte. -/
theorem runLength_pos {test : UInt8 → Bool} {b : UInt8} {rest : List UInt8} (h : test b = true) :
    0 < runLength test (b :: rest) := by
  simp [runLength, h]

/-! ## Text in ASCII -/

/-- The bytes of a text that is known to be ASCII. -/
def bytes (s : String) : List UInt8 := s.toList.map fun c => c.toNat.toUInt8

/-- The text of bytes that are known to be ASCII. -/
def text (bs : List UInt8) : String := String.ofList (bs.map fun b => Char.ofNat b.toNat)

/-- One hexadecimal digit in lower case. -/
def hexDigit (n : Nat) : Char := Char.ofNat (if n < 10 then 0x30 + n else 0x57 + n)

/-- One hexadecimal digit in upper case. -/
def upperHexDigit (n : Nat) : Char := Char.ofNat (if n < 10 then 0x30 + n else 0x37 + n)

/-- Two hexadecimal digits in lower case. -/
def hexPair (b : UInt8) : List Char := [hexDigit (b.toNat / 16), hexDigit (b.toNat % 16)]

/-- A byte written with printable ASCII: the usual backslash forms, the byte
itself when it is printable, and a hexadecimal form for the rest. -/
def escape (b : UInt8) : String :=
  if b = tab then "\\t"
  else if b = carriageReturn then "\\r"
  else if b = newline then "\\n"
  else if b = apostrophe then "\\'"
  else if b = quote then "\\\""
  else if b = backslash then "\\\\"
  else if isPrintable b then String.ofList [Char.ofNat b.toNat]
  else String.ofList ('\\' :: 'x' :: hexPair b)

end Ascii
end RuleLex
