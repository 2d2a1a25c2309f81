/-
Numeric literals.

Four forms compete at a digit and the longest wins: decimal digits with an
optional size suffix, digits with a point between them, and hexadecimal or
octal digits after their marks.  A form that is longest is taken whole even
when its value is refused.
-/
import RuleLex.Ascii
import RuleLex.Binary64.Nearest
import RuleLex.Lexer.Fault
import RuleLex.Token.Basic

namespace RuleLex
namespace Number

/-- A way to write a number.  A decimal has the multiplier of its suffix. -/
inductive Form where
  | decimal (multiplier : Nat)
  | float
  | hex
  | octal
deriving DecidableEq, Repr

/-- The multiplier of a size suffix at the head of the text. -/
def multiplier? : List UInt8 → Option Nat
  | a :: b :: _ =>
    if b = Ascii.upperB then
      if a = Ascii.upperK then some 1024
      else if a = Ascii.upperM then some (1024 * 1024)
      else none
    else none
  | _ => none

/-- The length of a form that needs digits after a mark, or zero without any. -/
def markedLength (before digits : Nat) : Nat := if digits = 0 then 0 else before + digits

/-- Digits, with the suffix if there is one. -/
def decimalCandidate (s : List UInt8) : Form × Nat :=
  let digits := Ascii.runLength Ascii.isDigit s
  match multiplier? (s.drop digits) with
  | some m => (.decimal m, digits + 2)
  | none => (.decimal 1, digits)

/-- Digits on both sides of a point. -/
def floatCandidate (s : List UInt8) : Form × Nat :=
  let whole := Ascii.runLength Ascii.isDigit s
  match s.drop whole with
  | [] => (.float, 0)
  | b :: rest =>
    if b = Ascii.dot then (.float, markedLength (whole + 1) (Ascii.runLength Ascii.isDigit rest))
    else (.float, 0)

/-- Digits of a class after a zero and a letter. -/
def radixCandidate (form : Form) (letter : UInt8) (test : UInt8 → Bool) : List UInt8 → Form × Nat
  | a :: b :: rest =>
    if a = Ascii.zero ∧ b = letter then (form, markedLength 2 (Ascii.runLength test rest))
    else (form, 0)
  | _ => (form, 0)

/-- Every form at the head of the text with its length; a form that does not
match has length zero. -/
def candidates (s : List UInt8) : List (Form × Nat) :=
  [floatCandidate s, radixCandidate .hex Ascii.lowerX Ascii.isHexDigit s,
   radixCandidate .octal Ascii.lowerO Ascii.isOctalDigit s]

/-- The longest form at the head of the text.  Of two equally long the earlier
one counts, and a decimal comes first. -/
def longest (s : List UInt8) : Form × Nat :=
  (candidates s).foldl (fun best c => if best.2 < c.2 then c else best) (decimalCandidate s)

/-- The integers a literal may have lie below this bound. -/
def bound : Nat := 0x8000000000000000

/-- An integer literal of the given value, if it is in range. -/
def integer (lexeme : List UInt8) (value : Nat) : Except Fault (Literal × TokenValue) :=
  if value < bound then .ok (.integer, .integer (Int64.ofNat value))
  else .error (.numberConversion lexeme)

/-- The value of a whole lexeme in a form. -/
def evaluate (form : Form) (lexeme : List UInt8) : Except Fault (Literal × TokenValue) :=
  match form with
  | .hex => integer lexeme (Ascii.numeral 16 (lexeme.drop 2))
  | .octal => integer lexeme (Ascii.numeral 8 (lexeme.drop 2))
  | .float =>
    let whole := lexeme.takeWhile Ascii.isDigit
    let places := (lexeme.dropWhile Ascii.isDigit).drop 1
    let x := Binary64.ofPointed whole places
    if x.isFinite then .ok (.float, .float x) else .error (.numberConversion lexeme)
  | .decimal multiplier =>
    let value := Ascii.numeral 10 (lexeme.takeWhile Ascii.isDigit)
    if bound ≤ value then .error (.numberConversion lexeme)
    else if (bound - 1) / multiplier < value then .error (.integerOverflow lexeme)
    else .ok (.integer, .integer (Int64.ofNat (value * multiplier)))

/-- The number at the head of the text: its literal form and value, or why it is
refused, and its length. -/
def scan (s : List UInt8) : Except Fault (Literal × TokenValue) × Nat :=
  let (form, length) := longest s
  (evaluate form (s.take length), length)

/-- No competing form makes the number shorter than its decimal reading. -/
theorem decimal_le_longest (s : List UInt8) : (decimalCandidate s).2 ≤ (longest s).2 := by
  simp only [longest, candidates, List.foldl_cons, List.foldl_nil]
  split <;> split <;> split <;> omega

/-- At a digit a number takes at least that digit. -/
theorem longest_pos {b : UInt8} {rest : List UInt8} (h : Ascii.isDigit b = true) :
    0 < (longest (b :: rest)).2 := by
  have := decimal_le_longest (b :: rest)
  have pos : 0 < Ascii.runLength Ascii.isDigit (b :: rest) := Ascii.runLength_pos h
  have dec : Ascii.runLength Ascii.isDigit (b :: rest) ≤ (decimalCandidate (b :: rest)).2 := by
    simp only [decimalCandidate]
    split <;> simp
  omega

end Number
end RuleLex
