/-
The pieces of a string or regular expression.

Inside a literal the lexer reads one piece at a time: a run of plain bytes, an
escape, the closing delimiter, or whatever breaks the literal.  Content is kept
as written; escapes are checked and never decoded.
-/
import RuleLex.Ascii
import RuleLex.Lexer.Lexeme
import RuleLex.Token.Modifiers

namespace RuleLex

/-- What stands at the head of the text inside a literal. -/
inductive Piece where
  | content
  | closing (modifiers : Modifiers)
  | badModifier (modifier : UInt8)
  | broken (fault : Fault)
  | exhausted
deriving Repr

namespace Piece

/-- The letters that may follow a backslash in a string, besides `x`. -/
def isSimpleEscape (b : UInt8) : Bool :=
  b == Ascii.lowerT || b == Ascii.lowerN || b == Ascii.quote || b == Ascii.backslash

/-- Two hexadecimal digits stand at the head of the text. -/
def startsWithHexPair : List UInt8 → Bool
  | a :: b :: _ => Ascii.isHexDigit a && Ascii.isHexDigit b
  | _ => false

/-- What follows a backslash in a string, and the length with the backslash. -/
def stringEscape : List UInt8 → Piece × Nat
  | [] => (.exhausted, 1)
  | b :: rest =>
    if isSimpleEscape b then (.content, 2)
    else if b = Ascii.lowerX ∧ startsWithHexPair rest then (.content, 4)
    else if b = Ascii.newline then (.broken .unterminatedString, 2)
    else (.broken (.illegalEscapeSequence b), 2)

/-- Bytes that stand for themselves in a string. -/
def isStringByte (b : UInt8) : Bool :=
  b != Ascii.quote && b != Ascii.backslash && b != Ascii.newline

/-- The piece at the head of a string, and its length. -/
def ofString : List UInt8 → Piece × Nat
  | [] => (.exhausted, 0)
  | b :: rest =>
    if b = Ascii.quote then (.closing .empty, 1)
    else if b = Ascii.newline then (.broken .unterminatedString, 1)
    else if b = Ascii.backslash then stringEscape rest
    else (.content, Ascii.runLength isStringByte (b :: rest))

/-- Bytes that stand for themselves in a regular expression. -/
def isRegexByte (b : UInt8) : Bool :=
  b != Ascii.slash && b != Ascii.backslash && b != Ascii.newline

/-- The closing slash with the whole run of word bytes behind it, which have to
be modifiers. -/
def regexClosing (rest : List UInt8) : Piece × Nat :=
  let run := rest.takeWhile Ascii.isWordByte
  match Modifiers.ofRun run with
  | .ok modifiers => (.closing modifiers, run.length + 1)
  | .error b => (.badModifier b, run.length + 1)

/-- What follows a backslash in a regular expression, and the length with the
backslash. -/
def regexEscape : List UInt8 → Piece × Nat
  | [] => (.exhausted, 1)
  | b :: _ => if b = Ascii.newline then (.broken .unterminatedRegex, 2) else (.content, 2)

/-- The piece at the head of a regular expression, and its length. -/
def ofRegex : List UInt8 → Piece × Nat
  | [] => (.exhausted, 0)
  | b :: rest =>
    if b = Ascii.slash then regexClosing rest
    else if b = Ascii.newline then (.broken .unterminatedRegex, 1)
    else if b = Ascii.backslash then regexEscape rest
    else (.content, Ascii.runLength isRegexByte (b :: rest))

/-- The piece at the head of a literal of some form, and its length. -/
def first (form : Quoted) (s : List UInt8) : Piece × Nat :=
  match form with
  | .string => ofString s
  | .regex => ofRegex s

/-- The fault of a literal that the source ends in. -/
def unterminated : Quoted → Fault
  | .string => .unterminatedString
  | .regex => .unterminatedRegex

/-- The kind and the payload of a closed literal. -/
def finish (form : Quoted) (content : List UInt8) (modifiers : Modifiers) : Literal × TokenValue :=
  match form with
  | .string => (.textString, .text content)
  | .regex => (.regex, .regex content modifiers)

/-! ## Every piece before the end takes a byte -/

theorem stringEscape_pos (s : List UInt8) : 0 < (stringEscape s).2 := by
  unfold stringEscape
  split
  · simp
  · split
    · simp
    · split
      · simp
      · split <;> simp

theorem regexEscape_pos (s : List UInt8) : 0 < (regexEscape s).2 := by
  unfold regexEscape
  split
  · simp
  · split <;> simp

theorem regexClosing_pos (s : List UInt8) : 0 < (regexClosing s).2 := by
  simp only [regexClosing]
  split <;> simp

theorem ofString_pos (b : UInt8) (rest : List UInt8) : 0 < (ofString (b :: rest)).2 := by
  simp only [ofString]
  split
  · simp
  · split
    · simp
    · split
      · exact stringEscape_pos rest
      · rename_i hq hn hb
        exact Ascii.runLength_pos (by simp [isStringByte, hq, hn, hb])

theorem ofRegex_pos (b : UInt8) (rest : List UInt8) : 0 < (ofRegex (b :: rest)).2 := by
  simp only [ofRegex]
  split
  · exact regexClosing_pos rest
  · split
    · simp
    · split
      · exact regexEscape_pos rest
      · rename_i hq hn hb
        exact Ascii.runLength_pos (by simp [isRegexByte, hq, hn, hb])

/-- A piece takes at least one byte, except at the end of the source. -/
theorem first_pos {form : Quoted} {s : List UInt8} {piece : Piece} {n : Nat}
    (h : first form s = (piece, n)) : s ≠ [] → 0 < n := by
  intro hs
  obtain ⟨b, rest, rfl⟩ := List.exists_cons_of_ne_nil hs
  have second := congrArg Prod.snd h
  cases form with
  | string =>
    have := ofString_pos b rest
    simp only [first] at second
    omega
  | regex =>
    have := ofRegex_pos b rest
    simp only [first] at second
    omega

/-- At the end of the source a literal is exhausted. -/
theorem first_nil (form : Quoted) : first form [] = (.exhausted, 0) := by
  cases form <;> rfl

end Piece
end RuleLex
