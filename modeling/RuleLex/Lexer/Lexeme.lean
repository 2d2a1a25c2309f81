/-
Lexemes outside literals and comments.

`Lexeme.first?` reads the lexeme at the head of the text: what it is and how many
bytes it takes.  The first byte decides which forms are possible and each of
them takes the longest run it can, so the outcome depends on the text alone and
not on where it stands in the source.

A byte pattern is only delimited here; its content is read by a service.
-/
import RuleLex.Ascii
import RuleLex.Keyword
import RuleLex.Lexer.Fault
import RuleLex.Lexer.Number
import RuleLex.Limits
import RuleLex.Pattern.Extent
import RuleLex.Token.Basic

namespace RuleLex

/-- A literal between delimiters: a string in quotes or a regular expression in
slashes. -/
inductive Quoted where
  | string | regex
deriving DecidableEq, Repr

/-- What stands at the head of the text. -/
inductive Lexeme where
  | blank
  | lineComment
  | commentOpening
  | literalOpening (form : Quoted)
  | hexPattern
  | token (kind : TokenKind) (value : TokenValue)
  | refused (fault : Fault)
deriving Repr

namespace Lexeme

/-- A whole word, which is a keyword, too long, a sized read function or any
other name. -/
def ofWord (word : List UInt8) : Lexeme :=
  match Keyword.ofBytes? word with
  | some k => .token (.keyword k) .none
  | none =>
    if limits.maxIdentifierLength < word.length then .refused (.identifierTooLong word.length)
    else if isIntegerFunction word then .token (.naming .integerFunction) (.text word)
    else .token (.naming .identifier) (.text word)

/-- What a sigil refers to.  A star after a dollar name stands for any ending. -/
def naming (sigil : UInt8) (starred : Bool) : Naming :=
  if sigil = Ascii.dollar then
    if starred then .stringIdentifierWithWildcard else .stringIdentifier
  else if sigil = Ascii.hash then .stringCount
  else if sigil = Ascii.atSign then .stringOffset
  else .stringLength

/-- A sigil with the name behind it, which may be empty.  The length limit is on
the name alone, and a name over the limit ends before a star. -/
def ofSigil (sigil : UInt8) (rest : List UInt8) : Lexeme × Nat :=
  let name := rest.takeWhile Ascii.isWordByte
  let length := name.length + 1
  if limits.maxIdentifierLength < name.length then
    (.refused (.identifierTooLong name.length), length)
  else
    let starred := sigil == Ascii.dollar && rest[name.length]? == some Ascii.star
    let text := sigil :: name ++ (if starred then [Ascii.star] else [])
    (.token (.naming (naming sigil starred)) (.text text), if starred then length + 1 else length)

/-- An operator of two bytes, or the symbol of one. -/
def ofPunctuation (b : UInt8) (rest : List UInt8) : Lexeme × Nat :=
  match rest.head?.bind (Operator.ofBytes? b) with
  | some op => (.token (.operator op) .none, 2)
  | none => (.token (.symbol b) .none, 1)

/-- A comment opener, or the opening slash of a regular expression. -/
def ofSlash (rest : List UInt8) : Lexeme × Nat :=
  if rest.head? = some Ascii.star then (.commentOpening, 2)
  else if rest.head? = some Ascii.slash then
    (.lineComment, 1 + Ascii.runLength (· != Ascii.newline) rest)
  else (.literalOpening .regex, 1)

/-- A byte pattern where one starts, else the symbol. -/
def ofBrace (rest : List UInt8) : Lexeme × Nat :=
  match Pattern.extent? (Ascii.openBrace :: rest) with
  | some n => (.hexPattern, n)
  | none => (.token (.symbol Ascii.openBrace) .none, 1)

/-- A number, which starts with a digit. -/
def ofNumber (s : List UInt8) : Lexeme × Nat :=
  match Number.scan s with
  | (.ok (form, value), n) => (.token (.literal form) value, n)
  | (.error fault, n) => (.refused fault, n)

/-- The lexeme that starts with byte `b`, and its length. -/
def startingWith (b : UInt8) (rest : List UInt8) : Lexeme × Nat :=
  if Ascii.isBlank b then (.blank, Ascii.runLength Ascii.isBlank (b :: rest))
  else if b = Ascii.slash then ofSlash rest
  else if b = Ascii.quote then (.literalOpening .string, 1)
  else if b = Ascii.openBrace then ofBrace rest
  else if Ascii.isDigit b then ofNumber (b :: rest)
  else if Ascii.isWordStart b then
    let word := (b :: rest).takeWhile Ascii.isWordByte
    (ofWord word, word.length)
  else if b = Ascii.dollar ∨ b = Ascii.hash ∨ b = Ascii.atSign then ofSigil b rest
  else if b = Ascii.bang ∧ rest.head? ≠ some Ascii.equals then ofSigil b rest
  else if Ascii.isPrintable b then ofPunctuation b rest
  else (.refused (.nonAsciiByte b), 1)

/-- The lexeme at the head of a text, and its length.  There is none at the end
of the source. -/
def first? : List UInt8 → Option (Lexeme × Nat)
  | [] => none
  | b :: rest => some (startingWith b rest)

/-! ## Every lexeme takes a byte -/

theorem extentFrom_pos {r : Pattern.Readings} {length : Nat} {best : Option Nat}
    {s : List UInt8} {n : Nat} (hbest : ∀ m, best = some m → 0 < m)
    (h : Pattern.extentFrom r length best s = some n) : 0 < n := by
  induction s generalizing r length best with
  | nil => exact hbest n h
  | cons b rest ih =>
    have next : ∀ m, (if r.closes b then some (length + 1) else best) = some m → 0 < m := by
      intro m hm
      split at hm
      · cases hm; omega
      · exact hbest m hm
    simp only [Pattern.extentFrom] at h
    split at h
    · exact next n h
    · exact ih next h

theorem ofBrace_pos (rest : List UInt8) : 0 < (ofBrace rest).2 := by
  unfold ofBrace
  split
  · rename_i n hn
    simp only [Pattern.extent?, if_true] at hn
    exact extentFrom_pos (by simp) hn
  · exact Nat.one_pos

theorem ofSigil_pos (b : UInt8) (rest : List UInt8) : 0 < (ofSigil b rest).2 := by
  simp only [ofSigil]
  split
  · simp
  · split <;> simp

theorem ofPunctuation_pos (b : UInt8) (rest : List UInt8) : 0 < (ofPunctuation b rest).2 := by
  unfold ofPunctuation
  split <;> simp

theorem ofSlash_pos (rest : List UInt8) : 0 < (ofSlash rest).2 := by
  unfold ofSlash
  split
  · simp
  · split
    · simp only; omega
    · simp

theorem ofNumber_pos {b : UInt8} {rest : List UInt8} (h : Ascii.isDigit b = true) :
    0 < (ofNumber (b :: rest)).2 := by
  have pos : 0 < (Number.longest (b :: rest)).2 := Number.longest_pos h
  unfold ofNumber
  split
  · rename_i form value n hscan
    have : n = (Number.longest (b :: rest)).2 := (congrArg Prod.snd hscan).symm
    simp only
    omega
  · rename_i fault n hscan
    have : n = (Number.longest (b :: rest)).2 := (congrArg Prod.snd hscan).symm
    simp only
    omega

theorem startingWith_pos (b : UInt8) (rest : List UInt8) : 0 < (startingWith b rest).2 := by
  unfold startingWith
  split
  · rename_i hb
    exact Ascii.runLength_pos hb
  · split
    · exact ofSlash_pos rest
    · split
      · exact Nat.one_pos
      · split
        · exact ofBrace_pos rest
        · split
          · rename_i hb
            exact ofNumber_pos hb
          · split
            · rename_i hb
              have word : Ascii.isWordByte b = true := by simp [Ascii.isWordByte, hb]
              exact Ascii.runLength_pos word
            · split
              · exact ofSigil_pos b rest
              · split
                · exact ofSigil_pos b rest
                · split
                  · exact ofPunctuation_pos b rest
                  · exact Nat.one_pos

/-- A lexeme takes at least one byte. -/
theorem first_pos {s : List UInt8} {lexeme : Lexeme} {n : Nat}
    (h : first? s = some (lexeme, n)) : 0 < n := by
  cases s with
  | nil => cases h
  | cons b rest =>
    have pos := startingWith_pos b rest
    have : startingWith b rest = (lexeme, n) := Option.some.inj h
    rw [this] at pos
    exact pos

end Lexeme
end RuleLex
