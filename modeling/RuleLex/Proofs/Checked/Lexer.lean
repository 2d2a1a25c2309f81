/-
A lexer by indices.

`Lexer` holds the text that is left.  The lexer here keeps the whole source and
an index into it, counts lines in 32 bits, works a column out from the index at
which the line began, and cuts lexemes, escapes and byte patterns out of the
source.  Every slice, difference, sum and product is checked, and so are the
assertions on spans, operators and names.

`Lexer` keeps what is open in its mode, so that it goes when the mode goes.  The
lexer here has a mode, a buffer and the place of a delimiter side by side, and
nothing but its own operations keeps one in step with the other: each way out of
a literal has to empty the buffer and each opening has to overwrite the
delimiter.

Of the counts it keeps that of the changes of mode, and it makes no reports.  An
error is still given the span that a report of it would have.
-/
import RuleLex.Proofs.Checked.Basic
import RuleLex.Proofs.Lexer.Requests

namespace RuleLex

open Checked (slice sub add32 mulBelow demand)

/-- A mode without what is open in it. -/
inductive Mode.Kind where
  | initial
  | quoted (form : Quoted)
  | comment
deriving DecidableEq, Repr

namespace Lexer

/-- Where the lexer is.  The buffer holds the content of the literal that is being
read, and `openDelimiter` the place of the last delimiter that a literal or a
comment was opened at, whether it is still open or not. -/
structure Indexed where
  source : List UInt8
  pos : Nat
  line : Nat
  lineStart : Nat
  mode : Mode.Kind
  buffer : List UInt8
  openDelimiter : Position
  transitions : Nat
  service : PatternService
  preferences : LexicalPreferences
  finished : Bool

namespace Indexed

/-- Before the first byte of a source. -/
def start (source : List UInt8) (preferences : LexicalPreferences) (service : PatternService) :
    Indexed where
  source := source
  pos := 0
  line := 1
  lineStart := 0
  mode := .initial
  buffer := []
  openDelimiter := .start
  transitions := 0
  service := service
  preferences := preferences
  finished := false

/-! ## The cursor -/

def peekAt (c : Indexed) (ahead : Nat) : Option UInt8 := c.source[c.pos + ahead]?

def peek (c : Indexed) : Option UInt8 := c.source[c.pos]?

/-- Past one byte, if there is one. -/
def bump (c : Indexed) : Checked Indexed :=
  match c.peek with
  | none => pure c
  | some b =>
    if b = Ascii.newline then do
      let line ← add32 c.line 1
      pure { c with pos := c.pos + 1, line := line, lineStart := c.pos + 1 }
    else pure { c with pos := c.pos + 1 }

/-- Past some bytes, or as many as there are. -/
def bumpN : Nat → Indexed → Checked Indexed
  | 0, c => pure c
  | n + 1, c => do
    let after ← c.bump
    bumpN n after

/-- Past the bytes of a class, at most so many. -/
def bumpWhile (test : UInt8 → Bool) : Nat → Indexed → Checked Indexed
  | 0, c => pure c
  | n + 1, c =>
    if c.peek.any test then do
      let after ← c.bump
      bumpWhile test n after
    else pure c

/-- The run of bytes of a class, and the lexer behind it. -/
def eatWhile (c : Indexed) (test : UInt8 → Bool) : Checked (List UInt8 × Indexed) := do
  let after ← bumpWhile test (c.source.length - c.pos) c
  let run ← slice c.source c.pos after.pos
  pure (run, after)

/-- The text that is left. -/
def rest (c : Indexed) : Checked (List UInt8) := slice c.source c.pos c.source.length

/-- The text from an index on. -/
def textFrom (c : Indexed) (start : Nat) : Checked (List UInt8) := slice c.source start c.pos

/-- The place of the lexer.  The column has 32 bits. -/
def position (c : Indexed) : Checked Position := do
  let before ← sub c.pos c.lineStart
  let column ← add32 (before % UInt32.size) 1
  pure { offset := c.pos, line := c.line, column := column }

/-- The span from a place up to the lexer. -/
def spanFrom (c : Indexed) (start : Position) : Checked Span := do
  let stop ← c.position
  demand (start.offset ≤ stop.offset)
  pure { start := start, stop := stop }

/-! ## The mode, the buffer and the delimiter -/

/-- How a step ends. -/
inductive Step where
  | goOn (lexer : Indexed)
  | answer (lexer : Indexed) (result : Except LexError Token)

/-- Enters a mode.  Only a change is counted. -/
def enterMode (c : Indexed) (mode : Mode.Kind) : Indexed :=
  if c.mode = mode then c else { c with mode := mode, transitions := c.transitions + 1 }

/-- Opens a literal. -/
def beginLiteral (c : Indexed) (form : Quoted) (start : Position) : Indexed :=
  { c with buffer := [], openDelimiter := start }.enterMode (.quoted form)

/-- Opens a comment, which gathers nothing. -/
def beginComment (c : Indexed) (start : Position) : Indexed :=
  { c with openDelimiter := start }.enterMode .comment

/-- Answers an error inside a literal.  Its content so far is lost; the
preferences say whether the lexer leaves the literal. -/
def literalError (c : Indexed) (e : LexError) : Step :=
  let cleared := { c with buffer := [] }
  .answer (if c.preferences.resetModeOnError then cleared.enterMode .initial else cleared)
    (.error e)

/-- Answers an error after which nothing is open: at the end of the source and
behind wrong modifiers. -/
def leave (c : Indexed) (e : LexError) : Step :=
  .answer ({ c with buffer := [] }.enterMode .initial) (.error e)

/-- Adds to the content of a literal. -/
def push (c : Indexed) (more : List UInt8) : Step :=
  let pushed := { c with buffer := c.buffer ++ more }
  if limits.maxLiteralSize < pushed.buffer.length then
    pushed.literalError
      { line := pushed.openDelimiter.line, fault := .literalTooLong pushed.buffer.length }
  else .goOn pushed

/-- Takes the content out of the buffer where a literal closes.  The span of the
literal begins at its opening. -/
def finishLiteral (c : Indexed) : Checked (List UInt8 × Span × Indexed) := do
  let content := c.buffer
  let after := { c with buffer := [] }.enterMode .initial
  let span ← after.spanFrom after.openDelimiter
  pure (content, span, after)

/-! ## Outside literals and comments -/

/-- The token of an operator. -/
def operatorToken (kind : TokenKind) (span : Span) : Checked Token := do
  demand (kind.isOperator = true)
  pure (Token.ofSpan kind .none span)

/-- The token of a name. -/
def nameToken (kind : TokenKind) (lexeme : List UInt8) (span : Span) : Checked Token := do
  demand (kind.tokenClass = .identifier)
  pure (Token.ofSpan kind (.text lexeme) span)

/-- The digits of a decimal in front of its size suffix, which has two bytes. -/
def decimalDigits (multiplier : Nat) (lexeme : List UInt8) : Checked (List UInt8) :=
  if multiplier = 1 then pure lexeme
  else do
    let length ← sub lexeme.length 2
    slice lexeme 0 length

/-- The value of a whole number in a form.  A mark has two bytes. -/
def evaluate (form : Number.Form) (lexeme : List UInt8) :
    Checked (Except Fault (Literal × TokenValue)) :=
  match form with
  | .hex => do
    let digits ← slice lexeme 2 lexeme.length
    pure (Number.integer lexeme (Ascii.numeral 16 digits))
  | .octal => do
    let digits ← slice lexeme 2 lexeme.length
    pure (Number.integer lexeme (Ascii.numeral 8 digits))
  | .float => pure (Number.evaluate .float lexeme)
  | .decimal multiplier => do
    let digits ← decimalDigits multiplier lexeme
    let value := Ascii.numeral 10 digits
    if Number.bound ≤ value then pure (.error (.numberConversion lexeme))
    else if (Number.bound - 1) / multiplier < value then
      pure (.error (.integerOverflow lexeme))
    else do
      let scaled ← mulBelow Number.bound value multiplier
      pure (.ok (.integer, .integer (Int64.ofNat scaled)))

def scanNumber (c : Indexed) : Checked Step := do
  let start ← c.position
  let (form, length) := Number.longest (c.source.drop c.pos)
  let after ← bumpN length c
  let span ← after.spanFrom start
  let lexeme ← after.textFrom start.offset
  match ← evaluate form lexeme with
  | .ok (literal, value) =>
    pure (.answer after (.ok (Token.ofSpan (.literal literal) value span)))
  | .error fault => pure (.answer after (.error { line := start.line, fault := fault }))

def scanWord (c : Indexed) (start : Position) : Checked Step := do
  let (word, after) ← c.eatWhile Ascii.isWordByte
  let span ← after.spanFrom start
  match Keyword.ofBytes? word with
  | some k => pure (.answer after (.ok (Token.ofSpan (.keyword k) .none span)))
  | none =>
    if limits.maxIdentifierLength < word.length then
      pure (.answer after
        (.error { line := start.line, fault := .identifierTooLong word.length }))
    else do
      let kind := if isIntegerFunction word then Naming.integerFunction else Naming.identifier
      let token ← nameToken (.naming kind) word span
      pure (.answer after (.ok token))

/-- Answers with the name from a place up to the lexer. -/
def answerName (c : Indexed) (kind : TokenKind) (start : Position) : Checked Step := do
  let lexeme ← c.textFrom start.offset
  let span ← c.spanFrom start
  let token ← nameToken kind lexeme span
  pure (.answer c (.ok token))

def scanSigil (c : Indexed) (sigil : UInt8) (start : Position) : Checked Step := do
  let named ← c.bump
  let (name, after) ← named.eatWhile Ascii.isWordByte
  if limits.maxIdentifierLength < name.length then
    pure (.answer after (.error { line := start.line, fault := .identifierTooLong name.length }))
  else do
    let starred := sigil == Ascii.dollar && after.peek == some Ascii.star
    let after ← if starred then after.bump else pure after
    after.answerName (.naming (Lexeme.naming sigil starred)) start

def scanPunctuation (c : Indexed) (b : UInt8) (start : Position) : Checked Step :=
  match (c.peekAt 1).bind (Operator.ofBytes? b) with
  | some op => do
    let after ← bumpN 2 c
    let span ← after.spanFrom start
    let token ← operatorToken (.operator op) span
    pure (.answer after (.ok token))
  | none => do
    let after ← c.bump
    let span ← after.spanFrom start
    pure (.answer after (.ok (Token.ofSpan (.symbol b) .none span)))

def scanBrace (c : Indexed) (start : Position) : Checked Step := do
  let left ← c.rest
  match Pattern.extent? left with
  | none => do
    let after ← c.bump
    let span ← after.spanFrom start
    pure (.answer after (.ok (Token.ofSpan (.symbol Ascii.openBrace) .none span)))
  | some n => do
    let text ← slice left 0 n
    let after ← bumpN n c
    let span ← after.spanFrom start
    match c.service text with
    | .ok elements =>
      pure (.answer after
        (.ok (Token.ofSpan (.literal .hexString) (.hexPattern elements) span)))
    | .error e => pure (.answer after (.error { line := start.line, fault := .hexPattern e }))

def scanSlash (c : Indexed) (start : Position) : Checked Step :=
  if c.peekAt 1 = some Ascii.star then do
    let after ← bumpN 2 c
    pure (.goOn (after.beginComment start))
  else if c.peekAt 1 = some Ascii.slash then do
    let (_, after) ← c.eatWhile (· != Ascii.newline)
    pure (.goOn after)
  else do
    let after ← c.bump
    pure (.goOn (after.beginLiteral .regex start))

def scanInitial (c : Indexed) : Checked Step := do
  let start ← c.position
  match c.peek with
  | none => pure (.answer c (.ok (Token.ofSpan .eof .none (Span.emptyAt start))))
  | some b =>
    if Ascii.isBlank b then do
      let (_, after) ← c.eatWhile Ascii.isBlank
      pure (.goOn after)
    else if b = Ascii.slash then c.scanSlash start
    else if b = Ascii.quote then do
      let after ← c.bump
      pure (.goOn (after.beginLiteral .string start))
    else if b = Ascii.openBrace then c.scanBrace start
    else if Ascii.isDigit b then c.scanNumber
    else if Ascii.isWordStart b then c.scanWord start
    else if b = Ascii.dollar ∨ b = Ascii.hash ∨ b = Ascii.atSign then c.scanSigil b start
    else if b = Ascii.bang ∧ c.peekAt 1 ≠ some Ascii.equals then c.scanSigil b start
    else if Ascii.isPrintable b then c.scanPunctuation b start
    else do
      let after ← c.bump
      pure (.answer after (.error { line := start.line, fault := .nonAsciiByte b }))

/-! ## Inside literals and comments -/

/-- Answers with a closed literal. -/
def close (c : Indexed) (form : Quoted) (modifiers : Modifiers) : Checked Step := do
  let (content, span, after) ← c.finishLiteral
  let (literal, value) := Piece.finish form content modifiers
  pure (.answer after (.ok (Token.ofSpan (.literal literal) value span)))

/-- Adds an escape of some length to the content of a literal. -/
def pushEscape (c : Indexed) (length : Nat) : Checked Step := do
  let left ← c.rest
  let escape ← slice left 0 length
  let after ← bumpN length c
  pure (after.push escape)

def scanStringEscape (c : Indexed) : Checked Step :=
  match c.peekAt 1 with
  | none => do
    let after ← c.bump
    pure (after.leave { line := after.openDelimiter.line, fault := .unterminatedString })
  | some b =>
    if Piece.isSimpleEscape b then c.pushEscape 2
    else if b = Ascii.lowerX ∧ (c.peekAt 2).any Ascii.isHexDigit ∧
        (c.peekAt 3).any Ascii.isHexDigit then
      c.pushEscape 4
    else do
      let fault := if b = Ascii.newline then .unterminatedString else .illegalEscapeSequence b
      let after ← bumpN 2 c
      pure (after.literalError { line := c.line, fault := fault })

def scanString (c : Indexed) : Checked Step :=
  match c.peek with
  | none => pure (c.leave { line := c.openDelimiter.line, fault := .unterminatedString })
  | some b =>
    if b = Ascii.quote then do
      let after ← c.bump
      after.close .string .empty
    else if b = Ascii.newline then do
      let after ← c.bump
      pure (after.literalError { line := c.line, fault := .unterminatedString })
    else if b = Ascii.backslash then c.scanStringEscape
    else do
      let (run, after) ← c.eatWhile Piece.isStringByte
      pure (after.push run)

def scanRegexEscape (c : Indexed) : Checked Step :=
  match c.peekAt 1 with
  | none => do
    let after ← c.bump
    pure (after.leave { line := after.openDelimiter.line, fault := .unterminatedRegex })
  | some b =>
    if b = Ascii.newline then do
      let after ← bumpN 2 c
      pure (after.literalError { line := c.line, fault := .unterminatedRegex })
    else c.pushEscape 2

def closeRegex (c : Indexed) (line : Nat) : Checked Step := do
  let (run, after) ← c.eatWhile Ascii.isWordByte
  match Modifiers.ofRun run with
  | .ok modifiers => after.close .regex modifiers
  | .error b => pure (after.leave { line := line, fault := .invalidRegexModifier b })

def scanRegex (c : Indexed) : Checked Step :=
  match c.peek with
  | none => pure (c.leave { line := c.openDelimiter.line, fault := .unterminatedRegex })
  | some b =>
    if b = Ascii.slash then do
      let after ← c.bump
      after.closeRegex c.line
    else if b = Ascii.newline then do
      let after ← c.bump
      pure (after.literalError { line := c.line, fault := .unterminatedRegex })
    else if b = Ascii.backslash then c.scanRegexEscape
    else do
      let (run, after) ← c.eatWhile Piece.isRegexByte
      pure (after.push run)

/-- A block comment is taken star by star.  Nothing has been gathered in it, so
its end leaves the buffer alone. -/
def scanComment (c : Indexed) : Checked Step :=
  match c.peek with
  | none => pure (c.leave { line := c.openDelimiter.line, fault := .unterminatedComment })
  | some b =>
    if b = Ascii.star ∧ c.peekAt 1 = some Ascii.slash then do
      let after ← bumpN 2 c
      pure (.goOn (after.enterMode .initial))
    else do
      let next ← c.bump
      let (_, after) ← next.eatWhile (· != Ascii.star)
      pure (.goOn after)

/-! ## Steps, calls and requests -/

def scan (c : Indexed) : Checked Step :=
  match c.mode with
  | .initial => c.scanInitial
  | .quoted .string => c.scanString
  | .quoted .regex => c.scanRegex
  | .comment => c.scanComment

/-- One step.  An error has the span from where the step began. -/
def step (c : Indexed) : Checked Step := do
  let start ← c.position
  match ← c.scan with
  | .goOn after => pure (.goOn after)
  | .answer after (.ok t) => pure (.answer after (.ok t))
  | .answer after (.error e) => do
    let _ ← after.spanFrom start
    pure (.answer after (.error e))

/-- Steps come to an answer, none of them with a trap. -/
inductive Answers : Indexed → Except LexError Token → Indexed → Prop
  | last {c after : Indexed} {result : Except LexError Token}
    (h : c.step = .ok (.answer after result)) : Answers c result after
  | more {c next after : Indexed} {result : Except LexError Token}
    (h : c.step = .ok (.goOn next)) (rest : Answers next result after) : Answers c result after

/-- Calls come to the end of the source or to an error. -/
inductive Exhausts : Indexed → Except LexError (List Token) → Indexed → Prop
  | error {c after : Indexed} {e : LexError} (h : Answers c (.error e) after) :
    Exhausts c (.error e) after
  | last {c after : Indexed} {t : Token} (h : Answers c (.ok t) after) (ends : t.isEof = true) :
    Exhausts c (.ok [t]) after
  | more {c next after : Indexed} {t : Token} {result : Except LexError (List Token)}
    (h : Answers c (.ok t) next) (goes : t.isEof = false) (rest : Exhausts next result after) :
    Exhausts c (result.map (t :: ·)) after

/-- A request is served. -/
inductive Serves : Indexed → Request → Reply → Indexed → Prop
  | next {c after : Indexed} {result : Except LexError Token} (h : Answers c result after) :
    Serves c .next (.next result) after
  | none {c : Indexed} (h : c.finished = true) : Serves c .item (.item .none) c
  | item {c after : Indexed} {result : Except LexError Token} (hc : c.finished = false)
    (h : Answers c result after) :
    Serves c .item (.item (some result))
      { after with finished := result.toOption.any Token.isEof }
  | all {c after : Indexed} {result : Except LexError (List Token)}
    (h : Exhausts c result after) : Serves c .all (.all result) after

/-- Requests are served one after the other. -/
inductive ServesAll : Indexed → List Request → List Reply → Indexed → Prop
  | nil (c : Indexed) : ServesAll c [] [] c
  | cons {c next after : Indexed} {r : Request} {reply : Reply} {requests : List Request}
    {replies : List Reply} (h : Serves c r reply next)
    (rest : ServesAll next requests replies after) :
    ServesAll c (r :: requests) (reply :: replies) after

end Indexed
end Lexer
end RuleLex
