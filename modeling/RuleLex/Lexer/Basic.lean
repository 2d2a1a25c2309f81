/-
The state of a lexer and one step of it.

A step reads one lexeme or one piece of a literal and puts it into the source:
only here do positions, lines, counts and reports come in.  Text read by a step
always leaves the source through `consume`, which moves the cursor over the very
bytes it drops.

What is open is part of the mode: a literal goes with its content when its mode is
left, so that no content can be left over.  `Lexer.Indexed` has the mode, the
content and the delimiter in fields of their own, which it has to empty and to
overwrite itself, and comes to the same.

A step either goes on without an answer or answers with a token or an error.
`weight` falls with every step but the answer at the end of the source, which
is why every run of a lexer ends: a step that takes no byte leaves a literal or
a comment the source has ended in.
-/
import RuleLex.Comment
import RuleLex.Lexer.Fault
import RuleLex.Lexer.Lexeme
import RuleLex.Lexer.Metrics
import RuleLex.Lexer.Piece
import RuleLex.Limits
import RuleLex.Log.Event
import RuleLex.Pattern.Reader
import RuleLex.Settings
import RuleLex.Source.Cursor

namespace RuleLex

/-- Where a lexer is.  Inside a literal it holds the place of the opening
delimiter and the content so far, inside a comment the place of the opener. -/
inductive Mode where
  | initial
  | quoted (form : Quoted) (opening : Position) (content : List UInt8)
  | comment (opening : Position)
deriving DecidableEq, Repr

namespace Mode

def name : Mode → String
  | .initial => "Initial"
  | .quoted .string _ _ => "InQuotedString"
  | .quoted .regex _ _ => "InRegexPattern"
  | .comment _ => "InBlockComment"

end Mode

/-- Reads the elements of a byte pattern off its exact text. -/
abbrev PatternService := List UInt8 → Except Pattern.Error (List Pattern.Element)

/-- A lexer over some source.  `consulted` holds the texts handed to the pattern
service, the last one first, and `finished` tells an iteration that it has
given its last token. -/
structure Lexer where
  rest : List UInt8
  cursor : Cursor
  mode : Mode
  service : PatternService
  preferences : LexicalPreferences
  metrics : Metrics
  consulted : List (List UInt8)
  finished : Bool

namespace Lexer

/-- A lexer at the start of its source. -/
def new (source : List UInt8) (preferences : LexicalPreferences) (service : PatternService) :
    Lexer where
  rest := source
  cursor := .start
  mode := .initial
  service := service
  preferences := preferences
  metrics := .zero
  consulted := []
  finished := false

/-- The place the lexer is at. -/
def position (lx : Lexer) : Position := lx.cursor.position

/-- The line the lexer is on. -/
def line (lx : Lexer) : Nat := lx.cursor.line

/-- The lexer past the next `n` bytes. -/
def consume (lx : Lexer) (n : Nat) : Lexer :=
  { lx with
    rest := lx.rest.drop n,
    cursor := lx.cursor.bumpAll (lx.rest.take n) }

theorem position_consume (lx : Lexer) (n : Nat) :
    (lx.consume n).position = lx.position.advanceBytes (lx.rest.take n) :=
  lx.cursor.position_bumpAll _

/-- The lexer in another mode. -/
def enter (lx : Lexer) (mode : Mode) : Lexer :=
  { lx with mode := mode, metrics := lx.metrics.addTransition }

/-- What a traced change of mode reports. -/
def transitionReports (lx : Lexer) (mode : Mode) : List Log.Event :=
  if lx.preferences.traceModes then
    [(Log.Event.debug "Lexical mode transition").withContext
      [("from", lx.mode.name), ("to", mode.name), ("line", toString lx.line)]]
  else []

/-- How a step ends: without an answer, or with a token or an error.  Both come
with the reports made on the way. -/
inductive Step where
  | goOn (lexer : Lexer) (reports : List Log.Event)
  | answer (lexer : Lexer) (result : Except LexError Token) (reports : List Log.Event)

/-- Goes on in another mode. -/
def goOnIn (lx : Lexer) (mode : Mode) : Step :=
  .goOn (lx.enter mode) (lx.transitionReports mode)

/-- Answers after a return to the initial mode. -/
def answerInitial (lx : Lexer) (result : Except LexError Token) : Step :=
  .answer (lx.enter .initial) result (lx.transitionReports .initial)

/-- Answers an error inside a literal.  Its content so far is lost; the
preferences say whether the lexer leaves the literal. -/
def breakOff (lx : Lexer) (form : Quoted) (opening : Position) (error : LexError) : Step :=
  if lx.preferences.resetModeOnError then lx.answerInitial (.error error)
  else .answer { lx with mode := .quoted form opening [] } (.error error) []

/-- The token of a lexeme between two places. -/
def tokenBetween (start : Position) (after : Lexer) (kind : TokenKind) (value : TokenValue) :
    Token :=
  Token.ofSpan kind value { start := start, stop := after.position }

/-- Hands the text of a byte pattern to the service. -/
def consult (start : Position) (after : Lexer) (text : List UInt8) : Step :=
  let after := { after with consulted := text :: after.consulted }
  match after.service text with
  | .ok elements =>
    .answer after (.ok (tokenBetween start after (.literal .hexString) (.hexPattern elements))) []
  | .error error => .answer after (.error { line := start.line, fault := .hexPattern error }) []

/-- A step outside literals and comments. -/
def stepInitial (lx : Lexer) : Step :=
  match Lexeme.first? lx.rest with
  | none => .answer lx (.ok (tokenBetween lx.position lx .eof .none)) []
  | some (lexeme, n) =>
    let start := lx.position
    let after := lx.consume n
    match lexeme with
    | .blank => .goOn after []
    | .lineComment => .goOn { after with metrics := after.metrics.addComment } []
    | .commentOpening =>
      { after with metrics := after.metrics.addComment }.goOnIn (.comment start)
    | .literalOpening form => after.goOnIn (.quoted form start [])
    | .hexPattern => consult start after (lx.rest.take n)
    | .token kind value => .answer after (.ok (tokenBetween start after kind value)) []
    | .refused fault => .answer after (.error { line := start.line, fault := fault }) []

/-- A step inside a literal. -/
def stepQuoted (lx : Lexer) (form : Quoted) (opening : Position) (content : List UInt8) : Step :=
  match Piece.first form lx.rest with
  | (piece, n) =>
    let after := lx.consume n
    match piece with
    | .content =>
      let content := content ++ lx.rest.take n
      if limits.maxLiteralSize < content.length then
        after.breakOff form opening
          { line := opening.line, fault := .literalTooLong content.length }
      else .goOn { after with mode := .quoted form opening content } []
    | .closing modifiers =>
      let (literal, value) := Piece.finish form content modifiers
      { after with metrics := after.metrics.addLiteral content.length }.answerInitial
        (.ok (tokenBetween opening after (.literal literal) value))
    | .badModifier b =>
      after.answerInitial (.error { line := lx.line, fault := .invalidRegexModifier b })
    | .broken fault => after.breakOff form opening { line := lx.line, fault := fault }
    | .exhausted =>
      after.answerInitial (.error { line := opening.line, fault := Piece.unterminated form })

/-- A step inside a block comment.  A comment that never closes takes the rest
of the source first. -/
def stepComment (lx : Lexer) (opening : Position) : Step :=
  if lx.rest = [] then
    lx.answerInitial (.error { line := opening.line, fault := .unterminatedComment })
  else
    match Comment.closingLength? lx.rest with
    | some n => (lx.consume n).goOnIn .initial
    | none => .goOn (lx.consume lx.rest.length) []

/-- One step of a lexer in any mode. -/
def step (lx : Lexer) : Step :=
  match lx.mode with
  | .initial => lx.stepInitial
  | .quoted form opening content => lx.stepQuoted form opening content
  | .comment opening => lx.stepComment opening

/-! ## Progress -/

/-- Falls with every step that is not the last: two for each byte left, and one
for a literal or comment still to be left. -/
def weight (lx : Lexer) : Nat :=
  2 * lx.rest.length + if lx.mode = .initial then 0 else 1

/-- The step answers with the token that ends the source. -/
def Step.isEnd : Step → Bool
  | .answer _ (.ok t) _ => t.isEof
  | _ => false

/-- The lexer after a step. -/
def Step.lexer : Step → Lexer
  | .goOn lx _ => lx
  | .answer lx _ _ => lx

theorem length_consume (lx : Lexer) (n : Nat) :
    (lx.consume n).rest.length = lx.rest.length - n := by
  simp [consume]

theorem weight_initial {lx : Lexer} (h : lx.mode = .initial) :
    lx.weight = 2 * lx.rest.length := by
  simp [weight, h]

theorem weight_le (lx : Lexer) : lx.weight ≤ 2 * lx.rest.length + 1 := by
  simp only [weight]
  split <;> omega

theorem lexer_breakOff_weight (lx : Lexer) (form : Quoted) (opening : Position) (e : LexError) :
    (lx.breakOff form opening e).lexer.weight ≤ 2 * lx.rest.length + 1 := by
  unfold breakOff
  split
  · exact weight_le _
  · exact weight_le _

theorem weight_stepInitial {lx : Lexer} (hm : lx.mode = .initial) :
    lx.stepInitial.isEnd = true ∨ lx.stepInitial.lexer.weight < lx.weight := by
  have before := weight_initial hm
  unfold stepInitial
  split
  · exact .inl rfl
  · rename_i lexeme n hfirst
    refine .inr ?_
    have pos := Lexeme.first_pos hfirst
    have some_left : 0 < lx.rest.length := by
      cases hrest : lx.rest with
      | nil => rw [hrest] at hfirst; cases hfirst
      | cons => simp
    have shorter := length_consume lx n
    have bound (step : Step) (h : step.lexer.rest.length = (lx.consume n).rest.length) :
        step.lexer.weight < lx.weight := by
      have := weight_le step.lexer
      omega
    simp only
    split
    · exact bound _ rfl
    · exact bound _ rfl
    · exact bound _ rfl
    · exact bound _ rfl
    · unfold consult
      simp only
      split
      · exact bound _ rfl
      · exact bound _ rfl
    · exact bound _ rfl
    · exact bound _ rfl

theorem weight_stepQuoted {lx : Lexer} {form : Quoted} {opening : Position}
    {content : List UInt8} (hm : lx.mode = .quoted form opening content) :
    (lx.stepQuoted form opening content).lexer.weight < lx.weight := by
  have before : lx.weight = 2 * lx.rest.length + 1 := by simp [weight, hm]
  have atEnd (h : lx.rest = []) : Piece.first form lx.rest = (.exhausted, 0) := by
    rw [h, Piece.first_nil]
  unfold stepQuoted
  split
  rename_i piece n hfirst
  have shorter := length_consume lx n
  have initial (step : Step) (hmode : step.lexer.mode = .initial)
      (h : step.lexer.rest.length = (lx.consume n).rest.length) :
      step.lexer.weight < lx.weight := by
    have := weight_initial hmode
    omega
  by_cases hrest : lx.rest = []
  · have : (piece, n) = (.exhausted, 0) := hfirst.symm.trans (atEnd hrest)
    cases this
    exact initial _ rfl rfl
  · have pos := Piece.first_pos hfirst hrest
    have some_left := List.length_pos_iff.2 hrest
    have bound (step : Step) (h : step.lexer.weight ≤ 2 * (lx.consume n).rest.length + 1) :
        step.lexer.weight < lx.weight := by omega
    simp only
    split
    · split
      · exact bound _ (lexer_breakOff_weight _ _ _ _)
      · exact bound _ (weight_le _)
    · exact initial _ rfl rfl
    · exact initial _ rfl rfl
    · exact bound _ (lexer_breakOff_weight _ _ _ _)
    · exact initial _ rfl rfl

theorem weight_stepComment {lx : Lexer} {opening : Position} (hm : lx.mode = .comment opening) :
    (lx.stepComment opening).lexer.weight < lx.weight := by
  have before : lx.weight = 2 * lx.rest.length + 1 := by simp [weight, hm]
  unfold stepComment
  split
  · rename_i hrest
    have : (lx.enter .initial).weight = 2 * lx.rest.length := weight_initial rfl
    simp only [answerInitial, Step.lexer]
    omega
  · rename_i hrest
    have some_left := List.length_pos_iff.2 hrest
    split
    · rename_i n hn
      have bounds := Comment.closingLength_bounds hn
      have shorter := length_consume lx n
      have : ((lx.consume n).enter .initial).weight = 2 * (lx.consume n).rest.length :=
        weight_initial rfl
      simp only [goOnIn, Step.lexer]
      omega
    · have shorter := length_consume lx lx.rest.length
      have := weight_le (lx.consume lx.rest.length)
      simp only [Step.lexer]
      omega

/-- Every step but the one that answers with the end of the source makes
progress. -/
theorem weight_step (lx : Lexer) : lx.step.isEnd = true ∨ lx.step.lexer.weight < lx.weight := by
  unfold step
  split
  · rename_i hm
    exact weight_stepInitial hm
  · rename_i form opening content hm
    exact .inr (weight_stepQuoted hm)
  · rename_i opening hm
    exact .inr (weight_stepComment hm)

end Lexer
end RuleLex
