/-
Runs of a lexer.

`next` steps until there is an answer, `iterate` does so until the end of the
source has been answered once, and `follow` gathers the answers of a whole run.
`tokenize` is the run that gives up at the first error.

All of them end because `Lexer.weight` falls from answer to answer.
-/
import RuleLex.Lexer.Basic
import RuleLex.Log.Code
import RuleLex.Token.Stream

namespace RuleLex

/-- An answer with the lexer after it and the reports made on the way. -/
structure Answer where
  result : Except LexError Token
  lexer : Lexer
  reports : List Log.Event

namespace Answer

/-- The answer is the token that ends the source. -/
def isEnd (a : Answer) : Bool :=
  match a.result with
  | .ok t => t.isEof
  | .error _ => false

end Answer

namespace Lexer

/-- What the log says about an error: where the step that found it began, and
where the lexer is now. -/
def errorReport (error : LexError) (stepStart : Position) (lx : Lexer) : Log.Event :=
  ((Log.Event.error error.code error.message).withSpan
      { start := stepStart, stop := lx.position }).withContext
    [("line", toString error.line), ("mode", lx.mode.name)]

/-- Counts an answer and reports an error. -/
def settle (stepStart : Position) (lx : Lexer) (result : Except LexError Token)
    (reports : List Log.Event) : Answer :=
  match result with
  | .ok t =>
    { result := .ok t,
      lexer :=
        { lx with metrics := lx.metrics.addToken lx.preferences.collectDetailedMetrics t },
      reports := reports }
  | .error e =>
    { result := .error e,
      lexer := { lx with metrics := lx.metrics.addError },
      reports := reports ++ [errorReport e stepStart lx] }

/-- Steps until there is an answer.  `reports` holds what was reported before. -/
def nextFrom (reports : List Log.Event) (lx : Lexer) : Answer :=
  match _steps : lx.step with
  | .goOn after new => nextFrom (reports ++ new) after
  | .answer after result new => settle lx.position after result (reports ++ new)
termination_by lx.weight
decreasing_by
  have := weight_step lx
  rw [_steps] at this
  simpa [Step.isEnd, Step.lexer] using this

/-- The next token, or the error of the next offending lexeme.  At the end of
the source outside literals and comments the answer is always the end token. -/
def next (lx : Lexer) : Answer := nextFrom [] lx

theorem isEnd_settle (p : Position) (lx : Lexer) (result : Except LexError Token)
    (reports new : List Log.Event) :
    (settle p lx result reports).isEnd = (Step.answer lx result new).isEnd := by
  cases result <;> rfl

theorem weight_settle (p : Position) (lx : Lexer) (result : Except LexError Token)
    (reports : List Log.Event) : (settle p lx result reports).lexer.weight = lx.weight := by
  cases result <;> rfl

theorem weight_nextFrom (reports : List Log.Event) (lx : Lexer) :
    (nextFrom reports lx).isEnd = true ∨ (nextFrom reports lx).lexer.weight < lx.weight := by
  fun_induction nextFrom reports lx with
  | case1 reports lx after new hstep ih =>
    have progress := weight_step lx
    rw [hstep] at progress
    simp only [Step.isEnd, Step.lexer, Bool.false_eq_true, false_or] at progress
    rcases ih with h | h
    · exact .inl h
    · exact .inr (by omega)
  | case2 reports lx after result new hstep =>
    have progress := weight_step lx
    rw [hstep] at progress
    rw [isEnd_settle _ _ _ _ new, weight_settle]
    exact progress

/-- Every answer but the end token makes progress. -/
theorem weight_next (lx : Lexer) : lx.next.isEnd = true ∨ lx.next.lexer.weight < lx.weight :=
  weight_nextFrom [] lx

/-- The next answer of an iteration.  There is none once the end token has been
given. -/
def iterate (lx : Lexer) : Option Answer :=
  if lx.finished then none
  else
    let a := lx.next
    some { a with lexer := { a.lexer with finished := a.isEnd } }

/-- The answers up to the end token, last first, in front of those already
`done`.  A run either goes past errors or ends at the first one. -/
def follow (pastErrors : Bool) (done : List Answer) (lx : Lexer) : List Answer :=
  match _answers : lx.next with
  | { result := .error e, lexer := after, reports := reports } =>
    let done := { result := .error e, lexer := after, reports := reports } :: done
    if pastErrors then follow pastErrors done after else done
  | { result := .ok t, lexer := after, reports := reports } =>
    let done := { result := .ok t, lexer := after, reports := reports } :: done
    if _ends : t.isEof then done else follow pastErrors done after
termination_by lx.weight
decreasing_by
  · have := weight_next lx
    rw [_answers] at this
    simpa [Answer.isEnd] using this
  · have := weight_next lx
    rw [_answers] at this
    simpa [Answer.isEnd, _ends] using this

/-- Every answer up to the end token, errors included. -/
def answers (lx : Lexer) : List Answer := (lx.follow true []).reverse

/-! ## Whole sources -/

/-- What the log says about a source without errors. -/
def completionReport (lx : Lexer) (tokens : List Token) : Log.Event :=
  (Log.Event.success Log.Code.tokenizationComplete
      "Lexical analysis completed successfully").withContext
    [("token_count", toString tokens.length),
     ("lines", toString lx.line),
     ("keywords", toString (lx.metrics.classes.count .keyword)),
     ("identifiers", toString (lx.metrics.classes.count .identifier)),
     ("literals", toString (lx.metrics.classes.count .literal)),
     ("comments", toString lx.metrics.comments),
     ("max_literal_length", toString lx.metrics.maxLiteralLength)]

/-- What the log says about a new stream of tokens. -/
def streamReport (tokens : List Token) : Log.Event :=
  (Log.Event.debug "Token stream created").withContext
    [("total_tokens", toString tokens.length),
     ("eof_found", if tokens.getLast?.any Token.isEof then "true" else "false")]

/-- The outcome for a whole source: every token, or the first error. -/
structure Tokenization where
  result : Except LexError (List Token)
  lexer : Lexer
  reports : List Log.Event

/-- The tokens among some answers. -/
def tokensOf (answers : List Answer) : List Token :=
  answers.filterMap fun a => a.result.toOption

/-- Every token up to the end of the source, or the first error. -/
def tokenize (lx : Lexer) : Tokenization :=
  let lastFirst := lx.follow false []
  let answers := lastFirst.reverse
  let after := (lastFirst.head?.map Answer.lexer).getD lx
  let reports := answers.flatMap Answer.reports
  match lastFirst.head?.map Answer.result with
  | some (.error e) => { result := .error e, lexer := after, reports := reports }
  | _ =>
    let tokens := tokensOf answers
    { result := .ok tokens,
      lexer := after,
      reports := reports ++ [after.completionReport tokens, streamReport tokens] }

/-- The texts handed to the pattern service, in order. -/
def consultedTexts (lx : Lexer) : List (List UInt8) := lx.consulted.reverse

end Lexer
end RuleLex
