/-
What a step of a lexer can do.

`Outcome lx step` lists the ways a step ends, each with what the lexer found at
the head of its text and with the lexer, the answer and the reports that follow
from it.  `outcome_step` says that the list is complete, so whatever holds of
every step is a case analysis on it, and no proof has to open the step again.

`Effect lx n lexeme step` says the same of one step outside literals and comments
whose lexeme is known.
-/
import RuleLex.Lexer.Run

namespace RuleLex
namespace Lexer

/-- What breaks an open literal off behind `n` bytes. -/
inductive Breaks (lx : Lexer) (form : Quoted) (opening : Position) (content : List UInt8) :
    Nat → LexError → Prop
  | tooLong {n : Nat} (h : Piece.first form lx.rest = (.content, n))
    (long : limits.maxLiteralSize < (content ++ lx.rest.take n).length) :
    Breaks lx form opening content n
      { line := opening.line, fault := .literalTooLong (content ++ lx.rest.take n).length }
  | broken {n : Nat} {fault : Fault} (h : Piece.first form lx.rest = (.broken fault, n)) :
    Breaks lx form opening content n { line := lx.line, fault := fault }

/-- The ways a step ends. -/
inductive Outcome (lx : Lexer) : Step → Prop
  | finish (hm : lx.mode = .initial) (hrest : lx.rest = []) :
    Outcome lx (.answer lx (.ok (tokenBetween lx.position lx .eof .none)) [])
  | blank {n : Nat} (hm : lx.mode = .initial) (h : Lexeme.first? lx.rest = some (.blank, n)) :
    Outcome lx (.goOn (lx.consume n) [])
  | lineComment {n : Nat} (hm : lx.mode = .initial)
    (h : Lexeme.first? lx.rest = some (.lineComment, n)) :
    Outcome lx (.goOn { lx.consume n with metrics := lx.metrics.addComment } [])
  | openComment {n : Nat} (hm : lx.mode = .initial)
    (h : Lexeme.first? lx.rest = some (.commentOpening, n)) :
    Outcome lx
      (.goOn ({ lx.consume n with metrics := lx.metrics.addComment }.enter (.comment lx.position))
        ((lx.consume n).transitionReports (.comment lx.position)))
  | openLiteral {n : Nat} {form : Quoted} (hm : lx.mode = .initial)
    (h : Lexeme.first? lx.rest = some (.literalOpening form, n)) :
    Outcome lx
      (.goOn ((lx.consume n).enter (.quoted form lx.position []))
        ((lx.consume n).transitionReports (.quoted form lx.position [])))
  | token {n : Nat} {kind : TokenKind} {value : TokenValue} (hm : lx.mode = .initial)
    (h : Lexeme.first? lx.rest = some (.token kind value, n)) :
    Outcome lx
      (.answer (lx.consume n) (.ok (tokenBetween lx.position (lx.consume n) kind value)) [])
  | refused {n : Nat} {fault : Fault} (hm : lx.mode = .initial)
    (h : Lexeme.first? lx.rest = some (.refused fault, n)) :
    Outcome lx (.answer (lx.consume n) (.error { line := lx.line, fault := fault }) [])
  | hexString {n : Nat} {elements : List Pattern.Element} (hm : lx.mode = .initial)
    (h : Lexeme.first? lx.rest = some (.hexPattern, n))
    (hread : lx.service (lx.rest.take n) = .ok elements) :
    Outcome lx
      (.answer { lx.consume n with consulted := lx.rest.take n :: lx.consulted }
        (.ok (tokenBetween lx.position (lx.consume n) (.literal .hexString)
          (.hexPattern elements))) [])
  | hexRefused {n : Nat} {e : Pattern.Error} (hm : lx.mode = .initial)
    (h : Lexeme.first? lx.rest = some (.hexPattern, n))
    (hread : lx.service (lx.rest.take n) = .error e) :
    Outcome lx
      (.answer { lx.consume n with consulted := lx.rest.take n :: lx.consulted }
        (.error { line := lx.line, fault := .hexPattern e }) [])
  | content {n : Nat} {form : Quoted} {opening : Position} {content : List UInt8}
    (hm : lx.mode = .quoted form opening content)
    (h : Piece.first form lx.rest = (.content, n))
    (fits : (content ++ lx.rest.take n).length ≤ limits.maxLiteralSize) :
    Outcome lx
      (.goOn { lx.consume n with mode := .quoted form opening (content ++ lx.rest.take n) } [])
  | breakAndReset {n : Nat} {form : Quoted} {opening : Position} {content : List UInt8}
    {e : LexError} (hm : lx.mode = .quoted form opening content)
    (h : Breaks lx form opening content n e) (hreset : lx.preferences.resetModeOnError = true) :
    Outcome lx
      (.answer ((lx.consume n).enter .initial) (.error e)
        ((lx.consume n).transitionReports .initial))
  | breakAndStay {n : Nat} {form : Quoted} {opening : Position} {content : List UInt8}
    {e : LexError} (hm : lx.mode = .quoted form opening content)
    (h : Breaks lx form opening content n e) (hstay : lx.preferences.resetModeOnError = false) :
    Outcome lx (.answer { lx.consume n with mode := .quoted form opening [] } (.error e) [])
  | closing {n : Nat} {form : Quoted} {opening : Position} {content : List UInt8}
    {modifiers : Modifiers} (hm : lx.mode = .quoted form opening content)
    (h : Piece.first form lx.rest = (.closing modifiers, n)) :
    Outcome lx
      (.answer
        ({ lx.consume n with metrics := lx.metrics.addLiteral content.length }.enter .initial)
        (.ok (tokenBetween opening (lx.consume n)
          (.literal (Piece.finish form content modifiers).1)
          (Piece.finish form content modifiers).2))
        ((lx.consume n).transitionReports .initial))
  | badModifier {n : Nat} {form : Quoted} {opening : Position} {content : List UInt8} {b : UInt8}
    (hm : lx.mode = .quoted form opening content)
    (h : Piece.first form lx.rest = (.badModifier b, n)) :
    Outcome lx
      (.answer ((lx.consume n).enter .initial)
        (.error { line := lx.line, fault := .invalidRegexModifier b })
        ((lx.consume n).transitionReports .initial))
  | exhausted {n : Nat} {form : Quoted} {opening : Position} {content : List UInt8}
    (hm : lx.mode = .quoted form opening content)
    (h : Piece.first form lx.rest = (.exhausted, n)) :
    Outcome lx
      (.answer ((lx.consume n).enter .initial)
        (.error { line := opening.line, fault := Piece.unterminated form })
        ((lx.consume n).transitionReports .initial))
  | closeComment {n : Nat} {opening : Position} (hm : lx.mode = .comment opening)
    (h : Comment.closingLength? lx.rest = some n) :
    Outcome lx
      (.goOn ((lx.consume n).enter .initial) ((lx.consume n).transitionReports .initial))
  | drainComment {opening : Position} (hm : lx.mode = .comment opening) (hrest : lx.rest ≠ [])
    (h : Comment.closingLength? lx.rest = none) :
    Outcome lx (.goOn (lx.consume lx.rest.length) [])
  | openAtEnd {opening : Position} (hm : lx.mode = .comment opening) (hrest : lx.rest = []) :
    Outcome lx
      (.answer (lx.enter .initial) (.error { line := opening.line, fault := .unterminatedComment })
        (lx.transitionReports .initial))

variable {lx : Lexer}

theorem outcome_consult {n : Nat} (hm : lx.mode = .initial)
    (h : Lexeme.first? lx.rest = some (.hexPattern, n)) :
    Outcome lx (consult lx.position (lx.consume n) (lx.rest.take n)) := by
  unfold consult
  cases hread : lx.service (lx.rest.take n) with
  | ok elements =>
    have same : (lx.consume n).service (lx.rest.take n) = .ok elements := hread
    simp only [same]
    exact .hexString hm h hread
  | error e =>
    have same : (lx.consume n).service (lx.rest.take n) = .error e := hread
    simp only [same]
    exact .hexRefused hm h hread

theorem outcome_breakOff {n : Nat} {form : Quoted} {opening : Position} {content : List UInt8}
    {e : LexError} (hm : lx.mode = .quoted form opening content)
    (h : Breaks lx form opening content n e) :
    Outcome lx ((lx.consume n).breakOff form opening e) := by
  unfold breakOff
  split
  · rename_i hreset
    exact .breakAndReset hm h hreset
  · rename_i hstay
    exact .breakAndStay hm h (Bool.eq_false_iff.2 hstay)

theorem outcome_stepInitial (hm : lx.mode = .initial) : Outcome lx lx.stepInitial := by
  unfold stepInitial
  split
  · rename_i hfirst
    refine .finish hm ?_
    cases hrest : lx.rest with
    | nil => rfl
    | cons b rest =>
      rw [hrest] at hfirst
      cases hfirst
  · rename_i lexeme n hfirst
    cases lexeme with
    | blank => exact .blank hm hfirst
    | lineComment => exact .lineComment hm hfirst
    | commentOpening => exact .openComment hm hfirst
    | literalOpening form => exact .openLiteral hm hfirst
    | hexPattern => exact outcome_consult hm hfirst
    | token kind value => exact .token hm hfirst
    | refused fault => exact .refused hm hfirst

theorem outcome_stepQuoted {form : Quoted} {opening : Position} {content : List UInt8}
    (hm : lx.mode = .quoted form opening content) :
    Outcome lx (lx.stepQuoted form opening content) := by
  unfold stepQuoted
  cases hfirst : Piece.first form lx.rest with
  | mk piece n =>
    cases piece with
    | content =>
      simp only
      split
      · rename_i long
        exact outcome_breakOff hm (.tooLong hfirst long)
      · rename_i fits
        exact .content hm hfirst (Nat.le_of_not_lt fits)
    | closing modifiers => exact .closing hm hfirst
    | badModifier b => exact .badModifier hm hfirst
    | broken fault => exact outcome_breakOff hm (.broken hfirst)
    | exhausted => exact .exhausted hm hfirst

theorem outcome_stepComment {opening : Position} (hm : lx.mode = .comment opening) :
    Outcome lx (lx.stepComment opening) := by
  unfold stepComment
  split
  · rename_i hrest
    exact .openAtEnd hm hrest
  · rename_i hrest
    split
    · rename_i n hn
      exact .closeComment hm hn
    · rename_i hnone
      exact .drainComment hm hrest hnone

theorem outcome_step (lx : Lexer) : Outcome lx lx.step := by
  unfold step
  split
  · rename_i hm
    exact outcome_stepInitial hm
  · rename_i hm
    exact outcome_stepQuoted hm
  · rename_i hm
    exact outcome_stepComment hm

/-! ## Lexemes -/

/-- What a step does with a lexeme of `n` bytes. -/
inductive Effect (lx : Lexer) (n : Nat) : Lexeme → Step → Prop
  | blank : Effect lx n .blank (.goOn (lx.consume n) [])
  | lineComment :
    Effect lx n .lineComment (.goOn { lx.consume n with metrics := lx.metrics.addComment } [])
  | openComment :
    Effect lx n .commentOpening
      (.goOn ({ lx.consume n with metrics := lx.metrics.addComment }.enter (.comment lx.position))
        ((lx.consume n).transitionReports (.comment lx.position)))
  | openLiteral (form : Quoted) :
    Effect lx n (.literalOpening form)
      (.goOn ((lx.consume n).enter (.quoted form lx.position []))
        ((lx.consume n).transitionReports (.quoted form lx.position [])))
  | token (kind : TokenKind) (value : TokenValue) :
    Effect lx n (.token kind value)
      (.answer (lx.consume n) (.ok (tokenBetween lx.position (lx.consume n) kind value)) [])
  | refused (fault : Fault) :
    Effect lx n (.refused fault)
      (.answer (lx.consume n) (.error { line := lx.line, fault := fault }) [])
  | hexString {elements : List Pattern.Element} (h : lx.service (lx.rest.take n) = .ok elements) :
    Effect lx n .hexPattern
      (.answer { lx.consume n with consulted := lx.rest.take n :: lx.consulted }
        (.ok (tokenBetween lx.position (lx.consume n) (.literal .hexString)
          (.hexPattern elements))) [])
  | hexRefused {e : Pattern.Error} (h : lx.service (lx.rest.take n) = .error e) :
    Effect lx n .hexPattern
      (.answer { lx.consume n with consulted := lx.rest.take n :: lx.consulted }
        (.error { line := lx.line, fault := .hexPattern e }) [])

theorem effect_step {lexeme : Lexeme} {n : Nat} (hm : lx.mode = .initial)
    (h : Lexeme.first? lx.rest = some (lexeme, n)) : Effect lx n lexeme lx.step := by
  have initial : lx.step = lx.stepInitial := by rw [step, hm]
  rw [initial, stepInitial, h]
  cases lexeme with
  | blank => exact .blank
  | lineComment => exact .lineComment
  | commentOpening => exact .openComment
  | literalOpening form => exact .openLiteral form
  | token kind value => exact .token kind value
  | refused fault => exact .refused fault
  | hexPattern =>
    show Effect lx n .hexPattern (consult lx.position (lx.consume n) (lx.rest.take n))
    unfold consult
    cases hread : lx.service (lx.rest.take n) with
    | ok elements =>
      have same : (lx.consume n).service (lx.rest.take n) = .ok elements := hread
      simp only [same]
      exact .hexString hread
    | error e =>
      have same : (lx.consume n).service (lx.rest.take n) = .error e := hread
      simp only [same]
      exact .hexRefused hread

end Lexer
end RuleLex
