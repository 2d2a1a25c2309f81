/-
Lexers that differ in their service and their preferences only.

Two such lexers at the same point of the same text are `Alike`.  A step of both
goes on to alike lexers or answers; `StepAlike` and, for a whole call,
`AnswerAlike` list the ways the answers can be related:

* they are equal, and the lexers behind them alike;
* both lexers have found the same byte pattern, and each answers what its own
  service says of the text;
* both break a literal off with the same error, and only one of them leaves it.

So a service shows in the answers on byte patterns alone, and a preference shows
nowhere before an error inside a literal.
-/
import RuleLex.Proofs.Lexer.Iteration
import RuleLex.Proofs.Lexer.Restart

namespace RuleLex

/-- The counts that steps keep.  Tokens and errors are counted with the answer. -/
def Metrics.scanned (m : Metrics) : Metrics :=
  { m with total := 0, classes := .zero, errors := 0 }

namespace Lexer

/-- Both lexers are at the same point of the same text. -/
structure Alike (a b : Lexer) : Prop where
  rest_eq : a.rest = b.rest
  cursor_eq : a.cursor = b.cursor
  mode_eq : a.mode = b.mode
  consulted_eq : a.consulted = b.consulted
  scanned_eq : a.metrics.scanned = b.metrics.scanned

/-- The answer on a byte pattern over a span, by what the service says. -/
def patternAnswer (span : Span) :
    Except Pattern.Error (List Pattern.Element) → Except LexError Token
  | .ok elements => .ok (Token.ofSpan (.literal .hexString) (.hexPattern elements) span)
  | .error e => .error { line := span.start.line, fault := .hexPattern e }

/-- Where a byte pattern of `n` bytes is found, it is handed over and passed. -/
structure PatternAt (lx : Lexer) (n : Nat) (after : Lexer) : Prop where
  mode_eq : lx.mode = .initial
  first_eq : Lexeme.first? lx.rest = some (.hexPattern, n)
  position_eq : after.position = lx.position.advanceBytes (lx.rest.take n)
  consulted_eq : after.consulted = lx.rest.take n :: lx.consulted

/-- Two steps of lexers that are alike. -/
inductive StepAlike (a b : Lexer) : Step → Step → Prop
  | goOn {a' b' : Lexer} {reports others : List Log.Event} (h : Alike a' b')
    (kept : a'.consulted = a.consulted) : StepAlike a b (.goOn a' reports) (.goOn b' others)
  | answer {a' b' : Lexer} {result : Except LexError Token} {reports others : List Log.Event}
    (h : Alike a' b') (kept : a'.consulted = a.consulted) :
    StepAlike a b (.answer a' result reports) (.answer b' result others)
  | pattern {a' b' : Lexer} {n : Nat} {reports others : List Log.Event} (h : Alike a' b')
    (found : PatternAt a n a') :
    StepAlike a b
      (.answer a'
        (patternAnswer { start := a.position, stop := a'.position } (a.service (a.rest.take n)))
        reports)
      (.answer b'
        (patternAnswer { start := a.position, stop := a'.position } (b.service (a.rest.take n)))
        others)
  | broken {a' b' : Lexer} {e : LexError} {reports others : List Log.Event}
    (kept : a'.consulted = a.consulted)
    (differ : a.preferences.resetModeOnError ≠ b.preferences.resetModeOnError) :
    StepAlike a b (.answer a' (.error e) reports) (.answer b' (.error e) others)

variable {a b : Lexer}

theorem Alike.position_eq (h : Alike a b) : a.position = b.position :=
  congrArg Cursor.position h.cursor_eq

theorem Alike.line_eq (h : Alike a b) : a.line = b.line := congrArg Cursor.line h.cursor_eq

theorem Alike.consume (h : Alike a b) (n : Nat) : Alike (a.consume n) (b.consume n) := by
  constructor
  · simp only [Lexer.consume, h.rest_eq]
  · simp only [Lexer.consume, h.rest_eq, h.cursor_eq]
  · exact h.mode_eq
  · exact h.consulted_eq
  · exact h.scanned_eq

theorem Alike.withMode (h : Alike a b) (mode : Mode) :
    Alike { a with mode := mode } { b with mode := mode } :=
  ⟨h.rest_eq, h.cursor_eq, rfl, h.consulted_eq, h.scanned_eq⟩

theorem Alike.withMetrics (h : Alike a b) {metrics others : Metrics}
    (hm : metrics.scanned = others.scanned) :
    Alike { a with metrics := metrics } { b with metrics := others } :=
  ⟨h.rest_eq, h.cursor_eq, h.mode_eq, h.consulted_eq, hm⟩

theorem Alike.withConsulted (h : Alike a b) (texts : List (List UInt8)) :
    Alike { a with consulted := texts } { b with consulted := texts } :=
  ⟨h.rest_eq, h.cursor_eq, h.mode_eq, rfl, h.scanned_eq⟩

theorem Alike.enter (h : Alike a b) (mode : Mode) : Alike (a.enter mode) (b.enter mode) :=
  ⟨h.rest_eq, h.cursor_eq, rfl, h.consulted_eq, congrArg Metrics.addTransition h.scanned_eq⟩

theorem Alike.addComment (h : Alike a b) :
    Alike { a with metrics := a.metrics.addComment } { b with metrics := b.metrics.addComment } :=
  h.withMetrics (congrArg Metrics.addComment h.scanned_eq)

theorem Alike.addLiteral (h : Alike a b) (length : Nat) :
    Alike { a with metrics := a.metrics.addLiteral length }
      { b with metrics := b.metrics.addLiteral length } :=
  h.withMetrics (congrArg (fun m : Metrics => m.addLiteral length) h.scanned_eq)

theorem Alike.tokenBetween (h : Alike a b) (start : Position) (kind : TokenKind)
    (value : TokenValue) :
    tokenBetween start a kind value = Lexer.tokenBetween start b kind value := by
  rw [Lexer.tokenBetween, Lexer.tokenBetween, h.position_eq]

/-! ## One step -/

theorem consult_eq (start : Position) (lx : Lexer) (n : Nat) (text : List UInt8) :
    consult start (lx.consume n) text =
      .answer { lx.consume n with consulted := text :: lx.consulted }
        (patternAnswer { start := start, stop := (lx.consume n).position } (lx.service text)) [] := by
  have service : (lx.consume n).service = lx.service := rfl
  unfold consult
  simp only [service]
  cases lx.service text <;> rfl

theorem Alike.consult {n : Nat} (h : Alike a b) (hm : a.mode = .initial)
    (hfirst : Lexeme.first? a.rest = some (.hexPattern, n)) :
    StepAlike a b (consult a.position (a.consume n) (a.rest.take n))
      (Lexer.consult a.position (b.consume n) (a.rest.take n)) := by
  have after := h.consume n
  rw [consult_eq, consult_eq, ← after.position_eq, ← h.consulted_eq]
  exact .pattern (after.withConsulted _) ⟨hm, hfirst, position_consume a n, rfl⟩

theorem Alike.breakOff (h : Alike a b) (n : Nat) (form : Quoted) (opening : Position)
    (e : LexError) :
    StepAlike a b ((a.consume n).breakOff form opening e)
      ((b.consume n).breakOff form opening e) := by
  have after := h.consume n
  unfold Lexer.breakOff
  by_cases same : a.preferences.resetModeOnError = b.preferences.resetModeOnError
  · have sameAfter : (b.consume n).preferences.resetModeOnError =
        (a.consume n).preferences.resetModeOnError := same.symm
    rw [sameAfter]
    split
    · exact .answer (after.enter .initial) rfl
    · exact .answer (after.withMode _) rfl
  · split <;> split <;> exact .broken rfl same

theorem Alike.stepInitial (h : Alike a b) (hm : a.mode = .initial) :
    StepAlike a b a.stepInitial b.stepInitial := by
  unfold Lexer.stepInitial
  rw [← h.rest_eq, ← h.position_eq]
  split
  · rw [h.tokenBetween]
    exact .answer h rfl
  · rename_i lexeme n hfirst
    have after := h.consume n
    cases lexeme with
    | blank => exact .goOn after rfl
    | lineComment => exact .goOn after.addComment rfl
    | commentOpening => exact .goOn (after.addComment.enter _) rfl
    | literalOpening form => exact .goOn (after.enter _) rfl
    | hexPattern => exact h.consult hm hfirst
    | token kind value =>
      simp only
      rw [after.tokenBetween]
      exact .answer after rfl
    | refused fault => exact .answer after rfl

theorem Alike.stepQuoted (h : Alike a b) (form : Quoted) (opening : Position)
    (content : List UInt8) :
    StepAlike a b (a.stepQuoted form opening content) (b.stepQuoted form opening content) := by
  unfold Lexer.stepQuoted
  rw [← h.rest_eq, ← h.line_eq]
  split
  rename_i piece n hfirst
  have after := h.consume n
  cases piece with
  | content =>
    simp only
    split
    · exact h.breakOff n form opening _
    · exact .goOn (after.withMode _) rfl
  | closing modifiers =>
    have closed := after.addLiteral content.length
    simp only
    rw [after.tokenBetween]
    exact .answer (closed.enter .initial) rfl
  | badModifier c => exact .answer (after.enter .initial) rfl
  | broken fault => exact h.breakOff n form opening _
  | exhausted => exact .answer (after.enter .initial) rfl

theorem Alike.stepComment (h : Alike a b) (opening : Position) :
    StepAlike a b (a.stepComment opening) (b.stepComment opening) := by
  unfold Lexer.stepComment
  rw [← h.rest_eq]
  split
  · exact .answer (h.enter .initial) rfl
  · split
    · exact .goOn ((h.consume _).enter .initial) rfl
    · exact .goOn (h.consume _) rfl

theorem Alike.step (h : Alike a b) : StepAlike a b a.step b.step := by
  unfold Lexer.step
  rw [← h.mode_eq]
  split
  · rename_i hm
    exact h.stepInitial hm
  · exact h.stepQuoted _ _ _
  · exact h.stepComment _

/-! ## One call -/

/-- Two answers of lexers that are alike.  On a byte pattern `found` is the lexer
that has come to it. -/
inductive AnswerAlike (a b : Lexer) (x y : Answer) : Prop
  | same (h : Alike x.lexer y.lexer) (kept : x.lexer.consulted = a.consulted)
    (result_eq : x.result = y.result)
  | pattern {found : Lexer} {n : Nat} (h : Alike x.lexer y.lexer)
    (hsteps : Relation.ReflTransGen GoesOn a found) (kept : found.consulted = a.consulted)
    (hfound : PatternAt found n x.lexer)
    (own : x.result = patternAnswer { start := found.position, stop := x.lexer.position }
      (a.service (found.rest.take n)))
    (other : y.result = patternAnswer { start := found.position, stop := x.lexer.position }
      (b.service (found.rest.take n)))
  | broken {e : LexError} (own : x.result = .error e) (other : y.result = .error e)
    (kept : x.lexer.consulted = a.consulted)
    (differ : a.preferences.resetModeOnError ≠ b.preferences.resetModeOnError)

theorem service_step (lx : Lexer) : lx.step.lexer.service = lx.service := by
  obtain ⟨n, hn⟩ := consumes_step lx
  exact hn.service_eq

theorem preferences_step (lx : Lexer) : lx.step.lexer.preferences = lx.preferences := by
  obtain ⟨n, hn⟩ := consumes_step lx
  exact hn.preferences_eq

theorem GoesOn.service_eq {lx after : Lexer} (h : GoesOn lx after) :
    after.service = lx.service := by
  obtain ⟨reports, hstep⟩ := h
  have same := service_step lx
  rw [hstep] at same
  exact same

theorem GoesOn.preferences_eq {lx after : Lexer} (h : GoesOn lx after) :
    after.preferences = lx.preferences := by
  obtain ⟨reports, hstep⟩ := h
  have same := preferences_step lx
  rw [hstep] at same
  exact same

theorem Alike.settle (h : Alike a b) (start other : Position) (r s : Except LexError Token)
    (reports others : List Log.Event) :
    Alike (settle start a r reports).lexer (Lexer.settle other b s others).lexer := by
  cases r <;> cases s <;>
    exact ⟨h.rest_eq, h.cursor_eq, h.mode_eq, h.consulted_eq, h.scanned_eq⟩

theorem AnswerAlike.of_goOn {a' b' : Lexer} {x y : Answer} (h : AnswerAlike a' b' x y)
    (ha : GoesOn a a') (hb : GoesOn b b') (keeps : a'.consulted = a.consulted) :
    AnswerAlike a b x y := by
  cases h with
  | same h kept result_eq => exact .same h (kept.trans keeps) result_eq
  | pattern h hsteps kept hfound own other =>
    rw [ha.service_eq] at own
    rw [hb.service_eq] at other
    exact .pattern h (.head ha hsteps) (kept.trans keeps) hfound own other
  | broken own other kept differ =>
    rw [ha.preferences_eq, hb.preferences_eq] at differ
    exact .broken own other (kept.trans keeps) differ

theorem PatternAt.settle {lx after : Lexer} {n : Nat} (h : PatternAt lx n after)
    (start : Position) (r : Except LexError Token) (reports : List Log.Event) :
    PatternAt lx n (settle start after r reports).lexer := by
  rw [lexer_settle]
  exact ⟨h.mode_eq, h.first_eq, h.position_eq, h.consulted_eq⟩

theorem Alike.nextFrom (h : Alike a b) (reports others : List Log.Event) :
    AnswerAlike a b (nextFrom reports a) (Lexer.nextFrom others b) := by
  -- the induction is on the steps of `a`; what `b` does is read off the two steps
  fun_induction Lexer.nextFrom reports a generalizing b others with
  | case1 reports a a' new hstep ih =>
    have steps := h.step
    rw [hstep] at steps
    generalize hother : b.step = step at steps
    cases steps with
    | goOn after keeps =>
      rw [nextFrom_of_goOn hother]
      exact (ih after _).of_goOn ⟨new, hstep⟩ ⟨_, hother⟩ keeps
  | case2 reports a a' result new hstep =>
    have steps := h.step
    rw [hstep] at steps
    generalize hother : b.step = step at steps
    cases steps with
    | answer after kept =>
      rw [nextFrom_of_answer hother]
      refine .same (after.settle _ _ _ _ _ _) ?_ ?_
      · rw [lexer_settle]
        exact kept
      · rw [result_settle, result_settle]
    | pattern after found =>
      rw [nextFrom_of_answer hother]
      refine .pattern (after.settle _ _ _ _ _ _) .refl rfl (found.settle _ _ _) ?_ ?_
      · rw [result_settle, lexer_settle]
        rfl
      · rw [result_settle, lexer_settle]
        rfl
    | broken kept differ =>
      rw [nextFrom_of_answer hother]
      refine .broken (result_settle _ _ _ _) (result_settle _ _ _ _) ?_ differ
      rw [lexer_settle]
      exact kept

/-! ## Runs -/

theorem service_nextFrom (reports : List Log.Event) (lx : Lexer) :
    (Lexer.nextFrom reports lx).lexer.service = lx.service :=
  nextFrom_keeps (P := fun l => l.service = lx.service)
    (fun l h => (service_step l).trans h) (fun _ _ h => h) reports lx rfl

theorem preferences_nextFrom (reports : List Log.Event) (lx : Lexer) :
    (Lexer.nextFrom reports lx).lexer.preferences = lx.preferences :=
  nextFrom_keeps (P := fun l => l.preferences = lx.preferences)
    (fun l h => (preferences_step l).trans h) (fun _ _ h => h) reports lx rfl

theorem service_calls (n : Nat) (lx : Lexer) : (lx.calls n).service = lx.service := by
  induction n with
  | zero => rfl
  | succ n ih => rw [calls_succ, ← ih, next, service_nextFrom]

theorem preferences_calls (n : Nat) (lx : Lexer) :
    (lx.calls n).preferences = lx.preferences := by
  induction n with
  | zero => rfl
  | succ n ih => rw [calls_succ, ← ih, next, preferences_nextFrom]

theorem Alike.refl (lx : Lexer) : Alike lx lx := ⟨rfl, rfl, rfl, rfl, rfl⟩

theorem alike_new (source : List UInt8) (p q : LexicalPreferences)
    (first second : PatternService) : Alike (new source p first) (new source q second) :=
  ⟨rfl, rfl, rfl, rfl, rfl⟩

theorem Alike.calls (h : Alike a b)
    (same : a.preferences.resetModeOnError = b.preferences.resetModeOnError) (n : Nat) :
    Alike (a.calls n) (b.calls n) := by
  induction n with
  | zero => exact h
  | succ n ih =>
    rw [calls_succ, calls_succ]
    cases ih.nextFrom [] [] with
    | same h => exact h
    | pattern h => exact h
    | broken own other kept differ =>
      rw [preferences_calls, preferences_calls] at differ
      exact absurd same differ

end Lexer
end RuleLex
