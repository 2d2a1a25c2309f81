/-
How a literal ends.

`Ends lx form opening` lists what comes of a call that begins inside a literal
with nothing gathered yet: all the content that stands there, what ends it, the
answer and how far the call goes.  `ends_of_quoted` says that the list is
complete.  The size of a literal is checked piece by piece, but the pieces are
content and so never more than all of it: a literal is refused for its size
exactly when its whole content is over the limit.

`next_string` and `next_regex` put this together for a source that begins with
the delimiter.
-/
import RuleLex.Proofs.Lexer.Content
import RuleLex.Proofs.Lexer.Course

namespace RuleLex

open Pattern (IsLongest)
open Quoted (content_of_isLongest)

namespace Lexer

/-! ## Answers -/

/-- The next answer, the number of bytes taken for it and the mode behind it. -/
structure Answers (lx : Lexer) (result : Except LexError Token) (n : Nat) (mode : Mode) : Prop where
  result_eq : lx.next.result = result
  consumes : Consumes lx n lx.next.lexer
  mode_eq : lx.next.lexer.mode = mode

variable {lx after : Lexer} {result : Except LexError Token} {n : Nat} {mode : Mode}
variable {form : Quoted} {opening : Position} {content : List UInt8}

theorem answers_of_step {reports : List Log.Event} (h : lx.step = .answer after result reports)
    (hn : Consumes lx n after) : Answers lx result n after.mode := by
  have answer : lx.next = settle lx.position after result _ := nextFrom_of_answer h []
  refine ⟨next_of_answer h, ?_, ?_⟩
  · rw [answer, lexer_settle]
    exact ⟨hn.rest_eq, hn.cursor_eq, hn.service_eq, hn.preferences_eq⟩
  · rw [answer, lexer_settle]

theorem Reaches.answers {m : Nat} (h : Reaches lx m after) (ha : Answers after result n mode) :
    Answers lx result (m + n) mode := by
  refine ⟨h.result_eq.trans ha.result_eq, ?_, ?_⟩
  · rw [h.lexer_eq]
    exact h.consumes.trans ha.consumes
  · rw [h.lexer_eq]
    exact ha.mode_eq

/-- The bytes taken for an answer stand in front of the rest. -/
theorem Answers.taken {text rest : List UInt8} (h : Answers lx result text.length mode)
    (hrest : lx.rest = text ++ rest) : lx.rest = text ++ lx.next.lexer.rest := by
  rw [(h.consumes.append hrest).1]
  exact hrest

/-- The mode behind an error that breaks a literal off. -/
def brokenMode (lx : Lexer) (form : Quoted) (opening : Position) : Mode :=
  if lx.preferences.resetModeOnError then .initial else .quoted form opening []

theorem answers_of_breakOff {e : LexError}
    (h : lx.step = (lx.consume n).breakOff form opening e) :
    Answers lx (.error e) n (lx.brokenMode form opening) := by
  have same : (lx.consume n).preferences = lx.preferences := rfl
  unfold breakOff at h
  rw [same] at h
  unfold brokenMode
  by_cases hreset : lx.preferences.resetModeOnError = true
  · rw [if_pos hreset] at h ⊢
    exact answers_of_step h ⟨rfl, rfl, rfl, rfl⟩
  · rw [if_neg hreset] at h ⊢
    exact answers_of_step h ⟨rfl, rfl, rfl, rfl⟩

/-! ## Calls inside a literal -/

/-- How a call ends that begins inside a literal with nothing gathered. -/
inductive Ends (lx : Lexer) (form : Quoted) (opening : Position) : Prop
  | tooLong {content tail : List UInt8} {n : Nat} (splits : form.Splits lx.rest content tail)
    (long : limits.maxLiteralSize < n) (within : n ≤ content.length)
    (answers : Answers lx (.error { line := opening.line, fault := .literalTooLong n }) n
      (lx.brokenMode form opening))
  | closed {content ending rest : List UInt8} {modifiers : Modifiers}
    (splits : form.Splits lx.rest content (ending ++ rest))
    (fits : content.length ≤ limits.maxLiteralSize) (closes : Closes rest form ending modifiers)
    (answers : Answers lx
      (.ok (Token.ofSpan (.literal (Piece.finish form content modifiers).1)
        (Piece.finish form content modifiers).2
        { start := opening, stop := lx.position.advanceBytes (content ++ ending) }))
      (content ++ ending).length .initial)
  | misflagged {content run rest : List UInt8} {b : UInt8} (hform : form = .regex)
    (splits : form.Splits lx.rest content (Ascii.slash :: (run ++ rest)))
    (fits : content.length ≤ limits.maxLiteralSize) (h : Misflagged rest run b)
    (answers : Answers lx (.error { line := lx.line, fault := .invalidRegexModifier b })
      (content ++ Ascii.slash :: run).length .initial)
  | interrupted {content ending rest : List UInt8} {fault : Fault}
    (splits : form.Splits lx.rest content (ending ++ rest))
    (fits : content.length ≤ limits.maxLiteralSize) (h : Interrupts form ending fault)
    (answers : Answers lx (.error { line := lx.line, fault := fault })
      (content ++ ending).length (lx.brokenMode form opening))
  | exhausted {content tail : List UInt8} (splits : form.Splits lx.rest content tail)
    (fits : content.length ≤ limits.maxLiteralSize) (h : Piece.AtEnd tail)
    (answers : Answers lx (.error { line := opening.line, fault := Piece.unterminated form })
      lx.rest.length .initial)

/-- Content takes no line. -/
theorem Reaches.line_eq {m : Nat} (h : Reaches lx m after) {tail : List UInt8}
    (hm : m = content.length) (hrest : lx.rest = content ++ tail)
    (hcontent : form.Content content) : after.line = lx.line := by
  subst hm
  show after.position.line = lx.position.line
  rw [(h.consumes.append hrest).2, Position.line_advanceBytes,
    List.count_eq_zero_of_not_mem hcontent.newline_not_mem, Nat.add_zero]

/-- A piece that does not fit is part of more content than fits. -/
theorem ends_of_content {gathered tail : List UInt8} {mid : Lexer}
    (hsplit : lx.rest = gathered ++ tail) (hgathered : form.Content gathered)
    (reaches : Reaches lx gathered.length mid) (hmid : mid.mode = .quoted form opening gathered)
    (hfirst : Piece.first form mid.rest = (.content, n))
    (long : limits.maxLiteralSize < (gathered ++ mid.rest.take n).length) :
    Ends lx form opening := by
  have mid_rest := (reaches.consumes.append hsplit).1
  have within := Piece.content_le_length hfirst
  have length_eq : (gathered ++ mid.rest.take n).length = gathered.length + n := by
    rw [List.length_append, List.length_take_of_le within]
  have taken : lx.rest = (gathered ++ mid.rest.take n) ++ mid.rest.drop n := by
    rw [List.append_assoc, List.take_append_drop, mid_rest, hsplit]
  have step_eq : mid.step = (mid.consume n).breakOff form opening
      { line := opening.line, fault := .literalTooLong (gathered ++ mid.rest.take n).length } := by
    rw [step, hmid]
    simp only [stepQuoted, hfirst, if_pos long]
  have answers := reaches.answers (answers_of_breakOff step_eq)
  rw [length_eq] at long answers
  have kept : mid.brokenMode form opening = lx.brokenMode form opening := by
    rw [brokenMode, brokenMode, reaches.consumes.preferences_eq]
  rw [kept] at answers
  obtain ⟨content, rest, splits⟩ := form.exists_splits lx.rest
  have longest := splits.content.length_le splits.bare
    (hgathered.append (Piece.content_of_first hfirst)) (splits.eq_append.symm.trans taken)
  exact .tooLong splits long (length_eq ▸ longest) answers

theorem ends_of_quoted (hm : lx.mode = .quoted form opening []) : Ends lx form opening := by
  -- The lexer gathers all that fits and then finds a piece that is no content or does not fit.
  obtain ⟨content, tail, hsplit, gathers, full⟩ := exists_gathers form [] lx.rest
  obtain ⟨mid, reaches, hmid⟩ := reaches_of_gathers gathers hm hsplit
  rw [List.nil_append] at hmid
  have mid_rest := (reaches.consumes.append hsplit).1
  have hcontent := gathers.content
  have fits : content.length ≤ limits.maxLiteralSize := gathers.fits (Nat.zero_le _)
  have line_eq := reaches.line_eq rfl hsplit hcontent
  have kept : mid.brokenMode form opening = lx.brokenMode form opening := by
    rw [brokenMode, brokenMode, reaches.consumes.preferences_eq]
  cases hfirst : Piece.first form mid.rest with
  | mk piece n =>
    have splits (hpiece : piece ≠ .content) : form.Splits lx.rest content mid.rest :=
      ⟨mid_rest ▸ hsplit, hcontent, Piece.bare_of_first hfirst hpiece⟩
    cases piece with
    | content =>
      refine ends_of_content hsplit hcontent reaches hmid hfirst ?_
      have long := full n (mid_rest ▸ hfirst)
      rwa [List.nil_append, ← mid_rest] at long
    | closing modifiers =>
      obtain ⟨ending, rest, hending, rfl, closes⟩ := closes_of_first hfirst
      obtain ⟨after, hn, hafter, reports, hstep⟩ := step_closing hmid hfirst
      have answers := reaches.answers (answers_of_step hstep hn)
      have stop : after.position = lx.position.advanceBytes (content ++ ending) := by
        rw [(hn.append hending).2, (reaches.consumes.append hsplit).2,
          Position.advanceBytes_append]
      rw [tokenBetween, stop, hafter, ← List.length_append] at answers
      exact .closed (hending ▸ splits (by simp)) fits closes answers
    | badModifier b =>
      obtain ⟨hform, run, rest, hrun, rfl, misflagged⟩ := Piece.misflagged_of_first hfirst
      have step_eq : mid.step = (mid.consume (run.length + 1)).answerInitial
          (.error { line := mid.line, fault := .invalidRegexModifier b }) := by
        rw [step, hmid]
        simp only [stepQuoted, hfirst]
      have answers := reaches.answers (answers_of_step step_eq ⟨rfl, rfl, rfl, rfl⟩)
      rw [line_eq, ← List.length_cons, ← List.length_append] at answers
      exact .misflagged hform (hrun ▸ splits (by simp)) fits misflagged answers
    | broken fault =>
      obtain ⟨ending, rest, hending, rfl, interrupts⟩ := Piece.interrupts_of_first hfirst
      have step_eq : mid.step = (mid.consume ending.length).breakOff form opening
          { line := mid.line, fault := fault } := by
        rw [step, hmid]
        simp only [stepQuoted, hfirst]
      have answers := reaches.answers (answers_of_breakOff step_eq)
      rw [line_eq, kept, ← List.length_append] at answers
      exact .interrupted (hending ▸ splits (by simp)) fits interrupts answers
    | exhausted =>
      obtain ⟨atEnd, rfl⟩ := Piece.atEnd_of_first hfirst
      have step_eq : mid.step = (mid.consume mid.rest.length).answerInitial
          (.error { line := opening.line, fault := Piece.unterminated form }) := by
        rw [step, hmid]
        simp only [stepQuoted, hfirst]
      have answers := reaches.answers (answers_of_step step_eq ⟨rfl, rfl, rfl, rfl⟩)
      rw [mid_rest, ← List.length_append, ← hsplit] at answers
      exact .exhausted (splits (by simp)) fits atEnd answers

/-! ## Literals at the start of a source -/

/-- The lexer comes over an opening delimiter into the literal. -/
structure Enters (lx : Lexer) (form : Quoted) (s : List UInt8) (opened : Lexer) : Prop where
  rest_eq : lx.rest = form.delimiter :: s
  reaches : Reaches lx 1 opened
  mode_eq : opened.mode = .quoted form lx.position []
  opened_rest : opened.rest = s
  position_eq : opened.position = lx.position.advanceBytes [form.delimiter]
  line_eq : opened.line = lx.line

theorem exists_enters {s : List UInt8} (hm : lx.mode = .initial)
    (hrest : lx.rest = form.delimiter :: s)
    (hfirst : Lexeme.first? lx.rest = some (.literalOpening form, 1)) :
    ∃ opened, Enters lx form s opened := by
  obtain ⟨opened, opens, hopened, hmode⟩ := step_literalOpening hm hfirst
  have split : lx.rest = [form.delimiter] ++ s := hrest
  obtain ⟨opened_rest, position_eq⟩ := hopened.append split
  have line_eq : opened.position.line = lx.position.line := by
    have other : Ascii.newline ∉ [form.delimiter] := by cases form <;> decide
    rw [position_eq, Position.line_advanceBytes, List.count_eq_zero_of_not_mem other,
      Nat.add_zero]
  exact ⟨opened, hrest, reaches_of_goesOn opens hopened, hmode, opened_rest, position_eq, line_eq⟩

/-- What a call inside the literal takes is taken behind the delimiter. -/
theorem Enters.answers {opened : Lexer} {s text behind : List UInt8} (h : Enters lx form s opened)
    (ha : Answers opened result text.length mode) (htext : opened.rest = text ++ behind) :
    Answers lx result (form.delimiter :: text).length mode ∧
      lx.rest = (form.delimiter :: text) ++ lx.next.lexer.rest := by
  have whole := h.reaches.answers ha
  have split : lx.rest = (form.delimiter :: text) ++ behind := by
    rw [h.rest_eq, ← h.opened_rest, htext]
    rfl
  rw [Nat.add_comm, ← List.length_cons (a := form.delimiter)] at whole
  exact ⟨whole, whole.taken split⟩

/-- What is read of a source that is the opening delimiter and `s`, where `content`
is all the content of the literal and `rest` stands behind it. -/
inductive ReadsLiteral (form : Quoted) (s : List UInt8) :
    List UInt8 → List UInt8 → List UInt8 → Except LexError Token → Mode → Prop
  | tooLong {content rest taken : List UInt8} {n : Nat} {mode : Mode}
    (long : limits.maxLiteralSize < content.length) :
    ReadsLiteral form s content rest taken (.error { line := 1, fault := .literalTooLong n }) mode
  | closed {content ending rest : List UInt8} {modifiers : Modifiers}
    (fits : content.length ≤ limits.maxLiteralSize) (closes : Closes rest form ending modifiers) :
    ReadsLiteral form s content (ending ++ rest) (form.delimiter :: (content ++ ending))
      (.ok (Token.ofSpan (.literal (Piece.finish form content modifiers).1)
        (Piece.finish form content modifiers).2
        (Span.behind [] (form.delimiter :: (content ++ ending))))) .initial
  | misflagged {content run rest : List UInt8} {b : UInt8} (hform : form = .regex)
    (fits : content.length ≤ limits.maxLiteralSize) (h : Misflagged rest run b) :
    ReadsLiteral form s content (Ascii.slash :: (run ++ rest))
      (form.delimiter :: (content ++ Ascii.slash :: run))
      (.error { line := 1, fault := .invalidRegexModifier b }) .initial
  | interrupted {content ending rest : List UInt8} {fault : Fault} {mode : Mode}
    (fits : content.length ≤ limits.maxLiteralSize) (h : Interrupts form ending fault) :
    ReadsLiteral form s content (ending ++ rest) (form.delimiter :: (content ++ ending))
      (.error { line := 1, fault := fault }) mode
  | exhausted {content rest : List UInt8} (fits : content.length ≤ limits.maxLiteralSize)
    (h : Piece.AtEnd rest) :
    ReadsLiteral form s content rest (form.delimiter :: s)
      (.error { line := 1, fault := Piece.unterminated form }) .initial

theorem exists_reads {s : List UInt8}
    (hfirst : Lexeme.first? (form.delimiter :: s) = some (.literalOpening form, 1))
    (preferences : LexicalPreferences) (service : PatternService) :
    let a := (new (form.delimiter :: s) preferences service).next
    ∃ content rest taken, s = content ++ rest ∧ IsLongest form.Content s content.length ∧
      form.delimiter :: s = taken ++ a.lexer.rest ∧
      ReadsLiteral form s content rest taken a.result a.lexer.mode := by
  intro a
  have hrest : (new (form.delimiter :: s) preferences service).rest = form.delimiter :: s := rfl
  obtain ⟨opened, enters⟩ := exists_enters rfl hrest hfirst
  have conclude {content rest text behind : List UInt8} {result : Except LexError Token}
      {mode : Mode} (splits : form.Splits opened.rest content rest)
      (answers : Answers opened result text.length mode) (htext : opened.rest = text ++ behind)
      (reads : ReadsLiteral form s content rest (form.delimiter :: text) result mode) :
      ∃ content rest taken, s = content ++ rest ∧ IsLongest form.Content s content.length ∧
        form.delimiter :: s = taken ++ a.lexer.rest ∧
        ReadsLiteral form s content rest taken a.result a.lexer.mode := by
    obtain ⟨whole, taken⟩ := enters.answers answers htext
    rw [enters.opened_rest] at splits
    refine ⟨content, rest, _, splits.eq_append, splits.isLongest, taken, ?_⟩
    rw [show a.result = result from whole.result_eq, show a.lexer.mode = mode from whole.mode_eq]
    exact reads
  cases ends_of_quoted enters.mode_eq with
  | @tooLong content tail n splits long within answers =>
    have taken_length : (content.take n).length = n := List.length_take_of_le within
    have htext : opened.rest = content.take n ++ (content.drop n ++ tail) := by
      rw [← List.append_assoc, List.take_append_drop]
      exact splits.eq_append
    exact conclude splits (taken_length.symm ▸ answers) htext
      (.tooLong (Nat.lt_of_lt_of_le long within))
  | @closed content ending rest modifiers splits fits closes answers =>
    rw [enters.position_eq, ← Position.advanceBytes_append] at answers
    exact conclude splits answers (by rw [List.append_assoc]; exact splits.eq_append)
      (.closed fits closes)
  | @misflagged content run rest b hform splits fits misflagged answers =>
    rw [enters.line_eq] at answers
    exact conclude splits answers (by rw [List.append_assoc]; exact splits.eq_append)
      (.misflagged hform fits misflagged)
  | interrupted splits fits interrupts answers =>
    rw [enters.line_eq] at answers
    exact conclude splits answers (by rw [List.append_assoc]; exact splits.eq_append)
      (.interrupted fits interrupts)
  | exhausted splits fits atEnd answers =>
    refine conclude splits answers (List.append_nil _).symm ?_
    rw [enters.opened_rest]
    exact .exhausted fits atEnd

/-- When a literal is refused for its size or for want of a closing delimiter, and
how far it is taken then.  A newline ends a literal also where it is the last byte
of the source. -/
structure Unclosed (form : Quoted) (s content rest taken : List UInt8)
    (result : Except LexError Token) : Prop where
  tooLong : (∃ n, result = .error { line := 1, fault := .literalTooLong n }) ↔
    limits.maxLiteralSize < content.length
  interrupted : content.length ≤ limits.maxLiteralSize →
    (result = .error { line := 1, fault := Piece.unterminated form } ∧
        (taken = form.delimiter :: (content ++ [Ascii.newline]) ∨
          taken = form.delimiter :: (content ++ [Ascii.backslash, Ascii.newline])) ↔
      [Ascii.newline] <+: rest ∨ [Ascii.backslash, Ascii.newline] <+: rest)
  exhausted : content.length ≤ limits.maxLiteralSize →
    (result = .error { line := 1, fault := Piece.unterminated form } ∧
        taken = form.delimiter :: s ∧ Ascii.newline ∉ taken ↔
      rest = [] ∨ rest = [Ascii.backslash])

private theorem newline_ne_delimiter (form : Quoted) : Ascii.newline ≠ form.delimiter := by
  cases form <;> decide

private theorem backslash_ne_delimiter (form : Quoted) : Ascii.backslash ≠ form.delimiter := by
  cases form <;> decide

private theorem newline_ne_backslash : Ascii.newline ≠ Ascii.backslash := by decide

theorem unterminated_ne_tooLong (form : Quoted) (n : Nat) :
    Piece.unterminated form ≠ .literalTooLong n := by
  cases form <;> exact nofun

section Reading

variable {s rest taken : List UInt8}

/-- In front of the delimiter a literal is closed, whatever comes of it. -/
theorem unclosed_of_delimiter (fits : content.length ≤ limits.maxLiteralSize)
    (hrest : rest.head? = some form.delimiter)
    (hlong : ∀ n, result ≠ .error { line := 1, fault := .literalTooLong n })
    (hresult : result ≠ .error { line := 1, fault := Piece.unterminated form }) :
    Unclosed form s content rest taken result := by
  obtain ⟨behind, rfl⟩ := List.head?_eq_some_iff.1 hrest
  refine ⟨iff_of_false (fun ⟨n, h⟩ => hlong n h) (Nat.not_lt.2 fits),
    fun _ => iff_of_false (fun h => hresult h.1) ?_,
    fun _ => iff_of_false (fun h => hresult h.1) ?_⟩
  · simp [newline_ne_delimiter, backslash_ne_delimiter]
  · simp [(backslash_ne_delimiter form).symm]

theorem ReadsLiteral.unclosed (hs : s = content ++ rest) (quiet : Ascii.newline ∉ content)
    (h : ReadsLiteral form s content rest taken result mode) :
    Unclosed form s content rest taken result := by
  cases h with
  | tooLong long =>
    have excess := Nat.not_le.2 long
    exact ⟨iff_of_true ⟨_, rfl⟩ long, fun fits => absurd fits excess, fun fits => absurd fits excess⟩
  | closed fits closes => exact unclosed_of_delimiter fits (closes.head_append _) nofun nofun
  | misflagged hform fits _ =>
    subst hform
    exact unclosed_of_delimiter fits rfl nofun nofun
  | interrupted fits h =>
    have short := Nat.not_lt.2 fits
    cases h with
    | newline =>
      constructor
      · simp [short, unterminated_ne_tooLong]
      · simp
      · simp [newline_ne_backslash]
    | escapedNewline =>
      constructor
      · simp [short, unterminated_ne_tooLong]
      · simp
      · simp
    | escape hb =>
      constructor
      · simp [short]
      · simp [newline_ne_backslash, hb.symm, Piece.unterminated]
      · simp [Piece.unterminated]
  | exhausted fits h =>
    have short := Nat.not_lt.2 fits
    subst hs
    rcases h with rfl | rfl
    · constructor
      · simp [short, unterminated_ne_tooLong]
      · simp
      · simp [quiet, newline_ne_delimiter]
    · constructor
      · simp [short, unterminated_ne_tooLong]
      · simp [newline_ne_backslash, newline_ne_backslash.symm]
      · simp [quiet, newline_ne_delimiter, newline_ne_backslash]

end Reading

/-! ## Strings -/

/-- What has to become of a source that is a quote and `s`, where `content` is all
the content of the string and `rest` stands behind it. -/
structure ReadsString (s content rest taken : List UInt8) (result : Except LexError Token) : Prop
    extends Unclosed .string s content rest taken result where
  closed : content.length ≤ limits.maxLiteralSize →
    (result = .ok (Token.ofSpan (.literal .textString) (.text content)
        (Span.behind [] (Ascii.quote :: (content ++ [Ascii.quote])))) ↔
      rest.head? = some Ascii.quote)
  illegal : content.length ≤ limits.maxLiteralSize → ∀ b,
    (result = .error { line := 1, fault := .illegalEscapeSequence b } ∧
        taken = Ascii.quote :: (content ++ [Ascii.backslash, b]) ↔
      [Ascii.backslash, b] <+: rest ∧ b ≠ Ascii.newline)

theorem ReadsLiteral.string {s rest taken : List UInt8} (hs : s = content ++ rest)
    (quiet : Ascii.newline ∉ content) (h : ReadsLiteral .string s content rest taken result mode) :
    ReadsString s content rest taken result := by
  have newline_ne_quote := newline_ne_delimiter .string
  have backslash_ne_quote := backslash_ne_delimiter .string
  simp only [Quoted.delimiter] at newline_ne_quote backslash_ne_quote
  refine { h.unclosed hs quiet with closed := ?_, illegal := ?_ }
  · intro fits
    cases h with
    | tooLong long => exact absurd fits (Nat.not_le.2 long)
    | closed _ closes =>
      cases closes with
      | string => exact iff_of_true rfl rfl
    | misflagged hform => cases hform
    | interrupted _ h =>
      refine iff_of_false (by simp) ?_
      cases h <;> simp [newline_ne_quote, backslash_ne_quote]
    | exhausted _ h =>
      refine iff_of_false (by simp) ?_
      rcases h with rfl | rfl <;> simp [backslash_ne_quote]
  · intro fits b
    cases h with
    | tooLong long => exact absurd fits (Nat.not_le.2 long)
    | closed _ closes =>
      cases closes with
      | string => simp [backslash_ne_quote]
    | misflagged hform => cases hform
    | interrupted _ h =>
      cases h with
      | newline => simp [Piece.unterminated, newline_ne_backslash.symm]
      | escapedNewline => simp [Piece.unterminated]
      | @escape c hb =>
        constructor
        · rintro ⟨same, -⟩
          cases same
          exact ⟨List.prefix_append .., hb⟩
        · rintro ⟨follows, -⟩
          obtain rfl : b = c := by simpa using follows
          exact ⟨rfl, rfl⟩
    | exhausted _ h => rcases h with rfl | rfl <;> simp [Piece.unterminated]

/-- A source that begins with a quote: with all the content behind the quote, the
first answer is the string if a quote follows and its size is within the limit,
and otherwise the one error that the content or what follows it asks for. -/
theorem next_string (s : List UInt8) (preferences : LexicalPreferences)
    (service : PatternService) :
    let a := (new (Ascii.quote :: s) preferences service).next
    ∃ content rest taken, s = content ++ rest ∧
      IsLongest (Quoted.Content .string) s content.length ∧
      Ascii.quote :: s = taken ++ a.lexer.rest ∧ ReadsString s content rest taken a.result := by
  intro a
  have opening : Lexeme.first? (Quoted.string.delimiter :: s) =
      some (.literalOpening .string, 1) := Lexeme.first_quote s
  obtain ⟨content, rest, taken, hs, longest, htaken, reads⟩ :=
    exists_reads opening preferences service
  have quiet := (content_of_isLongest hs longest).newline_not_mem
  exact ⟨content, rest, taken, hs, longest, htaken, reads.string hs quiet⟩

/-! ## Regular expressions -/

/-- What has to become of a source that is a slash and `s`, where `content` is all
the content of the regular expression and `rest` stands behind it.  Behind the
closing slash the whole run of word bytes is taken, whether it is flags or not. -/
structure ReadsRegex (s content rest taken : List UInt8) (result : Except LexError Token)
    (mode : Mode) : Prop extends Unclosed .regex s content rest taken result where
  closed : content.length ≤ limits.maxLiteralSize → ∀ behind, rest = Ascii.slash :: behind →
    let run := behind.takeWhile Ascii.isWordByte
    taken = Ascii.slash :: (content ++ Ascii.slash :: run) ∧ mode = .initial ∧
      ((∀ b ∈ run, b = Ascii.lowerI ∨ b = Ascii.lowerS) →
        ∃ modifiers, Flags run modifiers ∧
          (modifiers.contains .caseInsensitive = true ↔ Ascii.lowerI ∈ run) ∧
          (modifiers.contains .dotMatchesNewline = true ↔ Ascii.lowerS ∈ run) ∧
          result = .ok (Token.ofSpan (.literal .regex) (.regex content modifiers)
            (Span.behind [] taken))) ∧
      ∀ b, result = .error { line := 1, fault := .invalidRegexModifier b } ↔
        run.find? (fun c => c != Ascii.lowerI && c != Ascii.lowerS) = some b

theorem ReadsLiteral.regex {s rest taken : List UInt8} (hs : s = content ++ rest)
    (quiet : Ascii.newline ∉ content) (h : ReadsLiteral .regex s content rest taken result mode) :
    ReadsRegex s content rest taken result mode := by
  refine { h.unclosed hs quiet with closed := ?_ }
  intro fits behind hrest run
  cases h with
  | tooLong long => exact absurd fits (Nat.not_le.2 long)
  | @closed _ rest modifiers _ closes =>
    cases closes with
    | @regex flags _ hflags stops hrun =>
      obtain rfl : flags ++ rest = behind := (List.cons.inj hrest).2
      have run_eq : run = flags := Ascii.takeWhile_append_of_stops hflags stops
      have read := Modifiers.flags_of_ofRun hrun
      obtain ⟨hi, hs⟩ := read.contains_iff
      rw [run_eq]
      refine ⟨rfl, rfl, fun _ => ⟨modifiers, read, hi, hs, rfl⟩, fun b => iff_of_false nofun ?_⟩
      rw [find_eq_none_of_flags read.flag]
      exact nofun
  | @misflagged flags rest b _ _ h =>
    obtain rfl : flags ++ rest = behind := (List.cons.inj hrest).2
    have run_eq : run = flags := Ascii.takeWhile_append_of_stops h.word h.stops
    rw [run_eq]
    refine ⟨rfl, rfl, fun all => absurd h.find_eq_some ?_, fun c => ?_⟩
    · rw [find_eq_none_of_flags all]
      exact nofun
    · rw [h.find_eq_some]
      simp
  | interrupted _ h =>
    cases h with
    | newline => exact absurd (List.cons.inj hrest).1 (newline_ne_delimiter .regex)
    | escapedNewline => exact absurd (List.cons.inj hrest).1 (backslash_ne_delimiter .regex)
  | exhausted _ h =>
    rcases h with rfl | rfl
    · cases hrest
    · exact absurd (List.cons.inj hrest).1 (backslash_ne_delimiter .regex)

/-- A source that begins with a slash that opens no comment: with all the content
behind the slash, the first answer is the regular expression if a slash and a run
of flags follow and its size is within the limit, and otherwise the one error that
the content or what follows it asks for. -/
theorem next_regex {s : List UInt8} (hslash : s.head? ≠ some Ascii.slash)
    (hstar : s.head? ≠ some Ascii.star) (preferences : LexicalPreferences)
    (service : PatternService) :
    let a := (new (Ascii.slash :: s) preferences service).next
    ∃ content rest taken, s = content ++ rest ∧
      IsLongest (Quoted.Content .regex) s content.length ∧
      Ascii.slash :: s = taken ++ a.lexer.rest ∧
      ReadsRegex s content rest taken a.result a.lexer.mode := by
  intro a
  have opening : Lexeme.first? (Quoted.regex.delimiter :: s) =
      some (.literalOpening .regex, 1) := by
    show Lexeme.first? (Ascii.slash :: s) = _
    rw [Lexeme.first_slash, Lexeme.ofSlash, if_neg hstar, if_neg hslash]
  obtain ⟨content, rest, taken, hs, longest, htaken, reads⟩ :=
    exists_reads opening preferences service
  have quiet := (content_of_isLongest hs longest).newline_not_mem
  exact ⟨content, rest, taken, hs, longest, htaken, reads.regex hs quiet⟩

/-- An escaped slash does not close a regular expression, and flags may be repeated. -/
theorem next_regex_flags :
    let s := Ascii.bytes "a\\/b/sis c"
    let content := Ascii.bytes "a\\/b"
    let a := (new (Ascii.slash :: s) LexicalPreferences.builtin Pattern.parse).next
    s.head? ≠ some Ascii.slash ∧ s.head? ≠ some Ascii.star ∧ a.lexer.mode = .initial ∧
      ∃ modifiers, modifiers.contains .caseInsensitive = true ∧
        modifiers.contains .dotMatchesNewline = true ∧
        a.result = .ok (Token.ofSpan (.literal .regex) (.regex content modifiers)
          (Span.behind [] (Ascii.bytes "/a\\/b/sis"))) := by
  intro s content a
  have hslash : s.head? ≠ some Ascii.slash := by decide
  have hstar : s.head? ≠ some Ascii.star := by decide
  have items : Quoted.Content .regex content :=
    .cons (.plain (by decide) (by decide) (by decide)) <| .cons (.escaped (by decide)) <|
      .cons (.plain (by decide) (by decide) (by decide)) .nil
  have bare : Quoted.Bare .regex (Ascii.bytes "/sis c") := Piece.bare_of_first rfl nofun
  have longest := items.isLongest bare
  obtain ⟨content', rest, taken, hs, longest', -, reads⟩ :=
    next_regex hslash hstar LexicalPreferences.builtin Pattern.parse
  -- There is one longest content, so the content found is this one.
  have length_eq : content'.length = content.length :=
    Nat.le_antisymm (longest.2.2 _ longest'.1 longest'.2.1) (longest'.2.2 _ longest.1 longest.2.1)
  obtain ⟨rfl, rest_eq⟩ : content = content' ∧ Ascii.bytes "/sis c" = rest :=
    List.append_inj hs length_eq.symm
  have fits : content.length ≤ limits.maxLiteralSize := by decide
  obtain ⟨rfl, hmode, token, -⟩ := reads.closed fits (Ascii.bytes "sis c") rest_eq.symm
  have run_eq : (Ascii.bytes "sis c").takeWhile Ascii.isWordByte = Ascii.bytes "sis" := rfl
  rw [run_eq] at token
  obtain ⟨modifiers, -, hi, hdot, result_eq⟩ := token (by decide +kernel)
  exact ⟨hslash, hstar, hmode, modifiers, hi.2 (by decide +kernel), hdot.2 (by decide +kernel),
    result_eq⟩

end Lexer
end RuleLex
