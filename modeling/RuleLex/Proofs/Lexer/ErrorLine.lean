/-
The line of an error.

With a reset after errors every call begins outside literals and comments, passes
a gap and answers for the lexeme behind it.  `error_line` says that an error is
reported on the line of the first byte of that lexeme, wherever in it the fault is
found.  The lines come from three places: a refused lexeme is reported where the
step began, a comment without an end and a literal that is too long or without an
end where they were opened, and a literal that is broken off where the lexer has
come to.  They agree because content takes no line.
-/
import RuleLex.Proofs.Lexer.Approach

namespace RuleLex

/-- The faults of a literal. -/
inductive Quoted.Faults : Quoted → Fault → Prop
  | tooLong (form : Quoted) (n : Nat) : Faults form (.literalTooLong n)
  | unterminated (form : Quoted) : Faults form (Piece.unterminated form)
  | escape (b : UInt8) : Faults .string (.illegalEscapeSequence b)
  | modifier (b : UInt8) : Faults .regex (.invalidRegexModifier b)

/-- The text that an error is about, from its first byte on.  A literal begins with
its opening delimiter. -/
inductive Concerns (service : PatternService) : Fault → List UInt8 → Prop
  | lexeme {fault : Fault} {text : List UInt8} (h : Refused service fault text) :
    Concerns service fault text
  | comment {body : List UInt8} (h : ∀ n, ¬ Comment.IsClosed (body.take n)) :
    Concerns service .unterminatedComment (Ascii.slash :: Ascii.star :: body)
  | literal {form : Quoted} {fault : Fault} {body : List UInt8} (opens : form.Opens body)
    (h : form.Faults fault) : Concerns service fault (form.delimiter :: body)

theorem Interrupts.faults {form : Quoted} {ending : List UInt8} {fault : Fault}
    (h : Interrupts form ending fault) : form.Faults fault := by
  cases h with
  | newline | escapedNewline => exact .unterminated form
  | escape => exact .escape _

/-- A literal that goes on is opened by its delimiter also where less of it is known. -/
theorem Quoted.Opens.of_append {form : Quoted} {body rest : List UInt8}
    (h : form.Opens (body ++ rest)) : form.Opens body := by
  intro hform
  obtain ⟨hslash, hstar⟩ := h hform
  cases body with
  | nil => exact ⟨nofun, nofun⟩
  | cons b body => exact ⟨hslash, hstar⟩

namespace Lexer

/-- An error inside a literal is reported on the line of the opening delimiter if
the lexer is on it, and takes some of the literal with it. -/
theorem Ends.of_error {lx : Lexer} {form : Quoted} {opening : Position} {e : LexError}
    (h : Ends lx form opening) (hline : lx.line = opening.line)
    (he : lx.next.result = .error e) :
    e.line = opening.line ∧ form.Faults e.fault ∧
      ∃ body rest mode, lx.rest = body ++ rest ∧ Answers lx (.error e) body.length mode := by
  cases h with
  | @tooLong content tail n splits long within answers =>
    obtain rfl := Except.error.inj (he.symm.trans answers.result_eq)
    refine ⟨rfl, .tooLong form n, content.take n, content.drop n ++ tail,
      lx.brokenMode form opening, ?_, ?_⟩
    · rw [← List.append_assoc, List.take_append_drop]
      exact splits.eq_append
    · rw [List.length_take_of_le within]
      exact answers
  | closed splits fits closes answers =>
    cases he.symm.trans answers.result_eq
  | @misflagged content run rest b hform splits fits misflagged answers =>
    obtain rfl := Except.error.inj (he.symm.trans answers.result_eq)
    refine ⟨hline, hform ▸ .modifier b, content ++ Ascii.slash :: run, rest, _, ?_, answers⟩
    rw [List.append_assoc]
    exact splits.eq_append
  | @interrupted content ending rest fault splits fits interrupts answers =>
    obtain rfl := Except.error.inj (he.symm.trans answers.result_eq)
    refine ⟨hline, interrupts.faults, content ++ ending, rest, _, ?_, answers⟩
    rw [List.append_assoc]
    exact splits.eq_append
  | exhausted splits fits atEnd answers =>
    obtain rfl := Except.error.inj (he.symm.trans answers.result_eq)
    exact ⟨rfl, .unterminated form, lx.rest, [], _, (List.append_nil _).symm, answers⟩

/-- An error of a call outside literals and comments is about the text behind a gap
and reported on the line on which this text begins. -/
theorem concerns_of_next {lx : Lexer} {e : LexError} (hm : lx.mode = .initial)
    (he : lx.next.result = .error e) :
    ∃ gap text, lx.rest = gap ++ (text ++ lx.next.lexer.rest) ∧
      Padding (text ++ lx.next.lexer.rest) gap ∧ Concerns lx.service e.fault text ∧
      e.line = (lx.position.advanceBytes gap).line := by
  obtain ⟨gap, front, approaches, finds⟩ := exists_front hm
  have result_eq : front.next.result = .error e := approaches.reaches.result_eq.symm.trans he
  have service_eq := approaches.reaches.consumes.service_eq
  have line_eq : front.line = (lx.position.advanceBytes gap).line :=
    congrArg Position.line approaches.position_eq
  have conclude {text : List UInt8} (hrest : front.rest = text ++ front.next.lexer.rest)
      (concerns : Concerns front.service e.fault text) (hline : e.line = front.line) :
      ∃ gap text, lx.rest = gap ++ (text ++ lx.next.lexer.rest) ∧
        Padding (text ++ lx.next.lexer.rest) gap ∧ Concerns lx.service e.fault text ∧
        e.line = (lx.position.advanceBytes gap).line := by
    rw [← approaches.reaches.lexer_eq] at hrest
    refine ⟨gap, text, ?_, ?_, service_eq ▸ concerns, hline.trans line_eq⟩
    · rw [← hrest]
      exact approaches.rest_eq
    · rw [← hrest]
      exact approaches.padding
  cases finds with
  | token ht answers => cases result_eq.symm.trans answers.result_eq
  | refused rest_eq refused answers =>
    obtain rfl := Except.error.inj (result_eq.symm.trans answers.result_eq)
    exact conclude (answers.taken rest_eq) (.lexeme refused) rfl
  | comment rest_eq unclosed answers =>
    obtain rfl := Except.error.inj (result_eq.symm.trans answers.result_eq)
    have taken := answers.taken (List.append_nil _).symm
    exact conclude taken (rest_eq ▸ .comment unclosed) rfl
  | @literal s form opened opens enters =>
    have opened_result := enters.reaches.result_eq.symm.trans result_eq
    obtain ⟨hline, faults, body, rest, mode, hbody, answers⟩ :=
      (ends_of_quoted enters.mode_eq).of_error enters.line_eq opened_result
    obtain ⟨-, taken⟩ := enters.answers answers hbody
    rw [← enters.opened_rest, hbody] at opens
    exact conclude taken (.literal opens.of_append faults) hline

/-- With a reset after errors, every error of a run is reported on the line of the
first byte of the text that it is about.  This text stands behind a gap where the
call began: the opening delimiter of a literal and what was taken of it, the
opener of a comment and the rest of the source, a byte pattern, a word, a sigil
and its name, a number, or a single byte. -/
theorem error_line (source : List UInt8) {preferences : LexicalPreferences}
    (hreset : preferences.resetModeOnError = true) (service : PatternService) (n : Nat)
    {e : LexError}
    (h : ((new source preferences service).calls n).next.result = .error e) :
    let lx := (new source preferences service).calls n
    ∃ before gap text, source = before ++ (gap ++ (text ++ lx.next.lexer.rest)) ∧
      before.length = lx.position.offset ∧ Padding (text ++ lx.next.lexer.rest) gap ∧
      Concerns service e.fault text ∧ e.line = 1 + (before ++ gap).count Ascii.newline := by
  intro lx
  obtain ⟨before, behind⟩ := behind_calls source preferences service n
  obtain ⟨gap, text, rest_eq, padding, concerns, line_eq⟩ :=
    concerns_of_next (mode_calls source service hreset n) h
  refine ⟨before, gap, text, ?_, behind.offset_eq.symm, padding, behind.service_eq ▸ concerns, ?_⟩
  · rw [← rest_eq]
    exact behind.source_eq
  · rw [line_eq, behind.position_eq, ← Position.advanceBytes_append, Position.line_advanceBytes]
    rfl

/-- A comment opened on the second line and missing its end on the third. -/
theorem error_line_comment :
    let source := Ascii.bytes "x\n /* y\nz"
    let lx := (new source LexicalPreferences.builtin Pattern.parse).calls 1
    let e : LexError := { line := 2, fault := .unterminatedComment }
    LexicalPreferences.builtin.resetModeOnError = true ∧ lx.next.result = .error e ∧
      ∃ before gap text, source = before ++ (gap ++ (text ++ lx.next.lexer.rest)) ∧
        before.length = 1 ∧ Concerns Pattern.parse e.fault text ∧
        2 = 1 + (before ++ gap).count Ascii.newline := by
  intro source lx e
  have error_eq : (lx.next.result.map fun _ => ()) = .error e := by decide +kernel
  have he : lx.next.result = .error e := by
    cases hresult : lx.next.result with
    | ok t =>
      rw [hresult] at error_eq
      cases error_eq
    | error other =>
      rw [hresult] at error_eq
      rw [Except.error.inj error_eq]
  have reset : LexicalPreferences.builtin.resetModeOnError = true := rfl
  obtain ⟨before, gap, text, hsource, hbefore, -, concerns, hline⟩ :=
    error_line source reset Pattern.parse 1 he
  have offset : lx.position.offset = 1 := by decide +kernel
  exact ⟨reset, he, before, gap, text, hsource, hbefore.trans offset, concerns, hline⟩

end Lexer
end RuleLex
