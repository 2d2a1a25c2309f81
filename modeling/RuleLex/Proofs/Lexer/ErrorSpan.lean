/-
The spans of logged errors.

The span of a logged error begins where the step began that found the error, and
the line of the error is that of the text it is about.  The two agree for all
errors but one: a literal never leaves the line it was opened on,
`OnOpeningLine`, and everything else is found by the step that reads it.  A
comment that never closes is found at the end of the source, a step behind the
one that took its text, so the span of this error begins there, however many lines
below the opener.

`errors_marked` says so of any requests, and `unclosed_marked_below` is a comment
whose error is logged on one line and marked on the next.
-/
import RuleLex.Proofs.Lexer.ErrorLine
import RuleLex.Proofs.Lexer.Reported

namespace RuleLex

theorem Quoted.Faults.ne_unterminatedComment {form : Quoted} {fault : Fault}
    (h : form.Faults fault) : fault ≠ .unterminatedComment := by
  cases h with
  | unterminated => cases form <;> nofun
  | tooLong | escape | modifier => nofun

namespace Lexer

variable {source before : List UInt8} {service : PatternService}
variable {preferences : LexicalPreferences} {lx after : Lexer}

/-! ## One step -/

/-- An open literal is still on the line it was opened on. -/
def OnOpeningLine (lx : Lexer) : Prop :=
  ∀ form opening content, lx.mode = .quoted form opening content → lx.line = opening.line

theorem onOpeningLine_of_initial (h : lx.mode = .initial) : lx.OnOpeningLine := by
  intro form opening content hm
  rw [h] at hm
  cases hm

theorem line_consume {n : Nat} (h : Ascii.newline ∉ lx.rest.take n) :
    (lx.consume n).line = lx.line := by
  show (lx.consume n).position.line = lx.position.line
  rw [position_consume, Position.line_advanceBytes, List.count_eq_zero_of_not_mem h, Nat.add_zero]

/-- A step without an answer does not lead a literal off its line: the delimiter
and the content it takes hold no newline. -/
theorem OnOpeningLine.goOn {new : List Log.Event} (h : lx.OnOpeningLine)
    (hstep : lx.step = .goOn after new) : after.OnOpeningLine := by
  have outcome := outcome_step lx
  rw [hstep] at outcome
  cases outcome with
  | blank hm | lineComment hm => exact onOpeningLine_of_initial hm
  | closeComment => exact onOpeningLine_of_initial rfl
  | openComment => intro form opening content hm; cases hm
  | drainComment hm =>
    intro form opening content hquoted
    cases hm.symm.trans hquoted
  | @openLiteral _ form hm hfirst =>
    obtain ⟨rfl, behind, hbehind⟩ := Lexeme.literalOpening_text hfirst
    intro other opening content hquoted
    cases hquoted
    have other : Ascii.newline ∉ [form.delimiter] := by cases form <;> decide
    refine line_consume ?_
    rw [hbehind]
    exact other
  | @content _ form opening content hm hfirst fits =>
    have on : lx.line = opening.line := h _ _ _ hm
    intro other place gathered hquoted
    cases hquoted
    exact (line_consume (Piece.content_of_first hfirst).newline_not_mem).trans on

/-- Where the step begins that finds an error: on the line of the error, or at the
end of the source if a comment is still open there. -/
structure BeginsAt (source : List UInt8) (e : LexError) (start : Position) : Prop where
  line_eq : e.fault ≠ .unterminatedComment → start.line = e.line
  end_eq : e.fault = .unterminatedComment → start = Position.start.advanceBytes source

theorem beginsAt_of_line {e : LexError} {start : Position} (hline : start.line = e.line)
    (h : e.fault ≠ .unterminatedComment) : BeginsAt source e start :=
  ⟨fun _ => hline, fun other => absurd other h⟩

theorem Breaks.beginsAt {form : Quoted} {opening : Position} {content : List UInt8} {n : Nat}
    {e : LexError} (h : Breaks lx form opening content n e) (hline : lx.line = opening.line) :
    BeginsAt source e lx.position := by
  cases h with
  | tooLong => exact beginsAt_of_line hline nofun
  | broken hfirst =>
    obtain ⟨ending, rest, -, -, interrupts⟩ := Piece.interrupts_of_first hfirst
    exact beginsAt_of_line rfl interrupts.faults.ne_unterminatedComment

theorem Behind.beginsAt_step {new : List Log.Event} {e : LexError}
    (behind : Behind source service preferences before lx) (hline : lx.OnOpeningLine)
    (hstep : lx.step = .answer after (.error e) new) : BeginsAt source e lx.position := by
  have outcome := outcome_step lx
  rw [hstep] at outcome
  cases outcome with
  | refused hm hfirst =>
    have refused := Lexeme.refused_of_first lx.service hfirst
    exact beginsAt_of_line rfl refused.complete.2
  | hexRefused => exact beginsAt_of_line rfl nofun
  | breakAndReset hm breaks | breakAndStay hm breaks => exact breaks.beginsAt (hline _ _ _ hm)
  | badModifier => exact beginsAt_of_line rfl nofun
  | exhausted hm =>
    exact beginsAt_of_line (hline _ _ _ hm) (Quoted.Faults.unterminated _).ne_unterminatedComment
  | openAtEnd hm hrest =>
    refine ⟨fun other => absurd rfl other, fun _ => ?_⟩
    rw [behind.position_eq, behind.source_eq, hrest, List.append_nil]

/-! ## One call -/

/-- A call that answers an error reports plain events, and behind them the error
from where its step began. -/
theorem Behind.reports_of_error (behind : Behind source service preferences before lx)
    (hline : lx.OnOpeningLine) (reports : List Log.Event) {e : LexError}
    (he : (Lexer.nextFrom reports lx).result = .error e) :
    ∃ traced start, (Lexer.nextFrom reports lx).reports =
        reports ++ (traced ++ [errorReport e start (Lexer.nextFrom reports lx).lexer]) ∧
      (∀ event ∈ traced, event.Plain) ∧ BeginsAt source e start := by
  fun_induction Lexer.nextFrom reports lx generalizing before with
  | case1 reports lx after new hstep ih =>
    have plain := plain_step lx
    obtain ⟨n, hn⟩ := consumes_step lx
    rw [hstep] at plain hn
    obtain ⟨traced, start, hreports, htraced, begins⟩ :=
      ih (behind.consumes hn) (hline.goOn hstep) he
    refine ⟨new ++ traced, start, ?_, fun event hevent => ?_, begins⟩
    · rw [hreports, List.append_assoc, List.append_assoc]
    · exact (List.mem_append.1 hevent).elim (plain event) (htraced event)
  | case2 reports lx after result new hstep =>
    have plain := plain_step lx
    rw [hstep] at plain
    rw [result_settle] at he
    subst he
    exact ⟨new, lx.position, List.append_assoc _ _ _, plain, behind.beginsAt_step hline hstep⟩

/-- The event tells of an error, ends where the call has left the lexer and begins
where the error was found. -/
structure Marks (source : List UInt8) (failure : LexError × Position) (event : Log.Event) : Prop
    extends Tells failure event where
  marks : ∃ start, event.span = some { start := start, stop := failure.2 } ∧
    BeginsAt source failure.1 start

/-- A call outside literals and comments logs its error, if there is one, from where
it was found. -/
theorem Behind.marked_next (behind : Behind source service preferences before lx)
    (hm : lx.mode = .initial) :
    List.Forall₂ (Marks source) lx.failure?.toList
      (lx.next.reports.filter Log.Event.isError) := by
  cases hresult : lx.next.result with
  | ok t =>
    have logged := (logged_next lx).1
    have quiet : lx.failure? = none := by rw [failure?, hresult]
    rw [quiet] at logged ⊢
    rw [List.forall₂_nil_left_iff.1 logged]
    exact .nil
  | error e =>
    obtain ⟨traced, start, hreports, plain, begins⟩ :=
      behind.reports_of_error (onOpeningLine_of_initial hm) [] hresult
    have failed : lx.failure? = some (e, lx.next.lexer.position) := by rw [failure?, hresult]
    have kept : lx.next.reports.filter Log.Event.isError =
        [errorReport e start lx.next.lexer] := by
      rw [Lexer.next, hreports, List.nil_append, List.filter_append,
        (Log.filter_of_plain plain).1]
      rfl
    rw [failed, kept]
    exact .cons ⟨tells_errorReport e start _, start, rfl, begins⟩ .nil

/-! ## Any requests -/

theorem marked_calls {told : List Lexer}
    (h : ∀ l ∈ told, List.Forall₂ (Marks source) l.failure?.toList
      (l.next.reports.filter Log.Event.isError)) :
    List.Forall₂ (Marks source) (failures told)
      (told.flatMap fun l => l.next.reports.filter Log.Event.isError) := by
  induction told with
  | nil => exact .nil
  | cons lx told ih =>
    obtain ⟨first, others⟩ := List.forall_mem_cons.1 h
    rw [failures_cons, List.flatMap_cons]
    exact List.rel_append first (ih others)

/-- The errors that a logger at some level keeps are those reported by the calls
made. -/
theorem errors_serveAll (level : Log.Level) (s : Logged (List Log.Event))
    (requests : List Request) :
    (Logged.serveAll (Log.deliver (some (Log.keeping level))) s requests).written.filter
        Log.Event.isError =
      s.written.filter Log.Event.isError ++
        (s.lexer.asked requests).flatMap fun l => l.next.reports.filter Log.Event.isError := by
  induction requests generalizing s with
  | nil => exact (List.append_nil _).symm
  | cons r requests ih =>
    have one : (s.lexer.serve r).reports.filter Log.Event.isError =
        (s.lexer.asks r).flatMap fun l => l.next.reports.filter Log.Event.isError := by
      rw [reports_serve, List.filter_append, isError_closingReports, List.append_nil,
        List.filter_flatMap]
    have later : Logged.serveAll (Log.deliver (some (Log.keeping level))) s (r :: requests) =
        Logged.serveAll (Log.deliver (some (Log.keeping level)))
          (Logged.serve (Log.deliver (some (Log.keeping level))) s r).2 requests := rfl
    rw [later, ih, serve_keeping, asked, List.filter_append, Log.filter_admits_isError, one,
      List.flatMap_append, List.append_assoc]

theorem ready_asked (source : List UInt8) (service : PatternService)
    (hreset : preferences.resetModeOnError = true) (requests : List Request) :
    ∀ l ∈ (new source preferences service).asked requests,
      l.mode = .initial ∧ ∃ before, Behind source service preferences before l := by
  refine (asked_keeps (Q := fun l => l.mode = .initial ∧
    ∃ before, Behind source service preferences before l) ?_ ?_
    ⟨rfl, [], behind_new source preferences service⟩ requests).1
  · rintro l ⟨-, before, behind⟩
    have reset : l.preferences.resetModeOnError = true := by
      rw [behind.preferences_eq]
      exact hreset
    exact ⟨mode_nextFrom reset [], behind.nextFrom []⟩
  · rintro l b ⟨hm, before, behind⟩
    exact ⟨hm, before, behind.source_eq, behind.position_eq, behind.service_eq,
      behind.preferences_eq⟩

/-- With a reset after errors, a logger at any level that keeps what it takes, and
whatever is asked of a lexer, the errors logged are those that its calls have
answered, one by one and in their order, and the span of each begins on the line
of the error.  Only for a comment that never closes it does not: there it begins
where the source ends. -/
theorem errors_marked (source : List UInt8) {preferences : LexicalPreferences}
    (hreset : preferences.resetModeOnError = true) (service : PatternService)
    (level : Log.Level) (requests : List Request) :
    let log := Log.deliver (some (Log.keeping level))
    let run := new source preferences service
    List.Forall₂ (Marks source) (failures (run.asked requests))
      ((Logged.serveAll log { lexer := run, written := [] } requests).written.filter
        Log.Event.isError) := by
  intro log run
  rw [errors_serveAll]
  refine marked_calls fun l hl => ?_
  obtain ⟨hm, before, behind⟩ := ready_asked source service hreset requests l hl
  exact behind.marked_next hm

/-- A string on the second line, broken off by an escape that there is none of. -/
theorem errors_marked_escape :
    let source := Ascii.bytes "x\n \"a\\q"
    let run := new source LexicalPreferences.builtin Pattern.parse
    let written := (Logged.serveAll (Log.deliver (some (Log.keeping .error)))
      { lexer := run, written := [] } [.next, .next]).written
    let e : LexError := { line := 2, fault := .illegalEscapeSequence 0x71 }
    LexicalPreferences.builtin.resetModeOnError = true ∧
      (failures (run.asked [.next, .next])).map Prod.fst = [e] ∧
      ∃ event span, written.filter Log.Event.isError = [event] ∧ event.span = some span ∧
        span.start.line = 2 := by
  intro source run written e
  have reset : LexicalPreferences.builtin.resetModeOnError = true := rfl
  have failed : (failures (run.asked [.next, .next])).map Prod.fst = [e] := by decide +kernel
  have marked : List.Forall₂ (Marks source) (failures (run.asked [.next, .next]))
      (written.filter Log.Event.isError) :=
    errors_marked source reset Pattern.parse .error [.next, .next]
  obtain ⟨failure, hfailure, herror⟩ := List.map_eq_singleton_iff.1 failed
  rw [hfailure] at marked
  obtain ⟨event, others, marks, alone, hwritten⟩ := List.forall₂_cons_left_iff.1 marked
  rw [List.forall₂_nil_left_iff.1 alone] at hwritten
  obtain ⟨start, hspan, begins⟩ := marks.marks
  refine ⟨reset, failed, event, _, hwritten, hspan, ?_⟩
  rw [herror] at begins
  exact begins.line_eq nofun

/-- The error of a comment opened on the first line and still open on the second:
it names the first line, and its span begins on the second. -/
theorem unclosed_marked_below :
    let source := Ascii.bytes "/*\n"
    let run := new source LexicalPreferences.builtin Pattern.parse
    let written := (Logged.serveAll (Log.deliver (some (Log.keeping .error)))
      { lexer := run, written := [] } [.next]).written
    (failures (run.asked [.next])).map (fun f => f.1.line) = [1] ∧
      (written.filter Log.Event.isError).map (fun event => event.span.map (·.start.line)) =
        [some 2] := by
  decide +kernel

end Lexer
end RuleLex
