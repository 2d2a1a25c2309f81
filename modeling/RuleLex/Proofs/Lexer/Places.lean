/-
Where a run of a lexer has been.

A lexer moves a cursor, which counts lines and remembers where the last one
began.  `trackers_agree` says that after every call, in any mode and behind any
error, this is the place that counting lines and columns over the bytes taken so
far leads to, and that the same holds of the ends of every token.

Some places are older than the call that shows them: a token of a literal starts
at the delimiter that an earlier call may have read, and an error is reported
from where its step began.  `Recorded` lists all of them.
-/
import RuleLex.Proofs.Lexer.Restart
import RuleLex.Proofs.Source.Position

namespace RuleLex

/-- The place of the delimiter a literal or a comment is open at. -/
def Mode.opening? : Mode → Option Position
  | .initial => none
  | .quoted _ opening _ => some opening
  | .comment opening => some opening

/-- The spans of the events are spans of the source. -/
def Log.Located (source : List UInt8) (events : List Log.Event) : Prop :=
  ∀ e ∈ events, ∀ s, e.span = some s → s.On source

/-- All places that an answer shows are places of the source. -/
structure Answer.Located (source : List UInt8) (a : Answer) : Prop where
  opening : ∀ p, a.lexer.mode.opening? = some p → p.On source
  token : ∀ t, a.result = .ok t → t.span.On source
  reports : Log.Located source a.reports

namespace Lexer

/-! ## One step -/

def Step.reports : Step → List Log.Event
  | .goOn _ reports => reports
  | .answer _ _ reports => reports

/-- A step opens a literal or a comment where the lexer is, or not at all. -/
theorem opening_step {lx : Lexer} {p : Position} (h : lx.step.lexer.mode.opening? = some p) :
    p = lx.position ∨ lx.mode.opening? = some p := by
  have outcome := outcome_step lx
  generalize lx.step = step at outcome h
  cases outcome with
  | openComment | openLiteral => exact .inl (Option.some.inj h).symm
  | breakAndReset | closing | badModifier | exhausted | closeComment | openAtEnd => cases h
  | content hm | breakAndStay hm =>
    rw [hm]
    exact .inr h
  | finish | blank | lineComment | token | refused | hexString | hexRefused | drainComment =>
    exact .inr h

/-- A token ends where the lexer is behind it.  It starts where the step began,
or at the delimiter the lexer was open at. -/
theorem span_step {lx after : Lexer} {t : Token} {reports : List Log.Event}
    (h : lx.step = .answer after (.ok t) reports) :
    t.span.stop = after.position ∧
      (t.span.start = lx.position ∨ lx.mode.opening? = some t.span.start) := by
  have outcome := outcome_step lx
  rw [h] at outcome
  cases outcome with
  | finish | token | hexString => exact ⟨rfl, .inl rfl⟩
  | closing hm =>
    rw [hm]
    exact ⟨rfl, .inr rfl⟩

theorem span_transitionReports {lx : Lexer} {mode : Mode} {e : Log.Event}
    (h : e ∈ lx.transitionReports mode) : e.span = none := by
  unfold transitionReports at h
  split at h
  · rw [List.mem_singleton.1 h]
    rfl
  · cases h

/-- What a step reports on its way has no span. -/
theorem span_reports_step {lx : Lexer} {e : Log.Event} (h : e ∈ lx.step.reports) :
    e.span = none := by
  have outcome := outcome_step lx
  generalize lx.step = step at outcome h
  cases outcome with
  | openComment | openLiteral | breakAndReset | closing | badModifier | exhausted | closeComment
  | openAtEnd => exact span_transitionReports h
  | finish | blank | lineComment | token | refused | hexString | hexRefused | content
  | breakAndStay | drainComment => cases h

/-! ## One answer -/

variable {source before : List UInt8} {service : PatternService}
variable {preferences : LexicalPreferences} {lx after : Lexer}

theorem Behind.on (h : Behind source service preferences before lx) : lx.position.On source := by
  rw [h.position_eq, h.source_eq]
  exact Position.on_append before lx.rest

theorem Behind.opening_step (h : Behind source service preferences before lx)
    (hopening : ∀ p, lx.mode.opening? = some p → p.On source) :
    ∀ p, lx.step.lexer.mode.opening? = some p → p.On source := by
  intro p hp
  rcases Lexer.opening_step hp with rfl | opened
  · exact h.on
  · exact hopening p opened

theorem located_append {reports : List Log.Event} (h : Log.Located source reports) (lx : Lexer) :
    Log.Located source (reports ++ lx.step.reports) := by
  intro e he s hs
  rcases List.mem_append.1 he with old | new
  · exact h e old s hs
  · rw [span_reports_step new] at hs
    cases hs

theorem Behind.located_settle {reports : List Log.Event} {result : Except LexError Token}
    {start : Position} (h : Behind source service preferences before after)
    (hstart : start.On source) (hopening : ∀ p, after.mode.opening? = some p → p.On source)
    (htoken : ∀ t, result = .ok t → t.span.On source) (hreports : Log.Located source reports) :
    (Lexer.settle start after result reports).Located source := by
  cases result with
  | ok t => exact ⟨hopening, fun u hu => htoken u hu, hreports⟩
  | error e =>
    refine ⟨hopening, nofun, ?_⟩
    intro event he s hs
    rcases List.mem_append.1 he with old | new
    · exact hreports event old s hs
    · rw [List.mem_singleton.1 new] at hs
      cases hs
      exact ⟨hstart, h.on⟩

theorem Behind.located_nextFrom (h : Behind source service preferences before lx)
    (hopening : ∀ p, lx.mode.opening? = some p → p.On source) (reports : List Log.Event)
    (hreports : Log.Located source reports) :
    (Lexer.nextFrom reports lx).Located source := by
  fun_induction Lexer.nextFrom reports lx generalizing before with
  | case1 reports lx after new hstep ih =>
    obtain ⟨n, hn⟩ := consumes_step lx
    have opening := h.opening_step hopening
    have located := located_append hreports lx
    rw [hstep] at hn opening located
    exact ih (h.consumes hn) opening located
  | case2 reports lx after result new hstep =>
    obtain ⟨n, hn⟩ := consumes_step lx
    have opening := h.opening_step hopening
    have located := located_append hreports lx
    rw [hstep] at hn opening located
    have behind := h.consumes hn
    refine behind.located_settle h.on opening ?_ located
    rintro t rfl
    obtain ⟨stop, start⟩ := span_step hstep
    refine ⟨?_, stop ▸ behind.on⟩
    rcases start with start | opened
    · exact start ▸ h.on
    · exact hopening _ opened

/-! ## Runs -/

/-- A place that a run of calls shows: where the lexer is between two calls, the
delimiter it is open at, or an end of a token's or a report's span. -/
inductive Recorded (lx : Lexer) : Position → Prop
  | between (n : Nat) : Recorded lx (lx.calls n).position
  | opening {n : Nat} {p : Position} (h : (lx.calls n).mode.opening? = some p) : Recorded lx p
  | tokenStart {n : Nat} {t : Token} (h : (lx.calls n).next.result = .ok t) :
    Recorded lx t.span.start
  | tokenStop {n : Nat} {t : Token} (h : (lx.calls n).next.result = .ok t) :
    Recorded lx t.span.stop
  | reportStart {n : Nat} {e : Log.Event} {s : Span} (he : e ∈ (lx.calls n).next.reports)
    (hs : e.span = some s) : Recorded lx s.start
  | reportStop {n : Nat} {e : Log.Event} {s : Span} (he : e ∈ (lx.calls n).next.reports)
    (hs : e.span = some s) : Recorded lx s.stop

theorem opening_calls (source : List UInt8) (preferences : LexicalPreferences)
    (service : PatternService) (n : Nat) :
    ∀ p, ((new source preferences service).calls n).mode.opening? = some p → p.On source := by
  induction n with
  | zero =>
    intro p hp
    cases hp
  | succ n ih =>
    obtain ⟨before, hbehind⟩ := behind_calls source preferences service n
    rw [calls_succ]
    exact (hbehind.located_nextFrom ih [] (by simp [Log.Located])).opening

theorem located_next (source : List UInt8) (preferences : LexicalPreferences)
    (service : PatternService) (n : Nat) :
    ((new source preferences service).calls n).next.Located source := by
  obtain ⟨before, hbehind⟩ := behind_calls source preferences service n
  exact hbehind.located_nextFrom (opening_calls source preferences service n) []
    (by simp [Log.Located])

theorem Recorded.on {p : Position} (h : Recorded (new source preferences service) p) :
    p.On source := by
  have located := located_next source preferences service
  cases h with
  | between n =>
    obtain ⟨before, hbehind⟩ := behind_calls source preferences service n
    exact hbehind.on
  | opening h => exact opening_calls source preferences service _ p h
  | tokenStart h => exact ((located _).token _ h).start
  | tokenStop h => exact ((located _).token _ h).stop
  | reportStart he hs => exact ((located _).reports _ he _ hs).start
  | reportStop he hs => exact ((located _).reports _ he _ hs).stop

/-- After every call the cursor is where counting over the bytes taken so far
leads, and so are both ends of every token.  All places a run shows have lines
and columns that fit into a word, and are told apart and ordered by their
offsets. -/
theorem trackers_agree {source : List UInt8} (hsize : source.length < UInt32.size - 1)
    (preferences : LexicalPreferences) (service : PatternService) :
    let run := new source preferences service
    (∀ n,
      let lx := run.calls n
      let taken := source.take lx.cursor.offset
      source = taken ++ lx.rest ∧
      lx.cursor.position = Position.start.advanceBytes taken ∧
      lx.line = 1 + taken.count Ascii.newline ∧
      ∀ t, lx.next.result = .ok t →
        t.span.start = Position.start.advanceBytes (source.take t.span.start.offset) ∧
        t.span.stop = Position.start.advanceBytes (source.take t.span.stop.offset)) ∧
    (∀ p, Recorded run p → p.line < UInt32.size ∧ p.column < UInt32.size) ∧
    ∀ p q, Recorded run p → Recorded run q →
      (p = q ↔ p.offset = q.offset) ∧ p.compare q = Ord.compare p.offset q.offset := by
  intro run
  refine ⟨fun n => ?_, fun p hp => ?_, fun p q hp hq => ?_⟩
  · intro lx taken
    obtain ⟨before, hbehind⟩ := behind_calls source preferences service n
    have on : lx.position.On source := hbehind.on
    have taken_eq : taken = before := by
      show source.take lx.position.offset = before
      rw [hbehind.offset_eq, hbehind.source_eq, List.take_left]
    have split : source = taken ++ lx.rest := by
      rw [taken_eq]
      exact hbehind.source_eq
    refine ⟨split, on.eq_advanceBytes, on.line_eq, fun t ht => ?_⟩
    have located := (located_next source preferences service n).token t ht
    exact ⟨located.start.eq_advanceBytes, located.stop.eq_advanceBytes⟩
  · have line := hp.on.line_le
    have column := hp.on.column_le
    constructor <;> omega
  · exact ⟨hp.on.eq_iff hq.on, hp.on.compare_eq hq.on⟩

/-- A regular expression that goes on behind an error on its first line: its
token starts on the line before the one the lexer is on. -/
theorem trackers_agree_stuck :
    let source := Ascii.bytes "/a\nb/"
    let stuck := { LexicalPreferences.builtin with resetModeOnError := false }
    let lx := (new source stuck Pattern.parse).calls 1
    source.length < UInt32.size - 1 ∧ lx.mode = .quoted .regex .start [] ∧
      lx.line = 1 + (source.take 3).count Ascii.newline ∧
      ∀ t, lx.next.result = .ok t →
        t.span.start = Position.start.advanceBytes (source.take t.span.start.offset) := by
  intro source stuck lx
  have size : source.length < UInt32.size - 1 := by decide
  have offset : lx.cursor.offset = 3 := by decide +kernel
  obtain ⟨-, -, line, token⟩ := (trackers_agree size stuck Pattern.parse).1 1
  refine ⟨size, by decide +kernel, ?_, fun t ht => (token t ht).1⟩
  rw [← offset]
  exact line

end Lexer
end RuleLex
