/-
A lexer outside literals and comments has no memory.

`restart` says that from any point between two answers at which the lexer is in
the initial mode it goes on as a new lexer over what is left of the source, with
every place moved behind the text before.  With a reset after errors every point
between two answers is such a point.

The two lexers differ in what they count and in the texts they have handed to
the service.  `Tracks` leaves both out and relates all that decides a step; one
step keeps it, and so does a run.
-/
import Mathlib.Data.List.Induction
import Mathlib.Logic.Function.Iterate
import RuleLex.Proofs.Lexer.Consume

namespace RuleLex

/-! ## Moving places -/

/-- The place of `p` once the text `before` stands in front of its source.  Only
the columns of the first line move. -/
def Position.moved (before : List UInt8) (p : Position) : Position where
  offset := before.length + p.offset
  line := before.count Ascii.newline + p.line
  column :=
    if p.line = 1 then (before.reverse.takeWhile (· != Ascii.newline)).length + p.column
    else p.column

def Span.moved (before : List UInt8) (s : Span) : Span :=
  { start := s.start.moved before, stop := s.stop.moved before }

def Token.moved (before : List UInt8) (t : Token) : Token :=
  { t with line := before.count Ascii.newline + t.line, span := t.span.moved before }

def LexError.moved (before : List UInt8) (e : LexError) : LexError :=
  { e with line := before.count Ascii.newline + e.line }

/-- A token or an error, moved. -/
def resultMoved (before : List UInt8) : Except LexError Token → Except LexError Token
  | .ok t => .ok (t.moved before)
  | .error e => .error (e.moved before)

def Mode.moved (before : List UInt8) : Mode → Mode
  | .initial => .initial
  | .quoted form opening content => .quoted form (opening.moved before) content
  | .comment opening => .comment (opening.moved before)

namespace Position

theorem advance_moved {p : Position} (hp : 1 ≤ p.line) (before : List UInt8) (b : UInt8) :
    (p.moved before).advance b = (p.advance b).moved before := by
  unfold advance
  by_cases hb : b = Ascii.newline
  · have : ¬ p.line + 1 = 1 := by omega
    simp only [hb, if_true, moved, if_neg this]
    rfl
  · simp only [if_neg hb, moved]
    congr 1
    split
    · rfl
    · rfl

theorem one_le_line_advance {p : Position} (hp : 1 ≤ p.line) (b : UInt8) :
    1 ≤ (p.advance b).line := by
  unfold advance
  split
  · exact Nat.le_succ_of_le hp
  · exact hp

theorem one_le_line_advanceBytes {p : Position} (hp : 1 ≤ p.line) (bs : List UInt8) :
    1 ≤ (p.advanceBytes bs).line := by
  induction bs generalizing p with
  | nil => exact hp
  | cons b bs ih => exact ih (one_le_line_advance hp b)

theorem advanceBytes_moved {p : Position} (hp : 1 ≤ p.line) (before bs : List UInt8) :
    (p.moved before).advanceBytes bs = (p.advanceBytes bs).moved before := by
  induction bs generalizing p with
  | nil => rfl
  | cons b bs ih =>
    show ((p.moved before).advance b).advanceBytes bs = _
    rw [advance_moved hp, ih (one_le_line_advance hp b)]
    rfl

/-- Where a text ends is where the start moves to behind it. -/
theorem advanceBytes_start (before : List UInt8) :
    start.advanceBytes before = start.moved before := by
  induction before using List.reverseRecOn with
  | nil => rfl
  | append_singleton before b ih =>
    rw [advanceBytes_append, ih]
    show (start.moved before).advance b = _
    unfold advance
    by_cases hb : b = Ascii.newline
    · simp [hb, moved, start]
    · simp [hb, moved, start]

end Position

namespace Lexer

/-! ## Two lexers over the same text -/

/-- `b` is where `a` is, over the same text behind `before`. -/
structure Tracks (before : List UInt8) (a b : Lexer) : Prop where
  rest_eq : b.rest = a.rest
  position_eq : b.position = a.position.moved before
  mode_eq : b.mode = a.mode.moved before
  service_eq : b.service = a.service
  preferences_eq : b.preferences = a.preferences
  line_pos : 1 ≤ a.position.line

/-- Two steps end alike, in lexers that track each other. -/
inductive StepTracks (before : List UInt8) : Step → Step → Prop
  | goOn {a b : Lexer} {reports others : List Log.Event} (h : Tracks before a b) :
    StepTracks before (.goOn a reports) (.goOn b others)
  | answer {a b : Lexer} {r : Except LexError Token} {reports others : List Log.Event}
    (h : Tracks before a b) :
    StepTracks before (.answer a r reports) (.answer b (resultMoved before r) others)

variable {before : List UInt8} {a b : Lexer}

theorem Tracks.consume (h : Tracks before a b) (n : Nat) :
    Tracks before (a.consume n) (b.consume n) := by
  constructor
  · simp only [Lexer.consume, h.rest_eq]
  · rw [position_consume, position_consume, h.rest_eq, h.position_eq]
    exact Position.advanceBytes_moved h.line_pos before _
  · exact h.mode_eq
  · exact h.service_eq
  · exact h.preferences_eq
  · rw [position_consume]
    exact Position.one_le_line_advanceBytes h.line_pos _

theorem Tracks.withMode (h : Tracks before a b) (mode : Mode) :
    Tracks before { a with mode := mode } { b with mode := mode.moved before } :=
  ⟨h.rest_eq, h.position_eq, rfl, h.service_eq, h.preferences_eq, h.line_pos⟩

theorem Tracks.enter (h : Tracks before a b) (mode : Mode) :
    Tracks before (a.enter mode) (b.enter (mode.moved before)) :=
  ⟨h.rest_eq, h.position_eq, rfl, h.service_eq, h.preferences_eq, h.line_pos⟩

theorem Tracks.withMetrics (h : Tracks before a b) (metrics others : Metrics) :
    Tracks before { a with metrics := metrics } { b with metrics := others } :=
  ⟨h.rest_eq, h.position_eq, h.mode_eq, h.service_eq, h.preferences_eq, h.line_pos⟩

theorem Tracks.withConsulted (h : Tracks before a b) (texts others : List (List UInt8)) :
    Tracks before { a with consulted := texts } { b with consulted := others } :=
  ⟨h.rest_eq, h.position_eq, h.mode_eq, h.service_eq, h.preferences_eq, h.line_pos⟩

theorem Tracks.goOnIn (h : Tracks before a b) (mode : Mode) :
    StepTracks before (a.goOnIn mode) (b.goOnIn (mode.moved before)) :=
  .goOn (h.enter mode)

theorem Tracks.answerInitial (h : Tracks before a b) (result : Except LexError Token) :
    StepTracks before (a.answerInitial result) (b.answerInitial (resultMoved before result)) :=
  .answer (h.enter .initial)

theorem Tracks.breakOff (h : Tracks before a b) (form : Quoted) (opening : Position)
    (e : LexError) :
    StepTracks before (a.breakOff form opening e)
      (b.breakOff form (opening.moved before) (e.moved before)) := by
  have same : b.preferences.resetModeOnError = a.preferences.resetModeOnError := by
    rw [h.preferences_eq]
  unfold Lexer.breakOff
  by_cases reset : a.preferences.resetModeOnError = true
  · rw [if_pos reset, if_pos (same.trans reset)]
    exact h.answerInitial (.error e)
  · rw [if_neg reset, if_neg (same ▸ reset)]
    exact StepTracks.answer (r := .error e) (h.withMode (.quoted form opening []))

theorem Tracks.tokenBetween (h : Tracks before a b) (start : Position) (kind : TokenKind)
    (value : TokenValue) :
    tokenBetween (start.moved before) b kind value =
      (Lexer.tokenBetween start a kind value).moved before := by
  unfold Lexer.tokenBetween
  rw [h.position_eq]
  rfl

theorem Tracks.consult (h : Tracks before a b) (start : Position) (text : List UInt8) :
    StepTracks before (consult start a text) (Lexer.consult (start.moved before) b text) := by
  have consulted := h.withConsulted (text :: a.consulted) (text :: b.consulted)
  have same : b.service text = a.service text := by rw [h.service_eq]
  unfold Lexer.consult
  cases hresult : a.service text with
  | ok elements =>
    simp only [same, hresult]
    rw [consulted.tokenBetween]
    exact .answer consulted
  | error e =>
    simp only [same, hresult]
    exact StepTracks.answer (r := .error _) consulted

theorem Tracks.stepInitial (h : Tracks before a b) :
    StepTracks before a.stepInitial b.stepInitial := by
  unfold Lexer.stepInitial
  rw [h.rest_eq, h.position_eq]
  split
  · rw [h.tokenBetween]
    exact .answer h
  · rename_i lexeme n hfirst
    have after := h.consume n
    simp only
    split
    · exact .goOn after
    · exact .goOn (after.withMetrics _ _)
    · exact (after.withMetrics _ _).goOnIn _
    · exact after.goOnIn _
    · exact after.consult _ _
    · rw [after.tokenBetween]
      exact .answer after
    · exact .answer after

theorem Tracks.stepQuoted (h : Tracks before a b) (form : Quoted) (opening : Position)
    (content : List UInt8) :
    StepTracks before (a.stepQuoted form opening content)
      (b.stepQuoted form (opening.moved before) content) := by
  have hline : b.line = before.count Ascii.newline + a.line :=
    congrArg Position.line h.position_eq
  unfold Lexer.stepQuoted
  rw [h.rest_eq, hline]
  split
  rename_i piece n hfirst
  have after := h.consume n
  simp only
  split
  · split
    · exact after.breakOff form opening _
    · exact .goOn (after.withMode (.quoted form opening _))
  · have counted := after.withMetrics ((a.consume n).metrics.addLiteral content.length)
      ((b.consume n).metrics.addLiteral content.length)
    rw [after.tokenBetween]
    exact counted.answerInitial (.ok _)
  · exact after.answerInitial (.error _)
  · exact after.breakOff form opening _
  · exact after.answerInitial (.error _)

theorem Tracks.stepComment (h : Tracks before a b) (opening : Position) :
    StepTracks before (a.stepComment opening) (b.stepComment (opening.moved before)) := by
  unfold Lexer.stepComment
  rw [h.rest_eq]
  split
  · exact h.answerInitial (.error _)
  · split
    · exact (h.consume _).goOnIn .initial
    · exact .goOn (h.consume _)

/-- Lexers that track each other take the same step. -/
theorem Tracks.step (h : Tracks before a b) : StepTracks before a.step b.step := by
  unfold Lexer.step
  rw [h.mode_eq]
  cases a.mode with
  | initial => exact h.stepInitial
  | quoted form opening content => exact h.stepQuoted form opening content
  | comment opening => exact h.stepComment opening

/-! ## Runs -/

theorem Tracks.settle (h : Tracks before a b) (p q : Position) (r : Except LexError Token)
    (reports others : List Log.Event) :
    Tracks before (settle p a r reports).lexer
      (settle q b (resultMoved before r) others).lexer := by
  cases r with
  | ok t => exact h.withMetrics _ _
  | error e => exact h.withMetrics _ _

theorem Tracks.nextFrom (h : Tracks before a b) (reports others : List Log.Event) :
    (nextFrom others b).result = resultMoved before (nextFrom reports a).result ∧
      Tracks before (Lexer.nextFrom reports a).lexer (Lexer.nextFrom others b).lexer := by
  fun_induction Lexer.nextFrom reports a generalizing b others with
  | case1 reports a after new hstep ih =>
    have steps := h.step
    rw [hstep] at steps
    generalize hother : b.step = other at steps
    cases steps with
    | goOn tracks =>
      rw [nextFrom_of_goOn hother]
      exact ih tracks _
  | case2 reports a after r new hstep =>
    have steps := h.step
    rw [hstep] at steps
    generalize hother : b.step = other at steps
    cases steps with
    | answer tracks =>
      rw [nextFrom_of_answer hother, result_settle, result_settle]
      exact ⟨rfl, tracks.settle _ _ _ _ _⟩

/-- The lexer after `n` answers, tokens and errors alike. -/
def calls (n : Nat) (lx : Lexer) : Lexer := (fun l => l.next.lexer)^[n] lx

theorem calls_succ (n : Nat) (lx : Lexer) : lx.calls (n + 1) = (lx.calls n).next.lexer :=
  Function.iterate_succ_apply' _ _ _

theorem Tracks.calls (h : Tracks before a b) (n : Nat) :
    Tracks before (a.calls n) (b.calls n) := by
  induction n with
  | zero => exact h
  | succ n ih =>
    rw [calls_succ, calls_succ]
    exact (ih.nextFrom [] []).2

variable {source : List UInt8} {service : PatternService} {preferences : LexicalPreferences}

theorem behind_calls (source : List UInt8) (preferences : LexicalPreferences)
    (service : PatternService) (n : Nat) :
    ∃ before, Behind source service preferences before
      ((new source preferences service).calls n) := by
  induction n with
  | zero => exact ⟨[], behind_new source preferences service⟩
  | succ n ih =>
    obtain ⟨before, hbehind⟩ := ih
    rw [calls_succ]
    exact hbehind.nextFrom []

theorem Behind.tracks_new {lx : Lexer} (h : Behind source service preferences before lx)
    (hm : lx.mode = .initial) : Tracks before (new lx.rest preferences service) lx := by
  refine ⟨rfl, ?_, hm, h.service_eq, h.preferences_eq, Nat.le_refl 1⟩
  rw [h.position_eq, Position.advanceBytes_start]
  rfl

/-! ### Resets -/

theorem mode_of_answer {lx after : Lexer} {r : Except LexError Token} {reports : List Log.Event}
    (hreset : lx.preferences.resetModeOnError = true)
    (h : lx.step = .answer after r reports) : after.mode = .initial := by
  have outcome := outcome_step lx
  rw [h] at outcome
  cases outcome with
  | finish hm | token hm | refused hm | hexString hm | hexRefused hm => exact hm
  | breakAndStay hm hbreaks hstay =>
    rw [hreset] at hstay
    cases hstay
  | breakAndReset | closing | badModifier | exhausted | openAtEnd => rfl

theorem mode_nextFrom {lx : Lexer} (hreset : lx.preferences.resetModeOnError = true)
    (reports : List Log.Event) : (nextFrom reports lx).lexer.mode = .initial := by
  fun_induction nextFrom reports lx with
  | case1 reports lx after new hstep ih =>
    obtain ⟨n, hn⟩ := consumes_step lx
    rw [hstep] at hn
    apply ih
    rw [show after.preferences = lx.preferences from hn.preferences_eq]
    exact hreset
  | case2 reports lx after r new hstep =>
    have answered := mode_of_answer hreset hstep
    rw [lexer_settle]
    exact answered

theorem mode_calls (source : List UInt8) (service : PatternService)
    (hreset : preferences.resetModeOnError = true) (n : Nat) :
    ((new source preferences service).calls n).mode = .initial := by
  cases n with
  | zero => rfl
  | succ n =>
    obtain ⟨before, hbehind⟩ := behind_calls source preferences service n
    rw [calls_succ]
    apply mode_nextFrom
    rw [hbehind.preferences_eq]
    exact hreset

/-- After any number of answers in the initial mode a lexer goes on as a new one
over the rest of its source, moved behind the text before.  With a reset after
errors it is in the initial mode after every answer. -/
theorem restart (source : List UInt8) (preferences : LexicalPreferences)
    (service : PatternService) (n : Nat) :
    let lx := (new source preferences service).calls n
    let before := source.take lx.position.offset
    let fresh := new (source.drop lx.position.offset) preferences service
    (lx.mode = .initial → ∀ m,
      (lx.calls m).next.result = resultMoved before (fresh.calls m).next.result ∧
        (lx.calls m).mode = (fresh.calls m).mode.moved before ∧
        (lx.calls m).position = (fresh.calls m).position.moved before) ∧
      (preferences.resetModeOnError = true → lx.mode = .initial) := by
  intro lx before fresh
  refine ⟨?_, fun hreset => mode_calls source service hreset n⟩
  intro hm m
  obtain ⟨text, hbehind⟩ := behind_calls source preferences service n
  have hsplit : source = text ++ lx.rest := hbehind.source_eq
  have hoffset : lx.position.offset = text.length := hbehind.offset_eq
  have hbefore : before = text := by
    simp only [before, hoffset]
    rw [hsplit, List.take_left]
  have hrest : source.drop lx.position.offset = lx.rest := by
    rw [hoffset, hsplit, List.drop_left]
  have htracks : Tracks text fresh lx := by
    simp only [fresh, hrest]
    exact hbehind.tracks_new hm
  rw [hbefore]
  have tracks := htracks.calls m
  exact ⟨(tracks.nextFrom [] []).1, tracks.mode_eq, tracks.position_eq⟩

theorem restart_after_error :
    let source := Ascii.bytes "\"a\n b"
    let lx := (new source LexicalPreferences.builtin Pattern.parse).calls 1
    lx.mode = .initial ∧ lx.position.offset = 3 ∧
      lx.next.result = resultMoved (source.take 3)
        (new (source.drop 3) LexicalPreferences.builtin Pattern.parse).next.result := by
  intro source lx
  have law := restart source LexicalPreferences.builtin Pattern.parse 1
  have hoffset : lx.position.offset = 3 := by decide +kernel
  have hmode : lx.mode = .initial := law.2 rfl
  have hresult := (law.1 hmode 0).1
  rw [show ((new source LexicalPreferences.builtin Pattern.parse).calls 1).position.offset = 3
    from hoffset] at hresult
  exact ⟨hmode, hoffset, hresult⟩

end Lexer
end RuleLex
