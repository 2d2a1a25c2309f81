/-
Errors and completed sources in the log.

A call reports traced changes of mode and, behind them, its error if there is
one, `reports_nextFrom`.  Errors are serious enough for a logger at any level, so
what such a logger keeps has one event for every error a call has answered, in
the same order.  Beside its calls only a request for a whole source reports
anything, once it has succeeded.

`errors_logged` says so of any requests, with what the events tell.
-/
import Mathlib.Data.List.Forall2
import RuleLex.Proofs.Lexer.Places
import RuleLex.Proofs.Lexer.Requests

namespace RuleLex
namespace Log

/-! ## Details by name -/

theorem Context.lookup_insert (key value name : String) (c : Context) :
    (c.insert key value).lookup name = if name = key then some value else c.lookup name := by
  induction c with
  | nil =>
    rw [insert, List.lookup_cons]
    split <;> simp_all
  | cons entry rest ih =>
    obtain ⟨k, v⟩ := entry
    rw [insert]
    split
    · rename_i hkey
      subst hkey
      rw [List.lookup_cons, List.lookup_cons]
      split <;> simp_all
    · rename_i hkey
      split
      · rw [List.lookup_cons]
        split <;> simp_all
      · rw [List.lookup_cons, List.lookup_cons, ih]
        split
        · rename_i hname
          rw [if_neg (by rw [beq_iff_eq.1 hname]; exact fun h => hkey h.symm)]
        · rfl

/-! ## Loggers that keep what they take -/

/-- A logger at some level that keeps the events in their order. -/
def keeping (level : Level) : Sink (List Event) where
  level := level
  record := fun kept e => kept ++ [e]

theorem foldl_keeping (level : Level) (kept events : List Event) :
    events.foldl (deliver (some (keeping level))) kept =
      kept ++ events.filter fun e => level.admits e.level := by
  induction events generalizing kept with
  | nil => exact (List.append_nil kept).symm
  | cons e events ih =>
    have one : deliver (some (keeping level)) kept e =
        if level.admits e.level then kept ++ [e] else kept := rfl
    rw [List.foldl_cons, ih, one, List.filter_cons]
    split
    · rw [List.append_assoc]
      rfl
    · rfl

theorem Level.admits_error (level : Level) : level.admits .error = true := by
  cases level <;> rfl

/-- The event tells of a source that has been read to its end. -/
def Event.completes (e : Event) : Bool := e.code == Code.tokenizationComplete

/-- The event tells of no error and of no completed source. -/
def Event.Plain (e : Event) : Prop := e.isError = false ∧ e.completes = false

theorem plain_debug (message : String) (entries : List (String × String)) :
    ((Event.debug message).withContext entries).Plain := ⟨rfl, rfl⟩

theorem filter_of_plain {events : List Event} (h : ∀ e ∈ events, e.Plain) :
    events.filter Event.isError = [] ∧ events.filter Event.completes = [] :=
  ⟨List.filter_eq_nil_iff.2 fun e he => by rw [(h e he).1]; nofun,
    List.filter_eq_nil_iff.2 fun e he => by rw [(h e he).2]; nofun⟩

/-- No logger passes an error over. -/
theorem filter_admits_isError (level : Level) (events : List Event) :
    (events.filter fun e => level.admits e.level).filter Event.isError =
      events.filter Event.isError := by
  rw [List.filter_filter]
  refine List.filter_congr fun e _ => ?_
  cases herror : e.isError with
  | false => rfl
  | true =>
    have hlevel : e.level = .error := beq_iff_eq.1 herror
    rw [hlevel, Level.admits_error]
    rfl

end Log

namespace Lexer

/-! ## One call -/

/-- What the log says of an answer. -/
inductive Raised (place : Position) : Except LexError Token → List Log.Event → Prop
  | token (t : Token) : Raised place (.ok t) []
  | error {lx : Lexer} (e : LexError) (start : Position) (h : lx.position = place) :
    Raised place (.error e) [errorReport e start lx]

theorem plain_transitionReports (lx : Lexer) (mode : Mode) :
    ∀ e ∈ lx.transitionReports mode, e.Plain := by
  unfold transitionReports
  split
  · intro e he
    rw [List.mem_singleton.1 he]
    exact Log.plain_debug _ _
  · intro e he
    cases he

theorem plain_step (lx : Lexer) : ∀ e ∈ lx.step.reports, e.Plain := by
  have outcome := outcome_step lx
  generalize lx.step = step at outcome ⊢
  cases outcome with
  | openComment | openLiteral | breakAndReset | closing | badModifier | exhausted | closeComment
  | openAtEnd => exact plain_transitionReports _ _
  | _ => intro e he; cases he

theorem raised_settle (start : Position) (lx : Lexer) (result : Except LexError Token)
    (reports : List Log.Event) :
    ∃ told, (settle start lx result reports).reports = reports ++ told ∧
      Raised (settle start lx result reports).lexer.position result told := by
  cases result with
  | ok t => exact ⟨[], (List.append_nil _).symm, .token t⟩
  | error e => exact ⟨_, rfl, .error e start rfl⟩

/-- A call reports plain events, and behind them what there is to say of its
answer. -/
theorem reports_nextFrom (reports : List Log.Event) (lx : Lexer) :
    ∃ traced told, (nextFrom reports lx).reports = reports ++ (traced ++ told) ∧
      (∀ e ∈ traced, e.Plain) ∧
      Raised (nextFrom reports lx).lexer.position (nextFrom reports lx).result told := by
  fun_induction nextFrom reports lx with
  | case1 reports lx after new hstep ih =>
    have plain := plain_step lx
    rw [hstep] at plain
    obtain ⟨traced, told, hreports, htraced, raised⟩ := ih
    refine ⟨new ++ traced, told, ?_, fun e he => ?_, raised⟩
    · rw [hreports, List.append_assoc, List.append_assoc]
    · exact (List.mem_append.1 he).elim (plain e) (htraced e)
  | case2 reports lx after result new hstep =>
    have plain := plain_step lx
    rw [hstep] at plain
    obtain ⟨told, hreports, raised⟩ := raised_settle lx.position after result (reports ++ new)
    refine ⟨new, told, ?_, plain, ?_⟩
    · rw [hreports, List.append_assoc]
    · rw [result_settle]
      exact raised

/-- The error that a call answers, with the place of the lexer after it. -/
def failure? (lx : Lexer) : Option (LexError × Position) :=
  match lx.next.result with
  | .ok _ => none
  | .error e => some (e, lx.next.lexer.position)

/-- The event tells of an error and ends at a place. -/
structure Tells (failure : LexError × Position) (event : Log.Event) : Prop where
  code_eq : event.code = failure.1.code
  message_eq : event.message = Text.cut limits.maxLogMessageLength failure.1.message
  line_eq : event.context.lookup "line" = some (toString failure.1.line)
  stop_eq : event.span.map Span.stop = some failure.2

theorem tells_errorReport (e : LexError) (start : Position) (lx : Lexer) :
    Tells (e, lx.position) (errorReport e start lx) where
  code_eq := rfl
  message_eq := by
    simp only [errorReport, Log.Event.withContext, Log.Event.withSpan, Log.Event.error,
      Log.Event.make]
  line_eq := by
    simp [errorReport, Log.Event.withContext, Log.Event.withSpan, Log.Context.lookup_insert]
  stop_eq := rfl

theorem completes_errorReport (e : LexError) (start : Position) (lx : Lexer) :
    (errorReport e start lx).completes = false := by
  show (e.fault.code == Log.Code.tokenizationComplete) = false
  cases e.fault <;> rfl

/-- A call logs its error, if there is one, and completes nothing. -/
theorem logged_next (lx : Lexer) :
    List.Forall₂ Tells lx.failure?.toList (lx.next.reports.filter Log.Event.isError) ∧
      lx.next.reports.filter Log.Event.completes = [] := by
  obtain ⟨traced, told, hreports, plain, raised⟩ := reports_nextFrom [] lx
  obtain ⟨quiet, incomplete⟩ := Log.filter_of_plain plain
  rw [next, hreports, List.nil_append, List.filter_append, List.filter_append, quiet, incomplete,
    List.nil_append, List.nil_append, failure?, next]
  generalize (nextFrom [] lx).result = result at raised ⊢
  cases raised with
  | token t => exact ⟨.nil, rfl⟩
  | error e start h =>
    rw [← h]
    refine ⟨.cons (tells_errorReport e start _) .nil, ?_⟩
    rw [List.filter_cons_of_neg (by rw [completes_errorReport]; exact Bool.false_ne_true)]
    rfl

/-! ## One request -/

/-- The errors that some calls answer, each with the place of the lexer after
it. -/
def failures (told : List Lexer) : List (LexError × Position) := told.filterMap failure?

theorem failures_cons (lx : Lexer) (told : List Lexer) :
    failures (lx :: told) = lx.failure?.toList ++ failures told := by
  rw [failures, List.filterMap_cons]
  cases lx.failure? <;> rfl

theorem failures_append (told more : List Lexer) :
    failures (told ++ more) = failures told ++ failures more := List.filterMap_append

theorem logged_calls (told : List Lexer) :
    List.Forall₂ Tells (failures told)
        ((told.flatMap fun l => l.next.reports).filter Log.Event.isError) ∧
      (told.flatMap fun l => l.next.reports).filter Log.Event.completes = [] := by
  induction told with
  | nil => exact ⟨.nil, rfl⟩
  | cons lx told ih =>
    obtain ⟨tells, incomplete⟩ := logged_next lx
    rw [List.flatMap_cons, List.filter_append, List.filter_append, incomplete, ih.2,
      failures_cons]
    exact ⟨List.rel_append tells ih.1, rfl⟩

/-- The event tells how many tokens a source has and on which line it ends. -/
structure Completed (tokens : List Token) (lx : Lexer) (event : Log.Event) : Prop where
  level_eq : event.level = .info
  count_eq : event.context.lookup "token_count" = some (toString tokens.length)
  lines_eq : event.context.lookup "lines" = some (toString lx.line)

theorem completed_completionReport (tokens : List Token) (lx : Lexer) :
    Completed tokens lx (lx.completionReport tokens) where
  level_eq := rfl
  count_eq := by simp [completionReport, Log.Event.withContext, Log.Context.lookup_insert]
  lines_eq := by simp [completionReport, Log.Event.withContext, Log.Context.lookup_insert]

/-- What a logger at some level keeps of a completed source. -/
def CompletionKept (level : Log.Level) (reply : Reply) (lx : Lexer)
    (events : List Log.Event) : Prop :=
  match reply with
  | .all (.ok tokens) =>
    if level = .info ∨ level = .debug then
      ∃ e, events.filter Log.Event.completes = [e] ∧ Completed tokens lx e
    else events.filter Log.Event.completes = []
  | _ => events.filter Log.Event.completes = []

theorem isError_closingReports (served : Served) :
    (closingReports served).filter Log.Event.isError = [] := by
  unfold closingReports
  split <;> rfl

theorem completionKept_closingReports (level : Log.Level) (served : Served) :
    CompletionKept level served.reply served.lexer
      ((closingReports served).filter fun e => level.admits e.level) := by
  obtain ⟨reply, lx, reports⟩ := served
  match reply with
  | .all (.ok tokens) =>
    have completed := completed_completionReport tokens lx
    cases level with
    | error | warning => rfl
    | info => exact ⟨_, rfl, completed⟩
    | debug => exact ⟨_, rfl, completed⟩
  | .all (.error _) | .next _ | .item _ => rfl

/-- A request logs the errors of the calls it makes, and its completion. -/
theorem logged_serve (level : Log.Level) (lx : Lexer) (r : Request) :
    let served := lx.serve r
    let kept := served.reports.filter fun e => level.admits e.level
    List.Forall₂ Tells (failures (lx.asks r)) (kept.filter Log.Event.isError) ∧
      CompletionKept level served.reply served.lexer kept := by
  intro served kept
  obtain ⟨tells, incomplete⟩ := logged_calls (lx.asks r)
  have reports : served.reports =
      (lx.asks r).flatMap (fun l => l.next.reports) ++ closingReports served := reports_serve lx r
  constructor
  · rw [Log.filter_admits_isError, reports, List.filter_append, isError_closingReports,
      List.append_nil]
    exact tells
  · have quiet : kept.filter Log.Event.completes =
        ((closingReports served).filter fun e => level.admits e.level).filter
          Log.Event.completes := by
      show (served.reports.filter fun e => level.admits e.level).filter _ = _
      rw [reports, List.filter_append, List.filter_append, List.filter_comm, incomplete]
      rfl
    have closing := completionKept_closingReports level served
    unfold CompletionKept at closing ⊢
    rw [quiet]
    exact closing

/-! ## Any requests -/

theorem serve_keeping (level : Log.Level) (s : Logged (List Log.Event)) (r : Request) :
    Logged.serve (Log.deliver (some (Log.keeping level))) s r =
      ((s.lexer.serve r).reply,
        { lexer := (s.lexer.serve r).lexer,
          written := s.written ++
            (s.lexer.serve r).reports.filter fun e => level.admits e.level }) := by
  rw [Logged.serve_eq]
  simp only [Log.foldl_keeping]

theorem logged_serveAll (level : Log.Level) (s : Logged (List Log.Event))
    (requests : List Request) :
    ∃ new, (Logged.serveAll (Log.deliver (some (Log.keeping level))) s requests).written =
        s.written ++ new ∧
      List.Forall₂ Tells (failures (s.lexer.asked requests)) (new.filter Log.Event.isError) := by
  induction requests generalizing s with
  | nil => exact ⟨[], (List.append_nil _).symm, .nil⟩
  | cons r requests ih =>
    obtain ⟨tells, -⟩ := logged_serve level s.lexer r
    obtain ⟨later, hlater, rest⟩ :=
      ih (Logged.serve (Log.deliver (some (Log.keeping level))) s r).2
    refine ⟨((s.lexer.serve r).reports.filter fun e => level.admits e.level) ++ later, ?_, ?_⟩
    · rw [← List.append_assoc]
      exact hlater.trans (by rw [serve_keeping])
    · rw [serve_keeping] at rest
      rw [asked, failures_append, List.filter_append]
      exact List.rel_append tells rest

/-- With a logger at any level that keeps what it takes, and whatever is asked of
a lexer, the errors logged are those that its calls have answered, one by one and
in their order, each with the code, the message, the line and the place where the
call has left the lexer.  A request for a whole source logs its completion once,
with the number of tokens and the line the lexer is on, if it succeeds and the
logger is interested; nothing else logs a completion. -/
theorem errors_logged (source : List UInt8) (preferences : LexicalPreferences)
    (service : PatternService) (level : Log.Level) (requests : List Request) :
    let log := Log.deliver (some (Log.keeping level))
    let run := new source preferences service
    let s := Logged.serveAll log { lexer := run, written := [] } requests
    List.Forall₂ Tells (failures (run.asked requests)) (s.written.filter Log.Event.isError) ∧
    ∀ r, let (reply, after) := Logged.serve log s r
      ∃ new, after.written = s.written ++ new ∧ CompletionKept level reply after.lexer new := by
  intro log run s
  constructor
  · obtain ⟨new, hnew, tells⟩ := logged_serveAll level { lexer := run, written := [] } requests
    rw [show s.written = [] ++ new from hnew]
    exact tells
  · intro r
    rw [serve_keeping]
    exact ⟨_, rfl, (logged_serve level s.lexer r).2⟩

end Lexer
end RuleLex
