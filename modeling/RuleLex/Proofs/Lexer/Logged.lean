/-
Reports written as they are made.

A call of a lexer hands its reports out with the answer.  A program at work
writes every report when it is made, into whatever logger it has.  `Logged.next`
and `Logged.tokenize` work that way, with the logger's state between any two
reports; `Logged.next_eq` and `Logged.tokenize_eq` say that they come to the
answers of `next` and `tokenize` and write the reports of these.

The loggers that a program has are of this kind: `tokenize_session` and
`tokenize_window` say what a source leaves in the global logger and in a window.
-/
import RuleLex.Log.Window
import RuleLex.Proofs.Lexer.Iteration
import RuleLex.Session

namespace RuleLex

/-! ## Loggers -/

/-- A logger of any kind: what an event makes of all that has been written, and
how serious an event has to be. -/
structure Log.Sink (σ : Type) where
  level : Log.Level
  record : σ → Log.Event → σ

/-- What has been written once an event has come.  Without a logger the event is
lost. -/
def Log.deliver {σ : Type} (sink : Option (Log.Sink σ)) (written : σ) (e : Log.Event) : σ :=
  match sink with
  | some s => if s.level.admits e.level then s.record written e else written
  | none => written

theorem Log.Window.log_eq_deliver (threshold : Log.Level) :
    Log.Window.log threshold =
      Log.deliver (some { level := threshold, record := Log.Window.push }) := rfl

/-- The global logger of a run at some time. -/
def Session.sink? (p : Session) (seconds : Nat) : Option (Log.Sink Log.Output) :=
  p.logger.map fun s =>
    { level := s.level, record := fun out e => out ++ s.backend.write seconds e }

theorem Log.Output.append_nothing (out : Log.Output) : out ++ Log.Output.nothing = out := by
  show Log.Output.append out _ = out
  simp [Log.Output.append, Log.Output.nothing]

theorem Session.report_eq_deliver (p : Session) (seconds : Nat) (events : List Log.Event) :
    p.report seconds events = events.foldl (Log.deliver (p.sink? seconds)) .nothing := by
  unfold Session.report Session.sink?
  cases p.logger with
  | none =>
    exact (List.foldl_fixed events).symm
  | some s =>
    have one : (fun out e => out ++ s.log seconds e) =
        Log.deliver (some { level := s.level,
                            record := fun out e => out ++ s.backend.write seconds e }) := by
      funext out e
      simp only [Log.Service.log, Log.deliver]
      split
      · rfl
      · exact Log.Output.append_nothing out
    show s.logAll seconds events = _
    rw [Log.Service.logAll, one]
    rfl

namespace Lexer

/-- A lexer at work, with what has been written by then. -/
structure Logged (σ : Type) where
  lexer : Lexer
  written : σ

namespace Logged

variable {σ : Type} (log : σ → Log.Event → σ)

/-! ## One call -/

/-- A call that writes every report when it is made. -/
def next (s : Logged σ) : Except LexError Token × Logged σ :=
  match _steps : s.lexer.step with
  | .goOn after new => next { lexer := after, written := new.foldl log s.written }
  | .answer after result new =>
    let a := settle s.lexer.position after result new
    (a.result, { lexer := a.lexer, written := a.reports.foldl log s.written })
termination_by s.lexer.weight
decreasing_by
  have := weight_step s.lexer
  rw [_steps] at this
  simpa [Step.isEnd, Step.lexer] using this

theorem next_of_goOn {s : Logged σ} {after : Lexer} {new : List Log.Event}
    (h : s.lexer.step = .goOn after new) :
    next log s = next log { lexer := after, written := new.foldl log s.written } := by
  rw [next.eq_def]
  split
  · rename_i hgoOn
    rw [h] at hgoOn
    cases hgoOn
    rfl
  · rename_i hanswer
    rw [h] at hanswer
    cases hanswer

theorem next_of_answer {s : Logged σ} {after : Lexer} {r : Except LexError Token}
    {new : List Log.Event} (h : s.lexer.step = .answer after r new) :
    next log s =
      let a := settle s.lexer.position after r new
      (a.result, { lexer := a.lexer, written := a.reports.foldl log s.written }) := by
  rw [next.eq_def]
  split
  · rename_i hgoOn
    rw [h] at hgoOn
    cases hgoOn
  · rename_i hanswer
    rw [h] at hanswer
    cases hanswer
    rfl

theorem settle_append (start : Position) (lx : Lexer) (r : Except LexError Token)
    (reports new : List Log.Event) :
    settle start lx r (reports ++ new) =
      { settle start lx r new with reports := reports ++ (settle start lx r new).reports } := by
  cases r with
  | ok t => rfl
  | error e => simp only [settle, List.append_assoc]

/-- Behind some reports a call comes to what it would have come to with them. -/
theorem next_behind (written : σ) (reports : List Log.Event) (lx : Lexer) :
    next log { lexer := lx, written := reports.foldl log written } =
      let a := nextFrom reports lx
      (a.result, { lexer := a.lexer, written := a.reports.foldl log written }) := by
  fun_induction nextFrom reports lx with
  | case1 reports lx after new hstep ih =>
    rw [next_of_goOn log hstep, ← List.foldl_append]
    exact ih
  | case2 reports lx after result new hstep =>
    rw [next_of_answer log hstep, settle_append]
    simp only [List.foldl_append]

theorem next_eq (s : Logged σ) :
    next log s =
      let a := s.lexer.next
      (a.result, { lexer := a.lexer, written := a.reports.foldl log s.written }) :=
  next_behind log s.written [] s.lexer

/-! ## Whole sources -/

/-- Every token behind those given, or the first error.  All reports are written
when they are made. -/
def gather (tokens : List Token) (s : Logged σ) :
    Except LexError (List Token) × Logged σ :=
  match _answers : next log s with
  | (.error e, after) => (.error e, after)
  | (.ok t, after) =>
    let tokens := tokens ++ [t]
    if _ends : t.isEof then
      let reports := [after.lexer.completionReport tokens, streamReport tokens]
      (.ok tokens, { after with written := reports.foldl log after.written })
    else gather tokens after
termination_by s.lexer.weight
decreasing_by
  have := weight_next s.lexer
  rw [next_eq] at _answers
  obtain ⟨result, rfl⟩ := Prod.mk.inj _answers
  rw [Answer.isEnd, result] at this
  simpa [_ends] using this

/-- Every token of a source, or the first error. -/
def tokenize (s : Logged σ) : Except LexError (List Token) × Logged σ := gather log [] s

variable {s : Logged σ} {tokens : List Token}

theorem gather_of_error {e : LexError} (h : s.lexer.next.result = .error e) :
    gather log tokens s = (.error e, (next log s).2) := by
  have result : (next log s).1 = .error e := by rw [next_eq]; exact h
  rw [gather.eq_def]
  split
  · rename_i hnext
    rw [hnext] at result ⊢
    cases result
    rfl
  · rename_i hnext
    rw [hnext] at result
    cases result

theorem gather_of_end {t : Token} (h : s.lexer.next.result = .ok t) (ht : t.isEof = true) :
    gather log tokens s =
      let after := (next log s).2
      let tokens := tokens ++ [t]
      let reports := [after.lexer.completionReport tokens, streamReport tokens]
      (.ok tokens, { after with written := reports.foldl log after.written }) := by
  have result : (next log s).1 = .ok t := by rw [next_eq]; exact h
  rw [gather.eq_def]
  split
  · rename_i hnext
    rw [hnext] at result
    cases result
  · rename_i hnext
    rw [hnext] at result ⊢
    cases result
    simp only [ht, dite_true]

theorem gather_of_token {t : Token} (h : s.lexer.next.result = .ok t) (ht : t.isEof = false) :
    gather log tokens s = gather log (tokens ++ [t]) (next log s).2 := by
  have result : (next log s).1 = .ok t := by rw [next_eq]; exact h
  rw [gather.eq_def]
  split
  · rename_i hnext
    rw [hnext] at result
    cases result
  · rename_i hnext
    rw [hnext] at result ⊢
    cases result
    simp only [ht, Bool.false_eq_true, dite_false]

/-- What one more answer writes behind those before it, the last one first. -/
theorem foldl_reports (written : σ) (a : Answer) (done : List Answer) :
    ((a :: done).reverse.flatMap Answer.reports).foldl log written =
      a.reports.foldl log ((done.reverse.flatMap Answer.reports).foldl log written) := by
  simp only [List.reverse_cons, List.flatMap_append, List.flatMap_singleton, List.foldl_append]

/-- The outcome for a source by the answers of its run, the last one first. -/
def ofAnswers (lx : Lexer) (lastFirst : List Answer) : Tokenization :=
  let answers := lastFirst.reverse
  let after := (lastFirst.head?.map Answer.lexer).getD lx
  let reports := answers.flatMap Answer.reports
  match lastFirst.head?.map Answer.result with
  | some (.error e) => { result := .error e, lexer := after, reports := reports }
  | _ =>
    let tokens := tokensOf answers
    { result := .ok tokens,
      lexer := after,
      reports := reports ++ [after.completionReport tokens, streamReport tokens] }

theorem ofAnswers_of_error {a : Answer} {e : LexError} (h : a.result = .error e) (lx : Lexer)
    (done : List Answer) :
    ofAnswers lx (a :: done) =
      { result := .error e, lexer := a.lexer,
        reports := (a :: done).reverse.flatMap Answer.reports } := by
  simp only [ofAnswers, List.head?_cons, Option.map_some, h, Option.getD_some]

theorem ofAnswers_of_token {a : Answer} {t : Token} (h : a.result = .ok t) (lx : Lexer)
    (done : List Answer) :
    ofAnswers lx (a :: done) =
      let tokens := tokensOf done.reverse ++ [t]
      { result := .ok tokens, lexer := a.lexer,
        reports := (a :: done).reverse.flatMap Answer.reports ++
          [a.lexer.completionReport tokens, streamReport tokens] } := by
  simp only [ofAnswers, List.head?_cons, Option.map_some, h, Option.getD_some,
    tokensOf_reverse_token h]

/-- Behind some answers a run comes to what it would have come to with them. -/
theorem gather_behind (first : Lexer) (written : σ) {lx : Lexer} {answers : List Answer}
    (h : Run lx answers) (done : List Answer) :
    gather log (tokensOf done.reverse)
        { lexer := lx, written := (done.reverse.flatMap Answer.reports).foldl log written } =
      let t := ofAnswers first (follow false done lx)
      (t.result, { lexer := t.lexer, written := t.reports.foldl log written }) := by
  induction h generalizing done with
  | @last lx h =>
    cases hresult : lx.next.result with
    | error e =>
      rw [Answer.isEnd, hresult] at h
      cases h
    | ok t =>
      rw [Answer.isEnd, hresult] at h
      rw [gather_of_end log hresult h, follow_of_end hresult h, ofAnswers_of_token hresult]
      simp only [next_eq, List.foldl_append, foldl_reports]
  | @more lx answers h rest ih =>
    cases hresult : lx.next.result with
    | error e =>
      rw [gather_of_error log hresult, follow_of_error hresult, ofAnswers_of_error hresult]
      simp only [next_eq, foldl_reports]
    | ok t =>
      rw [Answer.isEnd, hresult] at h
      rw [gather_of_token log hresult h, follow_of_token hresult h, next_eq, ← ih,
        tokensOf_reverse_token hresult, foldl_reports]

theorem tokenize_eq (s : Logged σ) :
    tokenize log s =
      let t := s.lexer.tokenize
      (t.result, { lexer := t.lexer, written := t.reports.foldl log s.written }) := by
  obtain ⟨answers, run⟩ := exists_run s.lexer
  exact gather_behind log s.lexer s.written run []

/-! ## Into the loggers of a program -/

/-- Into the global logger of a session a source writes what the session shows of
its reports. -/
theorem tokenize_session (p : Session) (seconds : Nat) (lx : Lexer) :
    tokenize (Log.deliver (p.sink? seconds)) { lexer := lx, written := .nothing } =
      (lx.tokenize.result,
        { lexer := lx.tokenize.lexer, written := p.report seconds lx.tokenize.reports }) := by
  rw [tokenize_eq, Session.report_eq_deliver]

/-- Into a window a source goes report by report. -/
theorem tokenize_window (threshold : Log.Level) (w : Log.Window) (lx : Lexer) :
    tokenize (Log.deliver (some { level := threshold, record := Log.Window.push }))
        { lexer := lx, written := w } =
      (lx.tokenize.result,
        { lexer := lx.tokenize.lexer,
          written := lx.tokenize.reports.foldl (Log.Window.log threshold) w }) := by
  rw [tokenize_eq, Log.Window.log_eq_deliver]

end Logged
end Lexer
end RuleLex
