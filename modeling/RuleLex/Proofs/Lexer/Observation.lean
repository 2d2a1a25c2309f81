/-
What reports and counts can change.

Two of the preferences say what a lexer reports and counts, and a logger says
what becomes of the reports.  `observation_neutral` says that no answer depends
on any of them: lexers over one source and one service that agree on the reset
after errors go the same way, call by call, and count alike but by class.  Where
they do not agree they part at the first error and not before, so that a run
which gives up there hands out the same.
-/
import RuleLex.Proofs.Lexer.Alike
import RuleLex.Proofs.Lexer.Logged

namespace RuleLex

namespace Metrics

/-- The counts but those by class. -/
def unclassed (m : Metrics) : Metrics := { m with classes := .zero }

/-- How many tokens there were and how many errors. -/
def answered (m : Metrics) : Nat × Nat := (m.total, m.errors)

theorem unclassed_eq {m other : Metrics} (hscanned : m.scanned = other.scanned)
    (hanswered : m.answered = other.answered) : m.unclassed = other.unclassed := by
  simp only [scanned, mk.injEq] at hscanned
  simp only [answered, Prod.mk.injEq] at hanswered
  obtain ⟨-, -, length, comments, -, transitions⟩ := hscanned
  obtain ⟨total, errors⟩ := hanswered
  rw [unclassed, unclassed, total, length, comments, errors, transitions]

end Metrics

namespace Lexer

/-! ## Counting answers -/

/-- Tokens and errors with one more answer. -/
def oneMore (counts : Nat × Nat) : Except LexError Token → Nat × Nat
  | .ok _ => (counts.1 + 1, counts.2)
  | .error _ => (counts.1, counts.2 + 1)

theorem answered_step (lx : Lexer) : lx.step.lexer.metrics.answered = lx.metrics.answered := by
  have outcome := outcome_step lx
  generalize lx.step = step at outcome ⊢
  cases outcome <;> rfl

theorem answered_settle (start : Position) (lx : Lexer) (result : Except LexError Token)
    (reports : List Log.Event) :
    (settle start lx result reports).lexer.metrics.answered =
      oneMore lx.metrics.answered result := by
  cases result <;> rfl

theorem answered_nextFrom (reports : List Log.Event) (lx : Lexer) :
    (nextFrom reports lx).lexer.metrics.answered =
      oneMore lx.metrics.answered (nextFrom reports lx).result := by
  fun_induction nextFrom reports lx with
  | case1 reports lx after new hstep ih =>
    have same := answered_step lx
    rw [hstep] at same
    rw [← same]
    exact ih
  | case2 reports lx after result new hstep =>
    have same := answered_step lx
    rw [hstep] at same
    rw [answered_settle, result_settle, ← same]
    rfl

theorem answered_calls {a b : Lexer} (hstart : a.metrics.answered = b.metrics.answered) (n : Nat)
    (h : ∀ k < n, (a.calls k).next.result = (b.calls k).next.result) :
    (a.calls n).metrics.answered = (b.calls n).metrics.answered := by
  induction n with
  | zero => exact hstart
  | succ n ih =>
    have before := ih fun k hk => h k (Nat.lt_succ_of_lt hk)
    rw [calls_succ, calls_succ, next, next, answered_nextFrom, answered_nextFrom, before]
    exact congrArg _ (h n (Nat.lt_succ_self n))

/-! ## Up to the first error -/

variable {a b : Lexer}

theorem Alike.result_eq (h : Alike a b) (service : a.service = b.service) :
    a.next.result = b.next.result := by
  cases h.nextFrom [] [] with
  | same h kept result_eq => exact result_eq
  | pattern h hsteps kept hfound own other => rw [next, own, service, ← other]; rfl
  | broken own other => rw [next, own, ← other]; rfl

theorem Alike.next_of_ok (h : Alike a b) {t : Token} (ht : a.next.result = .ok t) :
    Alike a.next.lexer b.next.lexer := by
  cases h.nextFrom [] [] with
  | same h => exact h
  | pattern h => exact h
  | broken own =>
    rw [next, own] at ht
    cases ht

theorem Alike.calls_of_ok (h : Alike a b) (n : Nat)
    (hok : ∀ k < n, ∃ t, (a.calls k).next.result = .ok t) : Alike (a.calls n) (b.calls n) := by
  induction n with
  | zero => exact h
  | succ n ih =>
    obtain ⟨t, ht⟩ := hok n (Nat.lt_succ_self n)
    rw [calls_succ, calls_succ]
    exact (ih fun k hk => hok k (Nat.lt_succ_of_lt hk)).next_of_ok ht

theorem isEnd_congr {x y : Answer} (h : x.result = y.result) : x.isEnd = y.isEnd := by
  rw [Answer.isEnd, Answer.isEnd, h]

/-- Runs of alike lexers hand out the same if they give up at the first error. -/
theorem Run.gives_same {xs ys : List Answer} (ha : Run a xs) (hb : Run b ys) (h : Alike a b)
    (service : a.service = b.service) :
    (xs.map Answer.result).mapM id = (ys.map Answer.result).mapM id := by
  induction ha generalizing b ys with
  | @last a hend =>
    have same := h.result_eq service
    cases hb with
    | last => rw [List.map_singleton, List.map_singleton, same]
    | more hmore =>
      rw [isEnd_congr same, hmore] at hend
      cases hend
  | @more a xs hmore rest ih =>
    have same := h.result_eq service
    cases hb with
    | last hend =>
      rw [isEnd_congr same, hend] at hmore
      cases hmore
    | more _ others =>
      rw [List.map_cons, List.map_cons, List.mapM_cons, List.mapM_cons, ← same]
      cases hresult : a.next.result with
      -- behind an error the lexers may differ, and nothing more is looked at
      | error e => rfl
      | ok t =>
        have later : a.next.lexer.service = b.next.lexer.service := by
          rw [next, next, service_nextFrom, service_nextFrom, service]
        rw [ih others (h.next_of_ok hresult) later]

theorem Alike.tokenize_eq (h : Alike a b) (service : a.service = b.service) :
    a.tokenize.result = b.tokenize.result := by
  obtain ⟨xs, ha⟩ := exists_run a
  obtain ⟨ys, hb⟩ := exists_run b
  rw [ha.result_tokenize, hb.result_tokenize, ha.gives_same hb h service]

/-! ## Any logger -/

/-- A lexer at work, after `n` calls. -/
def Logged.calls {σ : Type} (log : σ → Log.Event → σ) (n : Nat) (s : Logged σ) : Logged σ :=
  (fun s => (next log s).2)^[n] s

theorem Logged.lexer_calls {σ : Type} (log : σ → Log.Event → σ) (n : Nat) (s : Logged σ) :
    (calls log n s).lexer = s.lexer.calls n := by
  induction n with
  | zero => rfl
  | succ n ih =>
    rw [calls_succ, ← ih, calls, Function.iterate_succ_apply', next_eq]
    rfl

/-- Over one source and one service neither the reports nor what a logger makes
of them changes an answer.  Lexers that agree on the reset after errors have the
same answers, modes, places and counts, those by class apart; all others have
the same answers up to the first error.  A run that gives up at the first error
hands out the same in any case. -/
theorem observation_neutral (source : List UInt8) (service : PatternService)
    (p q : LexicalPreferences) {σ τ : Type} (sink : Option (Log.Sink σ))
    (other : Option (Log.Sink τ)) (written : σ) (others : τ) :
    let log := Log.deliver sink
    let logOther := Log.deliver other
    let first : Logged σ := { lexer := new source p service, written := written }
    let second : Logged τ := { lexer := new source q service, written := others }
    let a n := Logged.calls log n first
    let b n := Logged.calls logOther n second
    let answer n := (Logged.next log (a n)).1
    let answerOther n := (Logged.next logOther (b n)).1
    (p.resetModeOnError = q.resetModeOnError → ∀ n,
      answer n = answerOther n ∧ (a n).lexer.mode = (b n).lexer.mode ∧
      (a n).lexer.position = (b n).lexer.position ∧
      (a n).lexer.metrics.unclassed = (b n).lexer.metrics.unclassed) ∧
    (∀ n, (∀ k < n, ∃ t, answer k = .ok t) → answer n = answerOther n) ∧
    (Logged.tokenize log first).1 = (Logged.tokenize logOther second).1 := by
  simp only [Logged.next_eq, Logged.lexer_calls, Logged.tokenize_eq]
  have start : Alike (new source p service) (new source q service) :=
    alike_new source p q service service
  have services (n : Nat) : ((new source p service).calls n).service =
      ((new source q service).calls n).service := by
    rw [service_calls, service_calls]
    rfl
  refine ⟨fun same n => ?_, fun n hok => ?_, start.tokenize_eq rfl⟩
  · have alike := start.calls same
    have results (k : Nat) := (alike k).result_eq (services k)
    have nothing : (new source p service).metrics.answered =
        (new source q service).metrics.answered := rfl
    have answered := answered_calls nothing n fun k _ => results k
    exact ⟨results n, (alike n).mode_eq, (alike n).position_eq,
      Metrics.unclassed_eq (alike n).scanned_eq answered⟩
  · exact (start.calls_of_ok n hok).result_eq (services n)

/-- A string broken off by the end of its line, once without a logger and once
with every mode traced into a logger that counts the events. -/
theorem observation_neutral_traced :
    let source := Ascii.bytes "\"a\nb"
    let traced := { LexicalPreferences.builtin with
      collectDetailedMetrics := false, traceModes := true }
    let counter : Log.Sink Nat := { level := .debug, record := fun k _ => k + 1 }
    let silent : Option (Log.Sink Unit) := none
    let first : Logged Unit :=
      { lexer := new source LexicalPreferences.builtin Pattern.parse, written := () }
    let second : Logged Nat := { lexer := new source traced Pattern.parse, written := 0 }
    let a := Logged.calls (Log.deliver silent) 2 first
    let b := Logged.calls (Log.deliver (some counter)) 2 second
    LexicalPreferences.builtin.resetModeOnError = traced.resetModeOnError ∧
      a.lexer.metrics.errors = 1 ∧ b.written = 3 ∧
      a.lexer.mode = b.lexer.mode ∧ a.lexer.metrics.unclassed = b.lexer.metrics.unclassed := by
  intro source traced counter silent first second a b
  have same : LexicalPreferences.builtin.resetModeOnError = traced.resetModeOnError := rfl
  obtain ⟨-, mode, -, metrics⟩ := (observation_neutral source Pattern.parse
    LexicalPreferences.builtin traced silent (some counter) () 0).1 same 2
  exact ⟨same, by decide +kernel, by decide +kernel, mode, metrics⟩

end Lexer
end RuleLex
