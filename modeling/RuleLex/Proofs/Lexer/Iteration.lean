/-
Every run of a lexer ends.

A call takes finitely many steps.  Over a run of calls `credit` counts the bytes
that are left and one more while a literal or a comment is open: no step adds to
it and every answer but the end token costs some of it.  An error at the end of
the source takes no byte, and the opening delimiter has paid for it.  So a
source of `n` bytes has at most `n` answers before its end token.

`iteration_ends` says so of an iteration, and that a run that gives up at the
first error hands out what the iteration does.
-/
import Mathlib.Logic.Function.Iterate
import Mathlib.Logic.Relation
import RuleLex.Proofs.Lexer.Lossless

namespace RuleLex
namespace Lexer

/-! ## One call -/

/-- A step leads from one lexer to the other without an answer. -/
def GoesOn (lx after : Lexer) : Prop := ∃ reports, lx.step = .goOn after reports

/-- Steps without an answer come to one that has one. -/
theorem exists_answer (reports : List Log.Event) (lx : Lexer) :
    ∃ last after result new, Relation.ReflTransGen GoesOn lx last ∧
      last.step = .answer after result new ∧ (nextFrom reports lx).result = result := by
  fun_induction nextFrom reports lx with
  | case1 reports lx after new hstep ih =>
    obtain ⟨last, final, result, told, hsteps, hanswer, hresult⟩ := ih
    exact ⟨last, final, result, told, .head ⟨new, hstep⟩ hsteps, hanswer, hresult⟩
  | case2 reports lx after result new hstep =>
    exact ⟨lx, after, result, new, .refl, hstep, result_settle _ _ _ _⟩

/-! ## What an answer costs -/

/-- The bytes left, and one for a literal or a comment still open. -/
def credit (lx : Lexer) : Nat := lx.rest.length + if lx.mode = .initial then 0 else 1

variable {lx after : Lexer}

theorem credit_of_initial (h : lx.mode = .initial) : lx.credit = lx.rest.length := by
  rw [credit, if_pos h, Nat.add_zero]

theorem credit_of_open (h : lx.mode ≠ .initial) : lx.credit = lx.rest.length + 1 := by
  rw [credit, if_neg h]

theorem le_credit (lx : Lexer) : lx.rest.length ≤ lx.credit := Nat.le_add_right _ _

theorem credit_le (lx : Lexer) : lx.credit ≤ lx.rest.length + 1 := by
  unfold credit
  split <;> omega

/-- A byte pays for what is opened behind it. -/
theorem credit_le_of_shorter (h : after.rest.length < lx.rest.length) :
    after.credit ≤ lx.credit :=
  (credit_le after).trans (Nat.le_trans h (le_credit lx))

theorem credit_lt_of_initial (hafter : after.mode = .initial)
    (h : after.rest.length < lx.rest.length) : after.credit < lx.credit := by
  rw [credit_of_initial hafter]
  exact Nat.lt_of_lt_of_le h (le_credit lx)

theorem credit_lt_of_open (hm : lx.mode ≠ .initial) (h : after.rest.length < lx.rest.length) :
    after.credit < lx.credit := by
  rw [credit_of_open hm]
  exact Nat.lt_of_le_of_lt (credit_le after) (Nat.succ_lt_succ h)

/-- Leaving a literal or a comment costs one, even where no byte is taken. -/
theorem credit_lt_of_left (hm : lx.mode ≠ .initial) (hafter : after.mode = .initial)
    (h : after.rest.length ≤ lx.rest.length) : after.credit < lx.credit := by
  rw [credit_of_initial hafter, credit_of_open hm]
  exact Nat.lt_succ_of_le h

theorem length_consume_le (lx : Lexer) (n : Nat) :
    (lx.consume n).rest.length ≤ lx.rest.length := by
  rw [length_consume]
  exact Nat.sub_le _ _

theorem length_consume_lt {n : Nat} (hn : 0 < n) (hrest : lx.rest ≠ []) :
    (lx.consume n).rest.length < lx.rest.length := by
  have some_left := List.length_pos_iff.2 hrest
  rw [length_consume]
  omega

theorem length_consume_lexeme {lexeme : Lexeme} {n : Nat}
    (h : Lexeme.first? lx.rest = some (lexeme, n)) :
    (lx.consume n).rest.length < lx.rest.length := by
  refine length_consume_lt (Lexeme.first_pos h) ?_
  intro hrest
  rw [hrest] at h
  cases h

theorem length_consume_piece {form : Quoted} {piece : Piece} {n : Nat}
    (h : Piece.first form lx.rest = (piece, n)) (hpiece : piece ≠ .exhausted) :
    (lx.consume n).rest.length < lx.rest.length := by
  have hrest : lx.rest ≠ [] := by
    intro hrest
    rw [hrest, Piece.first_nil] at h
    exact hpiece (Prod.mk.inj h).1.symm
  exact length_consume_lt (Piece.first_pos h hrest) hrest

theorem length_consume_breaks {form : Quoted} {opening : Position} {content : List UInt8}
    {n : Nat} {e : LexError} (h : Breaks lx form opening content n e) :
    (lx.consume n).rest.length < lx.rest.length := by
  cases h with
  | tooLong hfirst long => exact length_consume_piece hfirst nofun
  | broken hfirst => exact length_consume_piece hfirst nofun

/-- A step that goes on takes a byte. -/
theorem length_goOn {reports : List Log.Event} (h : lx.step = .goOn after reports) :
    after.rest.length < lx.rest.length := by
  have outcome := outcome_step lx
  rw [h] at outcome
  cases outcome with
  | blank hm hfirst | lineComment hm hfirst | openComment hm hfirst | openLiteral hm hfirst =>
    exact length_consume_lexeme hfirst
  | content hm hfirst fits => exact length_consume_piece hfirst nofun
  | closeComment hm hn =>
    have bounds := Comment.closingLength_bounds hn
    exact length_consume_lt (by omega) (List.length_pos_iff.1 (by omega))
  | drainComment hm hrest hnone => exact length_consume_lt (List.length_pos_iff.2 hrest) hrest

/-- Every answer but the end token costs at least one. -/
theorem credit_answer {result : Except LexError Token} {reports : List Log.Event}
    (h : lx.step = .answer after result reports) :
    (Step.answer after result reports).isEnd = true ∨ after.credit < lx.credit := by
  have outcome := outcome_step lx
  rw [h] at outcome
  cases outcome with
  | finish => exact .inl rfl
  | token hm hfirst | refused hm hfirst | hexString hm hfirst | hexRefused hm hfirst =>
    exact .inr (credit_lt_of_initial hm (length_consume_lexeme hfirst))
  | breakAndStay hm hbreaks =>
    exact .inr (credit_lt_of_open (by rw [hm]; nofun) (length_consume_breaks hbreaks))
  | breakAndReset hm | closing hm | badModifier hm | exhausted hm =>
    exact .inr (credit_lt_of_left (by rw [hm]; nofun) rfl (length_consume_le lx _))
  | openAtEnd hm => exact .inr (credit_lt_of_left (by rw [hm]; nofun) rfl (Nat.le_refl _))

theorem credit_nextFrom (reports : List Log.Event) (lx : Lexer) :
    (nextFrom reports lx).isEnd = true ∨ (nextFrom reports lx).lexer.credit < lx.credit := by
  fun_induction nextFrom reports lx with
  | case1 reports lx after new hstep ih =>
    exact ih.imp_right fun paid =>
      Nat.lt_of_lt_of_le paid (credit_le_of_shorter (length_goOn hstep))
  | case2 reports lx after result new hstep =>
    rw [isEnd_settle _ _ _ _ new, lexer_settle]
    exact credit_answer hstep

/-! ## Runs up to the end token -/

/-- The answers of a run, errors included, up to the end token. -/
inductive Run : Lexer → List Answer → Prop
  | last {lx : Lexer} (h : lx.next.isEnd = true) : Run lx [lx.next]
  | more {lx : Lexer} {answers : List Answer} (h : lx.next.isEnd = false)
    (rest : Run lx.next.lexer answers) : Run lx (lx.next :: answers)

theorem exists_run (lx : Lexer) : ∃ answers, Run lx answers := by
  cases h : lx.next.isEnd with
  | true => exact ⟨_, .last h⟩
  | false =>
    have progress := weight_next lx
    obtain ⟨answers, rest⟩ := exists_run lx.next.lexer
    exact ⟨_, .more h rest⟩
termination_by lx.weight
decreasing_by
  rw [h] at progress
  exact progress.resolve_left nofun

theorem Run.length_le {answers : List Answer} (h : Run lx answers) :
    answers.length ≤ lx.credit + 1 := by
  induction h with
  | last h => exact Nat.le_add_left 1 _
  | @more lx answers h rest ih =>
    have paid := (credit_nextFrom [] lx).resolve_left (by rw [← next, h]; nofun)
    have : lx.next.lexer.credit < lx.credit := paid
    rw [List.length_cons]
    omega

/-- The end token is the last answer and no other. -/
theorem Run.exists_last {answers : List Answer} (h : Run lx answers) :
    ∃ before final, answers = before ++ [final] ∧ final.isEnd = true ∧
      ∀ a ∈ before, a.isEnd = false := by
  induction h with
  | last h => exact ⟨[], _, rfl, h, by simp⟩
  | more h rest ih =>
    obtain ⟨before, final, rfl, hfinal, hbefore⟩ := ih
    exact ⟨_ :: before, final, rfl, hfinal, List.forall_mem_cons.2 ⟨h, hbefore⟩⟩

/-! ## Iterations -/

theorem finished_step (lx : Lexer) : lx.step.lexer.finished = lx.finished := by
  have outcome := outcome_step lx
  generalize lx.step = step at outcome ⊢
  cases outcome <;> rfl

theorem finished_nextFrom (reports : List Log.Event) (lx : Lexer) :
    (nextFrom reports lx).lexer.finished = lx.finished :=
  nextFrom_keeps (P := fun l => l.finished = lx.finished)
    (fun l h => (finished_step l).trans h) (fun _ _ h => h) reports lx rfl

/-- The lexer after `k` turns of an iteration.  A turn without an answer leaves
it as it is. -/
def turned (k : Nat) (lx : Lexer) : Lexer :=
  (fun l => (l.iterate.map Answer.lexer).getD l)^[k] lx

/-- What turn `k` of an iteration yields, counted from zero. -/
def item? (lx : Lexer) (k : Nat) : Option (Except LexError Token) :=
  (lx.turned k).iterate.map Answer.result

theorem turned_finished (h : lx.finished = true) (k : Nat) : lx.turned k = lx := by
  induction k with
  | zero => rfl
  | succ k ih =>
    have stays : (lx.iterate.map Answer.lexer).getD lx = lx := by rw [iterate, if_pos h]; rfl
    rw [turned, Function.iterate_succ_apply, stays]
    exact ih

theorem item_finished (h : lx.finished = true) (k : Nat) : lx.item? k = none := by
  rw [item?, turned_finished h, iterate, if_pos h]
  rfl

theorem iterate_unfinished (h : lx.finished = false) :
    lx.iterate =
      some { lx.next with lexer := { lx.next.lexer with finished := lx.next.isEnd } } := by
  rw [iterate, if_neg (by rw [h]; nofun)]

theorem item_zero (h : lx.finished = false) : lx.item? 0 = some lx.next.result := by
  show lx.iterate.map Answer.result = _
  rw [iterate_unfinished h]
  rfl

theorem item_succ (h : lx.finished = false) (k : Nat) :
    lx.item? (k + 1) = item? { lx.next.lexer with finished := lx.next.isEnd } k := by
  rw [item?, item?, turned, turned, Function.iterate_succ_apply, iterate_unfinished h]
  rfl

/-- An iteration yields the answers of the run one by one and nothing behind
them. -/
theorem Run.item_eq {answers : List Answer} (h : Run lx answers) (hlx : lx.finished = false)
    (k : Nat) : lx.item? k = (answers.map Answer.result)[k]? := by
  induction h generalizing k with
  | @last lx h =>
    cases k with
    | zero => exact item_zero hlx
    | succ k =>
      rw [item_succ hlx, item_finished h]
      rfl
  | @more lx answers h rest ih =>
    cases k with
    | zero => exact item_zero hlx
    | succ k =>
      have unfinished : lx.next.lexer.finished = false := (finished_nextFrom [] lx).trans hlx
      have same : { lx.next.lexer with finished := lx.next.isEnd } = lx.next.lexer := by
        rw [h, ← unfinished]
      rw [item_succ hlx, same, ih unfinished]
      rfl

/-! ## Giving up at the first error -/

/-- What a run that gives up at the first error hands out, given its answers
last first. -/
def gathered (lastFirst : List Answer) : Except LexError (List Token) :=
  match lastFirst.head?.map Answer.result with
  | some (.error e) => .error e
  | _ => .ok (tokensOf lastFirst.reverse)

theorem result_tokenize (lx : Lexer) : lx.tokenize.result = gathered (lx.follow false []) := by
  unfold tokenize gathered
  generalize lx.follow false [] = lastFirst
  match lastFirst with
  | [] => rfl
  | { result := .ok t, lexer := _, reports := _ } :: rest => rfl
  | { result := .error e, lexer := _, reports := _ } :: rest => rfl

theorem follow_of_error {e : LexError} (h : lx.next.result = .error e) (done : List Answer) :
    follow false done lx = lx.next :: done := by
  rw [follow.eq_def]
  split
  · rename_i hnext
    rw [hnext]
    rfl
  · rename_i hnext
    rw [hnext] at h
    cases h

theorem follow_of_end {t : Token} (h : lx.next.result = .ok t) (ht : t.isEof = true)
    (done : List Answer) : follow false done lx = lx.next :: done := by
  rw [follow.eq_def]
  split
  · rename_i hnext
    rw [hnext] at h
    cases h
  · rename_i hnext
    rw [hnext] at h ⊢
    cases h
    simp only [ht, dite_true]

theorem follow_of_token {t : Token} (h : lx.next.result = .ok t) (ht : t.isEof = false)
    (done : List Answer) :
    follow false done lx = follow false (lx.next :: done) lx.next.lexer := by
  rw [follow.eq_def]
  split
  · rename_i hnext
    rw [hnext] at h
    cases h
  · rename_i hnext
    rw [hnext] at h
    cases h
    simp only [ht, Bool.false_eq_true, dite_false]
    rw [hnext]

theorem tokensOf_reverse_token {a : Answer} {t : Token} (h : a.result = .ok t)
    (done : List Answer) : tokensOf (a :: done).reverse = tokensOf done.reverse ++ [t] := by
  have own : tokensOf [a] = [t] := by
    simp only [tokensOf, List.filterMap, h]
    rfl
  rw [tokensOf_reverse_cons, own]

/-- Such a run hands out all tokens of the run that goes on, or its first
error. -/
theorem Run.gathered_follow {answers : List Answer} (h : Run lx answers) (done : List Answer) :
    gathered (follow false done lx) =
      (answers.map Answer.result).mapM id >>= fun later => .ok (tokensOf done.reverse ++ later) := by
  induction h generalizing done with
  | @last lx h =>
    cases hresult : lx.next.result with
    | error e =>
      rw [Answer.isEnd, hresult] at h
      cases h
    | ok t =>
      rw [Answer.isEnd, hresult] at h
      rw [follow_of_end hresult h]
      simp only [gathered, List.head?_cons, Option.map_some, hresult]
      rw [tokensOf_reverse_token hresult, List.map_singleton, hresult]
      rfl
  | @more lx answers h rest ih =>
    rw [List.map_cons, List.mapM_cons]
    cases hresult : lx.next.result with
    | error e =>
      rw [follow_of_error hresult]
      simp only [gathered, List.head?_cons, Option.map_some, hresult]
      rfl
    | ok t =>
      rw [Answer.isEnd, hresult] at h
      rw [follow_of_token hresult h, ih, tokensOf_reverse_token hresult]
      cases (answers.map Answer.result).mapM id with
      | error e => rfl
      | ok later => exact congrArg Except.ok (List.append_assoc _ _ _)

theorem Run.result_tokenize {answers : List Answer} (h : Run lx answers) :
    lx.tokenize.result = (answers.map Answer.result).mapM id := by
  rw [Lexer.result_tokenize, h.gathered_follow []]
  cases (answers.map Answer.result).mapM id <;> rfl

/-- Every call comes to an answer.  An iteration over a source of `n` bytes
yields at most `n` tokens and errors, then the end token, and nothing ever
after; a run that gives up at the first error hands out all of them if they are
tokens, and else the first error. -/
theorem iteration_ends (source : List UInt8) (preferences : LexicalPreferences)
    (service : PatternService) :
    let lx := new source preferences service
    (∀ lx : Lexer, ∃ last after result reports, Relation.ReflTransGen GoesOn lx last ∧
      last.step = .answer after result reports ∧ lx.next.result = result) ∧
    ∃ (items : List (Except LexError Token)) (final : Token),
      let yielded : List (Except LexError Token) := items ++ [.ok final]
      items.length ≤ source.length ∧ final.isEof = true ∧
      (∀ t : Token, .ok t ∈ items → t.isEof = false) ∧
      (∀ k, lx.item? k = yielded[k]?) ∧
      lx.tokenize.result = yielded.mapM id := by
  intro lx
  refine ⟨exists_answer [], ?_⟩
  obtain ⟨answers, run⟩ := exists_run lx
  have length := run.length_le
  have item := run.item_eq rfl
  have tokenized := run.result_tokenize
  obtain ⟨before, final, rfl, hfinal, hbefore⟩ := run.exists_last
  cases hresult : final.result with
  | error e =>
    rw [Answer.isEnd, hresult] at hfinal
    cases hfinal
  | ok t =>
    rw [Answer.isEnd, hresult] at hfinal
    rw [List.map_append, List.map_singleton, hresult] at item tokenized
    refine ⟨before.map Answer.result, t, ?_, hfinal, fun u hu => ?_, item, tokenized⟩
    · rw [List.length_append, credit_of_initial rfl, List.length_singleton] at length
      rw [List.length_map]
      exact Nat.le_of_succ_le_succ length
    · obtain ⟨a, ha, hau⟩ := List.mem_map.1 hu
      have notEnd := hbefore a ha
      rw [Answer.isEnd, hau] at notEnd
      exact notEnd

end Lexer
end RuleLex
