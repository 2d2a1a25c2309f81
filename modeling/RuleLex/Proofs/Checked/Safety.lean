/-
No request traps.

The lexer by indices cuts the source, subtracts and multiplies wherever the code
of a lexer does, and traps where one of these would go wrong.  On a source whose
lines and columns fit into a word it never does: `never_traps` says that it serves
any requests, for any preferences and any service, and that what it hands out is
what `Lexer` hands out.  A step is a function of where the lexer is, so the run that
`ServesAll` speaks of is the only one, and it comes to an end.

What carries the proof is `Stands`: the lexer is placed over its source, and the
delimiter of an open literal or comment, which an earlier call may have read, is
not ahead of it.  Where nothing is open the delimiter is left over from what was
open before, so each result comes with some delimiter of that kind.
-/
import RuleLex.Proofs.Checked.Pattern
import RuleLex.Proofs.Checked.Scan

namespace RuleLex

open Checked (ok_bind)

namespace Lexer

/-- The lexer is placed over the source and not before what it is open at. -/
structure Stands (source : List UInt8) (lx : Lexer) : Prop extends Placed source lx where
  opened : ∀ p, lx.mode.opening? = some p → p.offset ≤ lx.cursor.offset

variable {source : List UInt8} {lx after : Lexer} {old : Position}

/-- What an answer adds to the counts does not show. -/
theorem indexed_settle (start : Position) (result : Except LexError Token)
    (reports : List Log.Event) :
    (settle start after result reports).lexer.indexed source old = after.indexed source old := by
  cases result with
  | ok t => rfl
  | error e => rfl

/-! ## One step -/

namespace Stands

theorem new (hsize : source.length < UInt32.size - 1) (preferences : LexicalPreferences)
    (service : PatternService) : Stands source (new source preferences service) :=
  ⟨⟨hsize, [], behind_new source preferences service⟩, nofun⟩

theorem step (h : Stands source lx) : Stands source lx.step.lexer := by
  obtain ⟨n, hn⟩ := consumes_step lx
  have forward := h.offset_le hn
  refine ⟨h.toPlaced.of_consumes hn, fun p hp => ?_⟩
  rcases opening_step hp with rfl | hopen
  · exact forward
  · exact Nat.le_trans (h.opened p hopen) forward

theorem of_consumes {n : Nat} (h : Stands source lx) (hn : Consumes lx n after)
    (hmode : after.mode = lx.mode) : Stands source after := by
  refine ⟨h.toPlaced.of_consumes hn, fun p hp => ?_⟩
  rw [hmode] at hp
  exact Nat.le_trans (h.opened p hp) (h.offset_le hn)

theorem scan_eq (h : Stands source lx) (hm : ∀ opening, lx.mode ≠ .comment opening) :
    (lx.indexed source old).scan = .ok (lx.step.indexed source (lx.delimiter old)) := by
  have mode : (lx.indexed source old).mode = lx.mode.kind := rfl
  rw [Indexed.scan, mode]
  unfold Lexer.step delimiter
  cases hmode : lx.mode with
  | initial => exact h.scanInitial_eq hmode
  | comment opening => exact absurd hmode (hm opening)
  | quoted form opening content =>
    have behind := h.opened opening (by rw [hmode]; rfl)
    cases form with
    | string => exact h.scanString_eq hmode behind
    | regex => exact h.scanRegex_eq hmode behind

/-- A step that scans a token or an error comes to the same step: the error has a
span, since a step never goes back. -/
theorem step_of_scan {left : Position} (h : Stands source lx)
    (hscan : (lx.indexed source old).scan = .ok (lx.step.indexed source left)) :
    (lx.indexed source old).step = .ok (lx.step.indexed source left) := by
  obtain ⟨n, hn⟩ := consumes_step lx
  rw [Indexed.step, h.position_eq, ok_bind, hscan, ok_bind]
  cases hstep : lx.step with
  | goOn after reports => rfl
  | answer after result reports =>
    cases result with
    | ok t => rfl
    | error e =>
      have taken : Consumes lx n after := by rwa [hstep] at hn
      have forward : lx.position.offset ≤ after.cursor.offset := h.offset_le taken
      have span : (after.indexed source left).spanFrom lx.position =
          .ok { start := lx.position, stop := after.position } :=
        (h.toPlaced.of_consumes taken).spanFrom_eq forward
      show (((after.indexed source left).spanFrom lx.position) >>= _) = _
      rw [span]
      rfl

/-- No step traps.  It comes to the same step, or to a place further on in a
comment from where the answer is the same. -/
theorem step_eq (h : Stands source lx) :
    (lx.indexed source old).step = .ok (lx.step.indexed source (lx.delimiter old)) ∨
      ∃ n, 0 < n ∧ lx.rest ≠ [] ∧ Reaches lx n (lx.consume n) ∧
        (lx.indexed source old).step = .ok (.goOn ((lx.consume n).indexed source old)) := by
  by_cases hm : ∃ opening, lx.mode = .comment opening
  · obtain ⟨opening, hm⟩ := hm
    rcases h.scanComment_eq hm with same | ⟨n, pos, nonempty, reaches, chunk⟩
    · rw [delimiter_eq (congrArg Mode.opening? hm)]
      exact .inl (h.step_of_scan ((scan_comment hm).trans same))
    · refine .inr ⟨n, pos, nonempty, reaches, ?_⟩
      rw [Indexed.step, h.position_eq, ok_bind, scan_comment hm, chunk]
      rfl
  · exact .inl (h.step_of_scan (h.scan_eq fun opening hopening => hm ⟨opening, hopening⟩))

/-! ## Calls -/

/-- Every call comes to its answer. -/
theorem answers (h : Stands source lx) (old : Position) :
    ∃ left, Indexed.Answers (lx.indexed source old) lx.next.result
      (lx.next.lexer.indexed source left) := by
  induction hw : lx.weight using Nat.strong_induction_on generalizing lx old with
  | _ w ih =>
    rcases h.step_eq with same | ⟨n, pos, nonempty, reaches, chunk⟩
    · obtain ⟨n, hn⟩ := consumes_step lx
      have progress := weight_step lx
      have stands := h.step
      cases hstep : lx.step with
      | goOn after reports =>
        rw [hstep] at same hn progress stands
        have reaches := reaches_of_goesOn ⟨reports, hstep⟩ hn
        have lighter : after.weight < w := by
          simpa [Step.isEnd, Step.lexer, hw] using progress
        obtain ⟨left, rest⟩ := ih _ lighter stands (lx.delimiter old) rfl
        rw [reaches.result_eq, reaches.lexer_eq]
        exact ⟨left, .more same rest⟩
      | answer after result reports =>
        rw [hstep] at same
        have answer : lx.next = settle lx.position after result reports :=
          nextFrom_of_answer hstep []
        refine ⟨lx.delimiter old, ?_⟩
        rw [answer, result_settle, indexed_settle]
        exact .last same
    · have lighter : (lx.consume n).weight < w := by
        have shorter := length_consume lx n
        have some_left := List.length_pos_iff.2 nonempty
        have mode : (lx.consume n).mode = lx.mode := rfl
        simp only [Lexer.weight, mode] at hw ⊢
        omega
      obtain ⟨left, rest⟩ := ih _ lighter (h.of_consumes reaches.consumes rfl) old rfl
      rw [reaches.result_eq, reaches.lexer_eq]
      exact ⟨left, .more chunk rest⟩

theorem next (h : Stands source lx) : Stands source lx.next.lexer :=
  nextFrom_keeps (P := Stands source) (fun _ hl => hl.step)
    (fun _ _ hl => hl.of_consumes (n := 0) ⟨rfl, rfl, rfl, rfl⟩ rfl) [] lx h

/-! ## Requests -/

theorem exhausts (h : Stands source lx) (old : Position) :
    ∃ left, Indexed.Exhausts (lx.indexed source old) lx.tokenize.result
      (lx.tokenize.lexer.indexed source left) := by
  fun_induction untilError lx generalizing old with
  | case1 lx e hresult =>
    obtain ⟨left, answers⟩ := h.answers old
    rw [hresult] at answers
    rw [tokenize_of_error hresult, lexer_tokenize_of_error hresult]
    exact ⟨left, .error answers⟩
  | case2 lx t hresult hend =>
    obtain ⟨left, answers⟩ := h.answers old
    rw [hresult] at answers
    rw [tokenize_of_end hresult hend, lexer_tokenize_of_end hresult hend]
    exact ⟨left, .last answers hend⟩
  | case3 lx t hresult hend ih =>
    obtain ⟨between, answers⟩ := h.answers old
    obtain ⟨left, rest⟩ := ih h.next between
    rw [hresult] at answers
    rw [Bool.not_eq_true] at hend
    rw [tokenize_of_token hresult hend, lexer_tokenize_of_token hresult hend]
    exact ⟨left, .more answers hend rest⟩

theorem serves (h : Stands source lx) (old : Position) (r : Request) :
    ∃ left, Indexed.Serves (lx.indexed source old) r (lx.serve r).reply
      ((lx.serve r).lexer.indexed source left) := by
  cases r with
  | next =>
    obtain ⟨left, answers⟩ := h.answers old
    exact ⟨left, .next answers⟩
  | item =>
    cases hfinished : lx.finished with
    | true =>
      rw [serve_item_finished hfinished]
      exact ⟨old, .none hfinished⟩
    | false =>
      have mark : lx.next.isEnd = lx.next.result.toOption.any Token.isEof := by
        rw [Answer.isEnd]
        cases lx.next.result <;> rfl
      obtain ⟨left, answers⟩ := h.answers old
      rw [serve_item_unfinished hfinished, mark]
      exact ⟨left, .item hfinished answers⟩
  | all =>
    obtain ⟨left, exhausts⟩ := h.exhausts old
    exact ⟨left, .all exhausts⟩

theorem serve (h : Stands source lx) (r : Request) : Stands source (lx.serve r).lexer :=
  (asked_keeps (Q := Stands source) (fun _ hl => hl.next)
    (fun _ _ hl => hl.of_consumes (n := 0) ⟨rfl, rfl, rfl, rfl⟩ rfl) h [r]).2

theorem servesAll (h : Stands source lx) (old : Position) (requests : List Request) :
    ∃ left, Indexed.ServesAll (lx.indexed source old) requests (lx.replies requests)
      ((lx.serveAll requests).indexed source left) := by
  induction requests generalizing lx old with
  | nil => exact ⟨old, .nil _⟩
  | cons r requests ih =>
    obtain ⟨between, served⟩ := h.serves old r
    obtain ⟨left, rest⟩ := ih (h.serve r) between
    exact ⟨left, .cons served rest⟩

end Stands

/-- On a source whose lines and columns fit into a word, the lexer by indices
serves all requests and no operation in it traps, whatever the preferences and the
service.  Neither does the reader of byte patterns by indices on any text.  Both
come to the same results as those that hold the text that is left, and the lexer
comes to the same place, mode and content. -/
theorem never_traps {source : List UInt8} (hsize : source.length < UInt32.size - 1)
    (preferences : LexicalPreferences) (service : PatternService) (requests : List Request) :
    let run := new source preferences service
    (∃ delimiter, Indexed.ServesAll (Indexed.start source preferences service) requests
        (run.replies requests) ((run.serveAll requests).indexed source delimiter)) ∧
      ∀ text, Pattern.Indexed.parse text = .ok (Pattern.parse text) :=
  ⟨(Stands.new hsize preferences service).servesAll .start requests, Pattern.Indexed.parse_eq⟩

/-- A size suffix, a string that stays open behind an unknown escape, a byte
pattern and a comment that the source ends in. -/
theorem never_traps_stuck :
    let source := Ascii.bytes "2KB \"\\x41\\q\" \x7b AA /* \x7d */ BB \x7d /* *\n"
    let stuck := { LexicalPreferences.builtin with resetModeOnError := false }
    let requests := [Request.next, .item, .next, .all, .item]
    source.length < UInt32.size - 1 ∧
      ∃ replies after, Indexed.ServesAll (Indexed.start source stuck Pattern.parse) requests
        replies after ∧ replies.length = 5 ∧ after.pos = source.length := by
  intro source stuck requests
  have size : source.length < UInt32.size - 1 := by decide
  obtain ⟨delimiter, served⟩ := (never_traps size stuck Pattern.parse requests).1
  refine ⟨size, _, _, served, rfl, ?_⟩
  have place : ((new source stuck Pattern.parse).serveAll requests).cursor.offset =
      source.length := by decide +kernel
  exact place

end Lexer
end RuleLex
