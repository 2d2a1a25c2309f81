/-
Steps outside literals and comments.

`FollowsTable lx step` says what the table of lexical rules asks of a step: it
takes the head that the table selects and does what the selected rule says, it
refuses a byte exactly where no rule describes a head, and it answers the end
exactly where no text is left.  `step_followsTable` says that every step does.
-/
import RuleLex.Proofs.Lexer.Consume
import RuleLex.Proofs.Lexer.Munch

namespace RuleLex
namespace Lexer

open Lexeme (first?)

/-- The fault of a step that answers with an error. -/
def Step.fault? : Step → Option Fault
  | .answer _ (.error e) _ => some e.fault
  | _ => none

variable {lx : Lexer} {step : Step} {lexeme : Lexeme} {n : Nat}

theorem Effect.consumes (h : Effect lx n lexeme step) : Consumes lx n step.lexer := by
  cases h <;> exact ⟨rfl, rfl, rfl, rfl⟩

theorem Effect.fault_of_refused {fault : Fault} (h : Effect lx n (.refused fault) step) :
    step.fault? = some fault := by
  cases h
  rfl

/-- A fault other than one of the service comes from what is refused. -/
theorem Effect.refused_of_fault {fault : Fault} (h : Effect lx n lexeme step)
    (hfault : step.fault? = some fault) (hother : ∀ e, fault ≠ .hexPattern e) :
    lexeme = .refused fault := by
  cases h with
  | refused =>
    cases hfault
    rfl
  | hexRefused =>
    cases hfault
    exact absurd rfl (hother _)
  | _ => cases hfault

/-- A step outside literals and comments follows the table. -/
structure FollowsTable (lx : Lexer) (step : Step) : Prop where
  /-- The selected rule decides how far the step goes and what it does. -/
  selected : (∀ length, step.fault? ≠ some (.identifierTooLong length)) →
    ∀ rule n, Selects lx.rest rule n → Consumes lx n step.lexer ∧
      ∃ lexeme, rule.Yields (lx.rest.take n) lexeme ∧ Effect lx n lexeme step
  /-- Some rule is selected where any of them describes a head of the text. -/
  selects : ∀ (rule : Rule) n, rule.Matches (lx.rest.take n) → ∃ rule n, Selects lx.rest rule n
  /-- A byte is refused exactly when no rule describes a head that begins with it. -/
  nonAscii : ∀ b, step.fault? = some (.nonAsciiByte b) ↔
    lx.rest.head? = some b ∧ ∀ (rule : Rule) n, ¬ rule.Matches (lx.rest.take n)
  nonAscii_consumes : ∀ b, step.fault? = some (.nonAsciiByte b) → Consumes lx 1 step.lexer
  /-- The end is answered exactly where no text is left. -/
  finish : step.isEnd = true ↔ lx.rest = []
  finish_eq : lx.rest = [] →
    step = .answer lx (.ok (tokenBetween lx.position lx .eof .none)) []

theorem Munch.unmatched_of_nonAscii {s : List UInt8} {b : UInt8}
    (h : Munch s (.refused (.nonAsciiByte b)) n) :
    n = 1 ∧ s.head? = some b ∧ ∀ (rule : Rule) m, ¬ rule.Matches (s.take m) := by
  cases h with
  | selected _ yields =>
    cases yields with
    | badNumber _ hvalue => rcases Number.fault_of_evaluate hvalue with h | h <;> cases h
  | unmatched hb hnone => exact ⟨rfl, hb, hnone⟩

/-- A lexeme says of the table what the step shows. -/
theorem followsTable_of_munch (effect : Effect lx n lexeme step) (munch : Munch lx.rest lexeme n)
    (hrest : lx.rest ≠ []) : FollowsTable lx step := by
  have refused {b : UInt8} (hfault : step.fault? = some (.nonAsciiByte b)) :
      n = 1 ∧ lx.rest.head? = some b ∧ ∀ (rule : Rule) m, ¬ rule.Matches (lx.rest.take m) := by
    obtain rfl := effect.refused_of_fault hfault (fun e h => by cases h)
    exact munch.unmatched_of_nonAscii
  have notEnd : step.isEnd = false := by
    cases munch with
    | selected _ yields =>
      cases effect with
      | token kind value => exact beq_eq_false_iff_ne.2 yields.kind_ne_eof
      | _ => rfl
    | _ => cases effect; rfl
  constructor
  · intro short rule m hselects
    cases munch with
    | selected hselected yields =>
      obtain ⟨rfl, rfl⟩ := hselected.unique hselects
      exact ⟨effect.consumes, lexeme, yields, effect⟩
    | tooLong => exact absurd effect.fault_of_refused (short _)
    | unmatched _ hnone => exact absurd hselects.own (hnone rule m)
  · exact fun rule m h => exists_selects h
  · intro b
    refine ⟨fun hfault => (refused hfault).2, fun h => ?_⟩
    obtain ⟨hb, hnone⟩ := h
    cases munch with
    | selected hselected => exact absurd hselected.own (hnone _ _)
    | tooLong overlong =>
      obtain ⟨rule, m, hselects⟩ := overlong.exists_selects
      exact absurd hselects.own (hnone rule m)
    | unmatched hb' =>
      rw [hb] at hb'
      cases hb'
      exact effect.fault_of_refused
  · intro b hfault
    obtain ⟨rfl, -⟩ := refused hfault
    exact effect.consumes
  · rw [notEnd]
    exact iff_of_false Bool.false_ne_true hrest
  · exact fun h => absurd h hrest

theorem followsTable_of_end (hm : lx.mode = .initial) (hrest : lx.rest = []) :
    FollowsTable lx lx.step := by
  have step : lx.step = .answer lx (.ok (tokenBetween lx.position lx .eof .none)) [] := by
    rw [Lexer.step, hm]
    simp only [stepInitial, hrest, first?]
  have none (rule : Rule) (n : Nat) : ¬ rule.Matches (lx.rest.take n) := by
    rw [hrest, List.take_nil]
    exact rule.not_matches_nil
  constructor
  · exact fun _ rule n hselects => absurd hselects.own (none rule n)
  · exact fun rule n h => absurd h (none rule n)
  · intro b
    rw [step, hrest]
    exact iff_of_false (by simp [Step.fault?]) (by simp)
  · intro b hfault
    rw [step] at hfault
    cases hfault
  · rw [step]
    exact iff_of_true rfl hrest
  · exact fun _ => step

/-- Outside literals and comments every step follows the table of lexical rules. -/
theorem step_followsTable (hm : lx.mode = .initial) : FollowsTable lx lx.step := by
  cases hfirst : first? lx.rest with
  | none =>
    refine followsTable_of_end hm ?_
    cases hrest : lx.rest with
    | nil => rfl
    | cons b s =>
      rw [hrest] at hfirst
      cases hfirst
  | some r =>
    obtain ⟨lexeme, n⟩ := r
    refine followsTable_of_munch (effect_step hm hfirst) (munch_first hfirst) ?_
    intro hrest
    rw [hrest] at hfirst
    cases hfirst

theorem step_followsTable_operator :
    let lx := new (Ascii.bytes "!= 1") LexicalPreferences.builtin Pattern.parse
    lx.mode = .initial ∧ FollowsTable lx lx.step ∧
      ∃ rule : Rule, Selects lx.rest rule 2 ∧ rule.Matches [Ascii.bang, Ascii.equals] := by
  intro lx
  have table : FollowsTable lx lx.step := step_followsTable rfl
  have noFault : lx.step.fault? = none := by decide +kernel
  have left : lx.step.lexer.rest.length = 2 := by decide +kernel
  have symbol : Rule.symbol.Matches (lx.rest.take 1) := ⟨Ascii.bang, by decide, rfl⟩
  obtain ⟨rule, n, hselects⟩ := table.selects .symbol 1 symbol
  obtain ⟨consumes, -⟩ := table.selected (by simp [noFault]) rule n hselects
  have taken : n = 2 := by
    have fits : n ≤ 4 := hselects.longest.1
    have length : 4 - n = 2 := by
      rw [← left, consumes.rest_eq, List.length_drop]
      rfl
    omega
  subst taken
  exact ⟨rfl, table, rule, hselects, hselects.own⟩

end Lexer
end RuleLex
