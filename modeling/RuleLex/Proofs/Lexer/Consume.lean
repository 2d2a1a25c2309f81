/-
What a step does to the text.

A step takes some bytes off the head of what is left and moves the position over
them; the service and the preferences stay.  So at every point of a run what is
left is the end of the source, and the position is that of the text before it.
-/
import RuleLex.Proofs.Lexer.Outcome

namespace RuleLex
namespace Lexer

/-- The lexer has taken `n` bytes and is otherwise over the same source. -/
structure Consumes (lx : Lexer) (n : Nat) (after : Lexer) : Prop where
  rest_eq : after.rest = lx.rest.drop n
  cursor_eq : after.cursor = lx.cursor.bumpAll (lx.rest.take n)
  service_eq : after.service = lx.service
  preferences_eq : after.preferences = lx.preferences

theorem Consumes.position_eq {lx after : Lexer} {n : Nat} (h : Consumes lx n after) :
    after.position = lx.position.advanceBytes (lx.rest.take n) := by
  rw [position, h.cursor_eq, Cursor.position_bumpAll]
  rfl

theorem Consumes.rejoin {lx after : Lexer} {n : Nat} (h : Consumes lx n after) :
    lx.rest.take n ++ after.rest = lx.rest := by
  rw [h.rest_eq, List.take_append_drop]

theorem consumes_step (lx : Lexer) : ∃ n, Consumes lx n lx.step.lexer := by
  have outcome := outcome_step lx
  generalize lx.step = step at outcome ⊢
  cases outcome with
  | finish => exact ⟨0, rfl, rfl, rfl, rfl⟩
  | openAtEnd => exact ⟨0, rfl, rfl, rfl, rfl⟩
  | _ => exact ⟨_, rfl, rfl, rfl, rfl⟩

/-! ## Runs -/

variable {source before : List UInt8} {service : PatternService}
variable {preferences : LexicalPreferences} {lx after : Lexer}

theorem nextFrom_of_goOn {new : List Log.Event} (h : lx.step = .goOn after new)
    (reports : List Log.Event) : nextFrom reports lx = nextFrom (reports ++ new) after := by
  rw [nextFrom.eq_def]
  split
  · rename_i hgoOn
    rw [h] at hgoOn
    cases hgoOn
    rfl
  · rename_i hanswer
    rw [h] at hanswer
    cases hanswer

theorem nextFrom_of_answer {r : Except LexError Token} {new : List Log.Event}
    (h : lx.step = .answer after r new) (reports : List Log.Event) :
    nextFrom reports lx = settle lx.position after r (reports ++ new) := by
  rw [nextFrom.eq_def]
  split
  · rename_i hgoOn
    rw [h] at hgoOn
    cases hgoOn
  · rename_i hanswer
    rw [h] at hanswer
    cases hanswer
    rfl

theorem result_settle (start : Position) (lx : Lexer) (r : Except LexError Token)
    (reports : List Log.Event) : (settle start lx r reports).result = r := by
  cases r <;> rfl

/-- An answer changes nothing but the counts. -/
theorem lexer_settle (start : Position) (lx : Lexer) (r : Except LexError Token)
    (reports : List Log.Event) :
    (settle start lx r reports).lexer =
      { lx with metrics := (settle start lx r reports).lexer.metrics } := by
  cases r <;> rfl

/-- A call keeps what every step keeps and no count is part of. -/
theorem nextFrom_keeps {P : Lexer → Prop} (hstep : ∀ lx, P lx → P lx.step.lexer)
    (hcount : ∀ (lx : Lexer) (metrics : Metrics), P lx → P { lx with metrics := metrics })
    (reports : List Log.Event) (lx : Lexer) (h : P lx) : P (nextFrom reports lx).lexer := by
  fun_induction nextFrom reports lx with
  | case1 reports lx after new hgoOn ih =>
    have kept := hstep lx h
    rw [hgoOn] at kept
    exact ih kept
  | case2 reports lx after r new hanswer =>
    have kept := hstep lx h
    rw [hanswer] at kept
    rw [lexer_settle]
    exact hcount _ _ kept

/-- The lexer stands behind the text `before` of the source it began with. -/
structure Behind (source : List UInt8) (service : PatternService)
    (preferences : LexicalPreferences) (before : List UInt8) (lx : Lexer) : Prop where
  source_eq : source = before ++ lx.rest
  position_eq : lx.position = Position.start.advanceBytes before
  service_eq : lx.service = service
  preferences_eq : lx.preferences = preferences

theorem behind_new (source : List UInt8) (preferences : LexicalPreferences)
    (service : PatternService) :
    Behind source service preferences [] (new source preferences service) :=
  ⟨rfl, Cursor.position_start, rfl, rfl⟩

theorem Behind.offset_eq (h : Behind source service preferences before lx) :
    lx.position.offset = before.length := by
  rw [h.position_eq, Position.offset_advanceBytes]
  exact Nat.zero_add _

theorem Behind.consumes {n : Nat} (h : Behind source service preferences before lx)
    (hn : Consumes lx n after) :
    Behind source service preferences (before ++ lx.rest.take n) after := by
  constructor
  · rw [List.append_assoc, hn.rejoin, h.source_eq]
  · rw [hn.position_eq, h.position_eq, Position.advanceBytes_append]
  · rw [hn.service_eq, h.service_eq]
  · rw [hn.preferences_eq, h.preferences_eq]

theorem Behind.nextFrom (h : Behind source service preferences before lx)
    (reports : List Log.Event) :
    ∃ before, Behind source service preferences before (nextFrom reports lx).lexer := by
  refine nextFrom_keeps (P := fun l => ∃ before, Behind source service preferences before l)
    ?_ ?_ reports lx ⟨before, h⟩
  · intro l ⟨before, hl⟩
    obtain ⟨n, hn⟩ := consumes_step l
    exact ⟨_, hl.consumes hn⟩
  · intro l metrics ⟨before, hl⟩
    exact ⟨before, hl.source_eq, hl.position_eq, hl.service_eq, hl.preferences_eq⟩

end Lexer
end RuleLex
