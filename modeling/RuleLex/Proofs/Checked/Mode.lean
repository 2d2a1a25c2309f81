/-
The mode, the buffer and the delimiter of the lexer by indices.

The three stand side by side, so each way out of a literal has to empty the buffer
and to set the mode itself.  `Exit` has one case for each way on which a scan ends,
and `exit_scan` says that there are no others, for any source at all.  From it
follow what a step does to the mode and to the count of its changes,
`Exit.counted`, and that the buffer is empty wherever no literal is open,
`Exit.clean`.

Between two calls a lexer is `Idle`: nothing is gathered, and it is in the initial
mode or, without a reset after errors, in a literal that an error has broken off
before the end of the source.  `mode_machine` has all of this for whole runs.
-/
import RuleLex.Proofs.Checked.Safety

namespace RuleLex

open Checked (exists_of_bind)

namespace Lexer
namespace Indexed

/-- Only the cursor has moved. -/
structure Moved (c after : Indexed) : Prop where
  mode_eq : after.mode = c.mode
  buffer_eq : after.buffer = c.buffer
  transitions_eq : after.transitions = c.transitions
  preferences_eq : after.preferences = c.preferences

/-- The text ahead is at its end inside a literal. -/
def AtEnd (c : Indexed) : Prop := Piece.AtEnd (c.source.drop c.pos)

variable {c after next : Indexed} {n : Nat} {b : UInt8} {step : Step}

/-! ## The cursor -/

namespace Moved

theorem refl (c : Indexed) : Moved c c := ⟨rfl, rfl, rfl, rfl⟩

theorem trans (h : Moved c next) (h' : Moved next after) : Moved c after :=
  ⟨h'.mode_eq.trans h.mode_eq, h'.buffer_eq.trans h.buffer_eq,
    h'.transitions_eq.trans h.transitions_eq, h'.preferences_eq.trans h.preferences_eq⟩

end Moved

theorem moved_bump (h : c.bump = .ok after) : Moved c after := by
  unfold bump at h
  split at h
  · cases h
    exact .refl _
  · split at h
    · obtain ⟨line, -, h⟩ := exists_of_bind h
      cases h
      exact ⟨rfl, rfl, rfl, rfl⟩
    · cases h
      exact ⟨rfl, rfl, rfl, rfl⟩

theorem moved_bumpN (h : bumpN n c = .ok after) : Moved c after := by
  induction n generalizing c with
  | zero =>
    cases h
    exact .refl _
  | succ n ih =>
    obtain ⟨next, bumped, h⟩ := exists_of_bind h
    exact (moved_bump bumped).trans (ih h)

theorem moved_bumpWhile {test : UInt8 → Bool} (h : bumpWhile test n c = .ok after) :
    Moved c after := by
  induction n generalizing c with
  | zero =>
    cases h
    exact .refl _
  | succ n ih =>
    unfold bumpWhile at h
    split at h
    · obtain ⟨next, bumped, h⟩ := exists_of_bind h
      exact (moved_bump bumped).trans (ih h)
    · cases h
      exact .refl _

theorem moved_eatWhile {test : UInt8 → Bool} {run : List UInt8}
    (h : c.eatWhile test = .ok (run, after)) : Moved c after := by
  obtain ⟨next, moved, h⟩ := exists_of_bind h
  obtain ⟨text, -, h⟩ := exists_of_bind h
  cases h
  exact moved_bumpWhile moved

theorem atEnd_of_peek (h : c.peek = none) : c.AtEnd := .inl (Checked.drop_eq_nil h)

theorem atEnd_of_peekAt (h : c.peek = some Ascii.backslash) (hnext : c.peekAt 1 = none) :
    c.AtEnd := by
  refine .inr ?_
  rw [Checked.drop_eq_cons h, Checked.drop_eq_nil hnext]

theorem not_atEnd_of_peek (h : c.peek = some b) (hb : b ≠ Ascii.backslash) : ¬ c.AtEnd := by
  rw [AtEnd, Checked.drop_eq_cons h]
  rintro (nil | single)
  · cases nil
  · exact hb (List.cons.inj single).1

theorem not_atEnd_of_peekAt {next : UInt8} (h : c.peek = some b)
    (hnext : c.peekAt 1 = some next) : ¬ c.AtEnd := by
  rw [AtEnd, Checked.drop_eq_cons h, Checked.drop_eq_cons hnext]
  rintro (nil | single)
  · cases nil
  · cases (List.cons.inj single).2

/-! ## The ways on which a scan ends -/

/-- How a scan ends, with what that does to the mode and the buffer: one case for
each exit.  An error sticks in a literal or leaves what is open, and it leaves a
literal only where it could not have stuck. -/
inductive Exit (c : Indexed) : Step → Prop
  | moves {after : Indexed} (h : Moved c after) : Exit c (.goOn after)
  | answers {after : Indexed} {result : Except LexError Token} (hm : c.mode = .initial)
    (h : Moved c after) (keeps : ∀ e, result = .error e → e.fault.staysOpen = false) :
    Exit c (.answer after result)
  | opensLiteral {after : Indexed} (form : Quoted) (start : Position) (hm : c.mode = .initial)
    (h : Moved c after) : Exit c (.goOn (after.beginLiteral form start))
  | opensComment {after : Indexed} (start : Position) (hm : c.mode = .initial)
    (h : Moved c after) : Exit c (.goOn (after.beginComment start))
  | gathers {after : Indexed} {form : Quoted} (more : List UInt8) (hm : c.mode = .quoted form)
    (h : Moved c after) : Exit c (.goOn { after with buffer := after.buffer ++ more })
  | sticks {after : Indexed} {form : Quoted} {e : LexError} (hm : c.mode = .quoted form)
    (h : Moved c after) (stuck : c.preferences.resetModeOnError = false)
    (stays : e.fault.staysOpen = true) (before : ¬ c.AtEnd) :
    Exit c (.answer { after with buffer := [] } (.error e))
  | closes {after : Indexed} {form : Quoted} (t : Token) (hm : c.mode = .quoted form)
    (h : Moved c after) :
    Exit c (.answer ({ after with buffer := [] }.enterMode .initial) (.ok t))
  | leaves {after : Indexed} {e : LexError} (hm : c.mode ≠ .initial) (h : Moved c after)
    (closed : ¬ (c.preferences.resetModeOnError = false ∧ e.fault.staysOpen = true ∧
      ¬ c.AtEnd)) :
    Exit c (after.leave e)
  | closesComment {after : Indexed} (hm : c.mode = .comment) (h : Moved c after) :
    Exit c (.goOn (after.enterMode .initial))

/-! ### Outside literals and comments -/

theorem Exit.token (hm : c.mode = .initial) (h : Moved c after) (t : Token) :
    Exit c (.answer after (.ok t)) := .answers hm h fun _ heq => by cases heq

theorem Exit.refused {e : LexError} (hm : c.mode = .initial) (h : Moved c after)
    (keeps : e.fault.staysOpen = false) : Exit c (.answer after (.error e)) :=
  .answers hm h fun _ heq => by
    cases heq
    exact keeps

/-- The faults of numbers are not those of literals. -/
theorem staysOpen_of_evaluate {form : Number.Form} {text : List UInt8} {fault : Fault}
    (h : evaluate form text = .ok (.error fault)) : fault.staysOpen = false := by
  have integer {value : Nat} (h : Number.integer text value = .error fault) :
      fault.staysOpen = false := by
    unfold Number.integer at h
    split at h
    · cases h
    · cases h
      rfl
  unfold evaluate at h
  split at h
  · obtain ⟨digits, -, h⟩ := exists_of_bind h
    exact integer (Except.ok.inj h)
  · obtain ⟨digits, -, h⟩ := exists_of_bind h
    exact integer (Except.ok.inj h)
  · rcases Number.fault_of_evaluate (Except.ok.inj h) with rfl | rfl
    · rfl
    · rfl
  · obtain ⟨digits, -, h⟩ := exists_of_bind h
    simp only at h
    split at h
    · cases h
      rfl
    · split at h
      · cases h
        rfl
      · obtain ⟨scaled, -, h⟩ := exists_of_bind h
        cases h

theorem exit_scanNumber (hm : c.mode = .initial) (h : c.scanNumber = .ok step) :
    Exit c step := by
  obtain ⟨start, -, h⟩ := exists_of_bind h
  simp only at h
  obtain ⟨after, moved, h⟩ := exists_of_bind h
  obtain ⟨span, -, h⟩ := exists_of_bind h
  obtain ⟨text, -, h⟩ := exists_of_bind h
  obtain ⟨value, evaluated, h⟩ := exists_of_bind h
  split at h
  · cases h
    exact .token hm (moved_bumpN moved) _
  · cases h
    exact .refused hm (moved_bumpN moved) (staysOpen_of_evaluate evaluated)

theorem exit_answerName {kind : TokenKind} {start : Position} (hm : c.mode = .initial)
    (moved : Moved c after) (h : after.answerName kind start = .ok step) : Exit c step := by
  obtain ⟨lexeme, -, h⟩ := exists_of_bind h
  obtain ⟨span, -, h⟩ := exists_of_bind h
  obtain ⟨token, -, h⟩ := exists_of_bind h
  cases h
  exact .token hm moved token

theorem exit_scanWord {start : Position} (hm : c.mode = .initial)
    (h : c.scanWord start = .ok step) : Exit c step := by
  obtain ⟨⟨word, after⟩, eaten, h⟩ := exists_of_bind h
  obtain ⟨span, -, h⟩ := exists_of_bind h
  have moved := moved_eatWhile eaten
  simp only at h
  split at h
  · cases h
    exact .token hm moved _
  · split at h
    · cases h
      exact .refused hm moved rfl
    · obtain ⟨token, -, h⟩ := exists_of_bind h
      cases h
      exact .token hm moved token

theorem exit_scanSigil {sigil : UInt8} {start : Position} (hm : c.mode = .initial)
    (h : c.scanSigil sigil start = .ok step) : Exit c step := by
  obtain ⟨named, bumped, h⟩ := exists_of_bind h
  obtain ⟨⟨name, after⟩, eaten, h⟩ := exists_of_bind h
  have moved := (moved_bump bumped).trans (moved_eatWhile eaten)
  simp only at h
  split at h
  · cases h
    exact .refused hm moved rfl
  · split at h
    · obtain ⟨starred, behind, h⟩ := exists_of_bind h
      exact exit_answerName hm (moved.trans (moved_bump behind)) h
    · exact exit_answerName hm moved h

theorem exit_scanPunctuation {start : Position} (hm : c.mode = .initial)
    (h : c.scanPunctuation b start = .ok step) : Exit c step := by
  unfold scanPunctuation at h
  split at h
  · obtain ⟨after, moved, h⟩ := exists_of_bind h
    obtain ⟨span, -, h⟩ := exists_of_bind h
    obtain ⟨token, -, h⟩ := exists_of_bind h
    cases h
    exact .token hm (moved_bumpN moved) token
  · obtain ⟨after, moved, h⟩ := exists_of_bind h
    obtain ⟨span, -, h⟩ := exists_of_bind h
    cases h
    exact .token hm (moved_bump moved) _

theorem exit_scanBrace {start : Position} (hm : c.mode = .initial)
    (h : c.scanBrace start = .ok step) : Exit c step := by
  obtain ⟨left, -, h⟩ := exists_of_bind h
  split at h
  · obtain ⟨after, moved, h⟩ := exists_of_bind h
    obtain ⟨span, -, h⟩ := exists_of_bind h
    cases h
    exact .token hm (moved_bump moved) _
  · obtain ⟨text, -, h⟩ := exists_of_bind h
    obtain ⟨after, moved, h⟩ := exists_of_bind h
    obtain ⟨span, -, h⟩ := exists_of_bind h
    split at h
    · cases h
      exact .token hm (moved_bumpN moved) _
    · cases h
      exact .refused hm (moved_bumpN moved) rfl

theorem exit_scanSlash {start : Position} (hm : c.mode = .initial)
    (h : c.scanSlash start = .ok step) : Exit c step := by
  unfold scanSlash at h
  split at h
  · obtain ⟨after, moved, h⟩ := exists_of_bind h
    cases h
    exact .opensComment start hm (moved_bumpN moved)
  · split at h
    · obtain ⟨⟨text, after⟩, eaten, h⟩ := exists_of_bind h
      cases h
      exact .moves (moved_eatWhile eaten)
    · obtain ⟨after, moved, h⟩ := exists_of_bind h
      cases h
      exact .opensLiteral .regex start hm (moved_bump moved)

theorem exit_scanInitial (hm : c.mode = .initial) (h : c.scanInitial = .ok step) :
    Exit c step := by
  obtain ⟨start, -, h⟩ := exists_of_bind h
  simp only at h
  split at h
  · cases h
    exact .token hm (.refl _) _
  split at h
  · obtain ⟨⟨run, after⟩, eaten, h⟩ := exists_of_bind h
    cases h
    exact .moves (moved_eatWhile eaten)
  split at h
  · exact exit_scanSlash hm h
  split at h
  · obtain ⟨after, moved, h⟩ := exists_of_bind h
    cases h
    exact .opensLiteral .string start hm (moved_bump moved)
  split at h
  · exact exit_scanBrace hm h
  split at h
  · exact exit_scanNumber hm h
  split at h
  · exact exit_scanWord hm h
  split at h
  · exact exit_scanSigil hm h
  split at h
  · exact exit_scanSigil hm h
  split at h
  · exact exit_scanPunctuation hm h
  · obtain ⟨after, moved, h⟩ := exists_of_bind h
    cases h
    exact .refused hm (moved_bump moved) rfl

/-! ### Inside literals and comments -/

variable {form : Quoted}

theorem exit_close {modifiers : Modifiers} (hm : c.mode = .quoted form) (moved : Moved c after)
    (h : after.close form modifiers = .ok step) : Exit c step := by
  obtain ⟨⟨content, span, final⟩, finished, h⟩ := exists_of_bind h
  obtain ⟨stop, -, finished⟩ := exists_of_bind finished
  cases finished
  cases h
  exact .closes _ hm moved

/-- A literal that the source ends in is left. -/
theorem Exit.ended {e : LexError} (hm : c.mode = .quoted form) (moved : Moved c after)
    (ends : c.AtEnd) : Exit c (after.leave e) :=
  .leaves (by simp [hm]) moved fun ⟨_, _, before⟩ => before ends

/-- A fault that never stays open is not asked where it was raised. -/
theorem Exit.abandoned {e : LexError} (hm : c.mode ≠ .initial) (moved : Moved c after)
    (keeps : e.fault.staysOpen = false) : Exit c (after.leave e) :=
  .leaves hm moved fun ⟨_, stays, _⟩ => by
    rw [keeps] at stays
    cases stays

theorem literalError_of_reset (reset : c.preferences.resetModeOnError = true) (e : LexError) :
    c.literalError e = c.leave e := by
  simp only [literalError, leave, reset, if_true]

theorem literalError_of_stuck (stuck : c.preferences.resetModeOnError = false) (e : LexError) :
    c.literalError e = .answer { c with buffer := [] } (.error e) := by
  simp only [literalError, stuck, Bool.false_eq_true, if_false]

/-- The preferences say whether a broken literal is left. -/
theorem exit_literalError {e : LexError} (hm : c.mode = .quoted form) (moved : Moved c after)
    (stays : e.fault.staysOpen = true) (before : ¬ c.AtEnd) :
    Exit c (after.literalError e) := by
  have same := congrArg LexicalPreferences.resetModeOnError moved.preferences_eq
  cases reset : c.preferences.resetModeOnError with
  | true =>
    rw [literalError_of_reset (same.trans reset)]
    refine .leaves (by simp [hm]) moved ?_
    rintro ⟨stuck, -, -⟩
    rw [reset] at stuck
    cases stuck
  | false =>
    rw [literalError_of_stuck (same.trans reset)]
    exact .sticks hm moved reset stays before

/-- Too much is dropped again with all that was there before. -/
theorem exit_push (more : List UInt8) (hm : c.mode = .quoted form) (moved : Moved c after)
    (before : ¬ c.AtEnd) : Exit c (after.push more) := by
  have dropped (e : LexError) :
      { after with buffer := after.buffer ++ more }.literalError e = after.literalError e := rfl
  unfold push
  simp only [dropped]
  split
  · exact exit_literalError hm moved rfl before
  · exact .gathers more hm moved

theorem exit_pushEscape (hm : c.mode = .quoted form) (before : ¬ c.AtEnd)
    (h : c.pushEscape n = .ok step) : Exit c step := by
  obtain ⟨left, -, h⟩ := exists_of_bind h
  obtain ⟨escape, -, h⟩ := exists_of_bind h
  obtain ⟨after, moved, h⟩ := exists_of_bind h
  cases h
  exact exit_push escape hm (moved_bumpN moved) before

theorem exit_scanStringEscape (hm : c.mode = .quoted .string)
    (hpeek : c.peek = some Ascii.backslash) (h : c.scanStringEscape = .ok step) :
    Exit c step := by
  unfold scanStringEscape at h
  split at h
  · rename_i hnext
    obtain ⟨after, moved, h⟩ := exists_of_bind h
    cases h
    exact .ended hm (moved_bump moved) (atEnd_of_peekAt hpeek hnext)
  · rename_i next hnext
    have before := not_atEnd_of_peekAt hpeek hnext
    split at h
    · exact exit_pushEscape hm before h
    · split at h
      · exact exit_pushEscape hm before h
      · obtain ⟨after, moved, h⟩ := exists_of_bind h
        cases h
        refine exit_literalError hm (moved_bumpN moved) ?_ before
        simp only
        split
        · rfl
        · rfl

theorem exit_scanString (hm : c.mode = .quoted .string) (h : c.scanString = .ok step) :
    Exit c step := by
  unfold scanString at h
  split at h
  · rename_i hpeek
    cases h
    exact .ended hm (.refl _) (atEnd_of_peek hpeek)
  · rename_i b hpeek
    split at h
    · obtain ⟨after, moved, h⟩ := exists_of_bind h
      exact exit_close hm (moved_bump moved) h
    · split at h
      · rename_i newline
        obtain ⟨after, moved, h⟩ := exists_of_bind h
        cases h
        exact exit_literalError hm (moved_bump moved) rfl
          (not_atEnd_of_peek hpeek (by rw [newline]; decide))
      · split at h
        · rename_i backslash
          rw [backslash] at hpeek
          exact exit_scanStringEscape hm hpeek h
        · rename_i plain
          obtain ⟨⟨run, after⟩, eaten, h⟩ := exists_of_bind h
          cases h
          exact exit_push run hm (moved_eatWhile eaten) (not_atEnd_of_peek hpeek plain)

theorem exit_scanRegexEscape (hm : c.mode = .quoted .regex)
    (hpeek : c.peek = some Ascii.backslash) (h : c.scanRegexEscape = .ok step) :
    Exit c step := by
  unfold scanRegexEscape at h
  split at h
  · rename_i hnext
    obtain ⟨after, moved, h⟩ := exists_of_bind h
    cases h
    exact .ended hm (moved_bump moved) (atEnd_of_peekAt hpeek hnext)
  · rename_i next hnext
    have before := not_atEnd_of_peekAt hpeek hnext
    split at h
    · obtain ⟨after, moved, h⟩ := exists_of_bind h
      cases h
      exact exit_literalError hm (moved_bumpN moved) rfl before
    · exact exit_pushEscape hm before h

theorem exit_closeRegex {line : Nat} (hm : c.mode = .quoted .regex) (moved : Moved c next)
    (h : next.closeRegex line = .ok step) : Exit c step := by
  obtain ⟨⟨run, after⟩, eaten, h⟩ := exists_of_bind h
  have moved := moved.trans (moved_eatWhile eaten)
  simp only at h
  split at h
  · exact exit_close hm moved h
  · cases h
    exact .abandoned (by simp [hm]) moved rfl

theorem exit_scanRegex (hm : c.mode = .quoted .regex) (h : c.scanRegex = .ok step) :
    Exit c step := by
  unfold scanRegex at h
  split at h
  · rename_i hpeek
    cases h
    exact .ended hm (.refl _) (atEnd_of_peek hpeek)
  · rename_i b hpeek
    split at h
    · obtain ⟨after, moved, h⟩ := exists_of_bind h
      exact exit_closeRegex hm (moved_bump moved) h
    · split at h
      · rename_i newline
        obtain ⟨after, moved, h⟩ := exists_of_bind h
        cases h
        exact exit_literalError hm (moved_bump moved) rfl
          (not_atEnd_of_peek hpeek (by rw [newline]; decide))
      · split at h
        · rename_i backslash
          rw [backslash] at hpeek
          exact exit_scanRegexEscape hm hpeek h
        · rename_i plain
          obtain ⟨⟨run, after⟩, eaten, h⟩ := exists_of_bind h
          cases h
          exact exit_push run hm (moved_eatWhile eaten) (not_atEnd_of_peek hpeek plain)

theorem exit_scanComment (hm : c.mode = .comment) (h : c.scanComment = .ok step) :
    Exit c step := by
  unfold scanComment at h
  split at h
  · cases h
    exact .abandoned (by simp [hm]) (.refl _) rfl
  · split at h
    · obtain ⟨after, moved, h⟩ := exists_of_bind h
      cases h
      exact .closesComment hm (moved_bumpN moved)
    · obtain ⟨next, bumped, h⟩ := exists_of_bind h
      obtain ⟨⟨run, after⟩, eaten, h⟩ := exists_of_bind h
      cases h
      exact .moves ((moved_bump bumped).trans (moved_eatWhile eaten))

/-- There is no other way out of a scan. -/
theorem exit_scan (h : c.scan = .ok step) : Exit c step := by
  unfold scan at h
  split at h
  · rename_i hm
    exact exit_scanInitial hm h
  · rename_i hm
    exact exit_scanString hm h
  · rename_i hm
    exact exit_scanRegex hm h
  · rename_i hm
    exact exit_scanComment hm h

theorem exit_step (h : c.step = .ok step) : Exit c step := by
  obtain ⟨start, -, h⟩ := exists_of_bind h
  obtain ⟨scanned, hscan, h⟩ := exists_of_bind h
  have exit := exit_scan hscan
  split at h
  · cases h
    exact exit
  · cases h
    exact exit
  · obtain ⟨span, -, h⟩ := exists_of_bind h
    cases h
    exact exit

/-! ## What an exit does -/

theorem mode_enterMode (c : Indexed) (mode : Mode.Kind) : (c.enterMode mode).mode = mode := by
  unfold enterMode
  split
  · assumption
  · rfl

theorem buffer_enterMode (c : Indexed) (mode : Mode.Kind) :
    (c.enterMode mode).buffer = c.buffer := by
  unfold enterMode
  split <;> rfl

theorem preferences_enterMode (c : Indexed) (mode : Mode.Kind) :
    (c.enterMode mode).preferences = c.preferences := by
  unfold enterMode
  split <;> rfl

/-- The lexer after a step. -/
def Step.lexer : Step → Indexed
  | .goOn c => c
  | .answer c _ => c

/-- A change of mode is counted, and it has the initial mode on one side. -/
structure Counted (c after : Indexed) : Prop where
  sides : after.mode ≠ c.mode → Xor (c.mode = .initial) (after.mode = .initial)
  transitions_eq : after.transitions = c.transitions + if after.mode = c.mode then 0 else 1

theorem Counted.kept (mode_eq : after.mode = c.mode)
    (transitions_eq : after.transitions = c.transitions) : Counted c after where
  sides differs := absurd mode_eq differs
  transitions_eq := by rw [if_pos mode_eq, transitions_eq, Nat.add_zero]

theorem Counted.entered {mode : Mode.Kind} (mode_eq : next.mode = c.mode)
    (transitions_eq : next.transitions = c.transitions)
    (sides : Xor (c.mode = .initial) (mode = .initial)) : Counted c (next.enterMode mode) := by
  have differs : mode ≠ c.mode := by
    rintro rfl
    rcases sides with ⟨own, other⟩ | ⟨own, other⟩
    · exact other own
    · exact other own
  constructor
  · intro
    rw [mode_enterMode]
    exact sides
  · rw [mode_enterMode, if_neg differs, ← transitions_eq, enterMode,
      if_neg (mode_eq ▸ differs.symm)]

theorem Exit.counted (h : Exit c step) : Counted c step.lexer := by
  cases h with
  | moves h | answers _ h | gathers _ _ h | sticks _ h =>
    exact .kept h.mode_eq h.transitions_eq
  | opensLiteral form start hm h | opensComment start hm h =>
    exact .entered h.mode_eq h.transitions_eq (.inl ⟨hm, by simp⟩)
  | closes t hm h | closesComment hm h =>
    exact .entered h.mode_eq h.transitions_eq (.inr ⟨rfl, by simp [hm]⟩)
  | leaves hm h => exact .entered h.mode_eq h.transitions_eq (.inr ⟨rfl, hm⟩)

/-- The buffer is empty wherever no literal is open. -/
def Clean (c : Indexed) : Prop := (∀ form, c.mode ≠ .quoted form) → c.buffer = []

theorem Exit.clean (hc : Clean c) (h : Exit c step) : Clean step.lexer := by
  cases h with
  | moves h | answers _ h =>
    intro outside
    exact h.buffer_eq.trans (hc fun form inside => outside form (h.mode_eq.trans inside))
  | opensLiteral | closes | leaves => exact fun _ => buffer_enterMode _ _
  | sticks => exact fun _ => rfl
  -- These leave the buffer alone, which was empty.
  | opensComment _ hm h | closesComment hm h =>
    intro
    exact (buffer_enterMode _ _).trans (h.buffer_eq.trans (hc fun form => by simp [hm]))
  | gathers more hm h =>
    intro outside
    exact absurd (h.mode_eq.trans hm) (outside _)

/-- What an answer leaves behind.  The buffer is empty.  A token leaves the lexer
in the initial mode; an error leaves it elsewhere just when there is no reset, the
fault is one that stays open and the source was not at its end. -/
structure Answered (preferences : LexicalPreferences) (raised : Indexed)
    (result : Except LexError Token) (after : Indexed) : Prop where
  buffer_eq : after.buffer = []
  mode_ne : after.mode ≠ .comment
  token : ∀ t, result = .ok t → after.mode = .initial
  error : ∀ e, result = .error e → (after.mode ≠ .initial ↔
    preferences.resetModeOnError = false ∧ e.fault.staysOpen = true ∧ ¬ raised.AtEnd)

theorem Answered.initial {preferences : LexicalPreferences} {result : Except LexError Token}
    (buffer_eq : after.buffer = []) (mode_eq : after.mode = .initial)
    (error : ∀ e, result = .error e →
      ¬ (preferences.resetModeOnError = false ∧ e.fault.staysOpen = true ∧ ¬ c.AtEnd)) :
    Answered preferences c result after where
  buffer_eq := buffer_eq
  mode_ne := by simp [mode_eq]
  token _ _ := mode_eq
  error e he := iff_of_false (fun differs => differs mode_eq) (error e he)

theorem Answered.stuck {preferences : LexicalPreferences} {form : Quoted} {e : LexError}
    (buffer_eq : after.buffer = []) (mode_eq : after.mode = .quoted form)
    (stuck : preferences.resetModeOnError = false) (stays : e.fault.staysOpen = true)
    (before : ¬ c.AtEnd) : Answered preferences c (.error e) after where
  buffer_eq := buffer_eq
  mode_ne := by simp [mode_eq]
  token := fun _ ht => by cases ht
  error := by
    rintro _ ⟨⟩
    exact iff_of_true (by simp [mode_eq]) ⟨stuck, stays, before⟩

theorem Exit.answered {result : Except LexError Token} (hc : Clean c)
    (h : Exit c (.answer after result)) : Answered c.preferences c result after := by
  generalize heq : Step.answer after result = step at h
  cases h with
  | moves | opensLiteral | opensComment | gathers | closesComment => cases heq
  | answers hm h keeps =>
    cases heq
    refine .initial (h.buffer_eq.trans (hc fun form => by simp [hm]))
      (h.mode_eq.trans hm) ?_
    rintro e he ⟨-, stays, -⟩
    rw [keeps e he] at stays
    cases stays
  | closes t hm h =>
    cases heq
    exact .initial (buffer_enterMode _ _) (mode_enterMode _ _) fun _ he => by cases he
  | leaves hm h closed =>
    cases heq
    refine .initial (buffer_enterMode _ _) (mode_enterMode _ _) ?_
    rintro e ⟨⟩
    exact closed
  | sticks hm h stuck stays before =>
    cases heq
    exact .stuck rfl (h.mode_eq.trans hm) stuck stays before

/-! ## Between two calls -/

/-- A step goes on. -/
def Goes (c after : Indexed) : Prop := c.step = .ok (.goOn after)

/-- What every step keeps. -/
structure Sound (preferences : LexicalPreferences) (c : Indexed) : Prop where
  preferences_eq : c.preferences = preferences
  clean : Clean c
  even_iff : Even c.transitions ↔ c.mode = .initial

/-- How a lexer stands between two calls. -/
structure Idle (preferences : LexicalPreferences) (c : Indexed) : Prop where
  preferences_eq : c.preferences = preferences
  buffer_eq : c.buffer = []
  mode_ne : c.mode ≠ .comment
  even_iff : Even c.transitions ↔ c.mode = .initial
  reset : preferences.resetModeOnError = true → c.mode = .initial

variable {preferences : LexicalPreferences}

theorem idle_start (source : List UInt8) (preferences : LexicalPreferences)
    (service : PatternService) : Idle preferences (start source preferences service) where
  preferences_eq := rfl
  buffer_eq := rfl
  mode_ne h := by cases h
  even_iff := iff_of_true Even.zero rfl
  reset _ := rfl

theorem Idle.sound (h : Idle preferences c) : Sound preferences c :=
  ⟨h.preferences_eq, fun _ => h.buffer_eq, h.even_iff⟩

theorem Exit.preferences_eq (h : Exit c step) : step.lexer.preferences = c.preferences := by
  cases h with
  | moves h | answers _ h | gathers _ _ h | sticks _ h => exact h.preferences_eq
  | opensLiteral _ _ _ h | opensComment _ _ h | closes _ _ h | leaves _ h | closesComment _ h =>
    exact (preferences_enterMode _ _).trans h.preferences_eq

theorem Counted.even_iff (h : Counted c after) (hc : Even c.transitions ↔ c.mode = .initial) :
    Even after.transitions ↔ after.mode = .initial := by
  rw [h.transitions_eq]
  split
  · rename_i same
    rw [same]
    exact hc
  · rename_i differs
    rw [Nat.even_add_one, hc]
    rcases h.sides differs with ⟨own, other⟩ | ⟨other, own⟩
    · exact iff_of_false (fun left => left own) other
    · exact iff_of_true own other

theorem Exit.sound (exit : Exit c step) (h : Sound preferences c) :
    Sound preferences step.lexer :=
  ⟨exit.preferences_eq.trans h.preferences_eq, exit.clean h.clean,
    exit.counted.even_iff h.even_iff⟩

/-- Every answer is raised by a step, and leaves the lexer idle. -/
theorem Sound.answered {result : Except LexError Token} (h : Sound preferences c)
    (answers : Answers c result after) :
    Idle preferences after ∧ ∃ raised, Relation.ReflTransGen Goes c raised ∧
      raised.step = .ok (.answer after result) ∧ Answered preferences raised result after := by
  induction answers with
  | @last c after result hstep =>
    have exit := exit_step hstep
    have answered := exit.answered h.clean
    have sound := exit.sound h
    rw [h.preferences_eq] at answered
    refine ⟨⟨sound.preferences_eq, answered.buffer_eq, answered.mode_ne, sound.even_iff, ?_⟩,
      c, .refl, hstep, answered⟩
    intro reset
    cases result with
    | ok t => exact answered.token t rfl
    | error e =>
      by_contra differs
      have stuck := ((answered.error e rfl).1 differs).1
      rw [reset] at stuck
      cases stuck
  | more hstep _ ih =>
    obtain ⟨idle, raised, steps, hraised, answered⟩ := ih ((exit_step hstep).sound h)
    exact ⟨idle, raised, .head hstep steps, hraised, answered⟩

theorem Idle.exhausts {result : Except LexError (List Token)} (h : Idle preferences c)
    (exhausts : Exhausts c result after) : Idle preferences after := by
  induction exhausts with
  | error answers | last answers => exact (h.sound.answered answers).1
  | more answers _ _ ih => exact ih (h.sound.answered answers).1

theorem Idle.serves {r : Request} {reply : Reply} (h : Idle preferences c)
    (serves : Serves c r reply after) : Idle preferences after := by
  cases serves with
  | next answers => exact (h.sound.answered answers).1
  | none => exact h
  | item _ answers =>
    have idle := (h.sound.answered answers).1
    exact ⟨idle.preferences_eq, idle.buffer_eq, idle.mode_ne, idle.even_iff, idle.reset⟩
  | all exhausts => exact h.exhausts exhausts

theorem Idle.servesAll {requests : List Request} {replies : List Reply}
    (h : Idle preferences c) (serves : ServesAll c requests replies after) :
    Idle preferences after := by
  induction serves with
  | nil => exact h
  | cons served _ ih => exact ih (h.serves served)

end Indexed

theorem serveAll_replicate (n : Nat) (lx : Lexer) :
    lx.serveAll (List.replicate n .next) = lx.calls n := by
  induction n generalizing lx with
  | zero => rfl
  | succ n ih => exact ih lx.next.lexer

/-- Over any run of calls every change of mode has the initial mode on one side
and is counted, so the count is even in the initial mode and nowhere else.
Between two calls no comment is open.  A token leaves the lexer in the initial
mode; an error leaves it elsewhere just when there is no reset, the fault is one
that stays open and the source was not at its end.  Traced into a logger that
keeps every event, the changes are told one by one and lead from the initial mode
to the present one without a gap.

The lexer by indices, which keeps its mode, its buffer and its delimiter apart,
does the same over any requests, with nothing left in the buffer between two of
them.  Where no operation of it traps it is in the same mode after as many
changes. -/
theorem mode_machine (source : List UInt8) (preferences : LexicalPreferences)
    (service : PatternService) (n : Nat) :
    let run := new source preferences service
    let lx := run.calls n
    let start := Indexed.start source preferences service
    let calls := List.replicate n Request.next
    (∀ passed, Relation.ReflTransGen GoesOn lx passed →
      let after := passed.step.lexer
      (after.mode.name ≠ passed.mode.name → Xor (passed.mode = .initial) (after.mode = .initial)) ∧
      after.metrics.transitions =
        passed.metrics.transitions + if after.mode.name = passed.mode.name then 0 else 1) ∧
    (Even lx.metrics.transitions ↔ lx.mode = .initial) ∧
    (∀ opening, lx.mode ≠ .comment opening) ∧
    (∀ t, lx.next.result = .ok t → lx.next.lexer.mode = .initial) ∧
    (∀ e, lx.next.result = .error e → ∃ raised after reports,
      Relation.ReflTransGen GoesOn lx raised ∧ raised.step = .answer after (.error e) reports ∧
      (lx.next.lexer.mode ≠ .initial ↔
        preferences.resetModeOnError = false ∧ e.fault.staysOpen = true ∧
          ¬ Piece.AtEnd raised.rest)) ∧
    (preferences.resetModeOnError = true → lx.mode = .initial) ∧
    (preferences.traceModes = true →
      let log := Log.deliver (some Log.keepAll)
      let told := (Logged.calls log n { lexer := run, written := [] }).written.filter
        Log.Event.tellsMode
      Log.ModePath Mode.initial.name told lx.mode.name ∧
        told.length = lx.metrics.transitions) ∧
    (∀ requests replies c, Indexed.ServesAll start requests replies c →
      Indexed.Idle preferences c ∧
      (∀ passed, Relation.ReflTransGen Indexed.Goes c passed → ∀ step,
        passed.step = .ok step → Indexed.Counted passed step.lexer) ∧
      ∀ result after, Indexed.Answers c result after → ∃ raised,
        Relation.ReflTransGen Indexed.Goes c raised ∧ raised.step = .ok (.answer after result) ∧
          Indexed.Answered preferences raised result after) ∧
    (source.length < UInt32.size - 1 → ∃ c,
      Indexed.ServesAll start calls (run.replies calls) c ∧ c.mode = lx.mode.kind ∧
        c.transitions = lx.metrics.transitions) := by
  intro run lx start calls
  have accounted := accounted_calls source preferences service n
  have settled : Settled lx := settled_calls source preferences service n
  have hpreferences : lx.preferences = preferences := preferences_calls n run
  have same := Logged.lexer_calls (Log.deliver (some Log.keepAll)) n
    { lexer := run, written := [] }
  refine ⟨fun passed _ => (modeStep_step passed).counted, ?_, settled.ne_comment,
    fun t => mode_of_token, fun e he => ?_, fun reset => ?_, ?_,
    fun requests replies c serves => ?_, fun small => ?_⟩
  · have even_iff := accounted.even_iff
    rw [same] at even_iff
    exact even_iff
  · rw [← hpreferences]
    exact mode_of_error he
  · exact settled.initial_of_reset (hpreferences ▸ reset)
  · intro traced log told
    have path := accounted.path
    have length_eq := accounted.length_eq
    rw [same] at path length_eq
    exact ⟨path (hpreferences ▸ traced), length_eq (hpreferences ▸ traced)⟩
  · have idle := (Indexed.idle_start source preferences service).servesAll serves
    exact ⟨idle, fun passed _ step hstep => (Indexed.exit_step hstep).counted,
      fun result after answers => (idle.sound.answered answers).2⟩
  · obtain ⟨delimiter, served⟩ :=
      (Stands.new small preferences service).servesAll .start calls
    rw [serveAll_replicate] at served
    exact ⟨_, served, rfl, rfl⟩

/-- A string stuck open behind its first line, with every change traced. -/
theorem mode_machine_stuck :
    let source := Ascii.bytes "\"a\nb\" c"
    let stuck := { LexicalPreferences.builtin with resetModeOnError := false, traceModes := true }
    let log := Log.deliver (some Log.keepAll)
    let lx := (new source stuck Pattern.parse).calls 1
    let told := (Logged.calls log 1 { lexer := new source stuck Pattern.parse, written := [] })
      |>.written.filter Log.Event.tellsMode
    stuck.traceModes = true ∧ lx.mode = .quoted .string .start [] ∧
      lx.metrics.transitions = 1 ∧ ¬ Even lx.metrics.transitions ∧
      (∃ t, lx.next.result = .ok t) ∧ lx.next.lexer.mode = .initial ∧
      Log.ModePath Mode.initial.name told "InQuotedString" ∧ told.length = 1 ∧
      ∃ replies c, Indexed.ServesAll (Indexed.start source stuck Pattern.parse) [.next] replies c ∧
        c.mode = .quoted .string ∧ c.buffer = [] ∧ c.transitions = 1 := by
  intro source stuck log lx told
  obtain ⟨-, even_iff, -, token, -, -, path, idle, exists_indexed⟩ :=
    mode_machine source stuck Pattern.parse 1
  have hmode : lx.mode = .quoted .string .start [] := by decide +kernel
  have count : lx.metrics.transitions = 1 := by decide +kernel
  have answer : lx.next.result.isOk = true := by decide +kernel
  have traced : stuck.traceModes = true := rfl
  have small : source.length < UInt32.size - 1 := by decide
  obtain ⟨t, ht⟩ : ∃ t, lx.next.result = .ok t := by
    cases hresult : lx.next.result with
    | ok t => exact ⟨t, rfl⟩
    | error e => rw [hresult] at answer; cases answer
  obtain ⟨told_path, told_length⟩ := path traced
  obtain ⟨c, served, kind, transitions⟩ := exists_indexed small
  rw [show (new source stuck Pattern.parse).calls 1 = lx from rfl, hmode] at told_path kind
  refine ⟨traced, hmode, count, fun even => ?_, ⟨t, ht⟩, token t ht, told_path,
    told_length.trans count, _, c, served, kind, (idle _ _ c served).1.buffer_eq,
    transitions.trans count⟩
  have := even_iff.1 even
  rw [hmode] at this
  cases this

end Lexer
end RuleLex
