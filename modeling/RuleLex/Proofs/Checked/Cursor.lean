/-
The lexer by indices at the place of a lexer.

`Lexer.indexed` gives up the text that is left, most of the counts and the texts
handed to the service, and keeps the whole source instead.  It takes the mode
apart: what the mode holds goes into the buffer and the delimiter, which is an old
one where nothing is open.  `Placed` says when nothing is lost by that: the text
that is left is the source from the offset on, and the source is short enough for
its lines and columns to fit into a word.

At such a place no operation of the cursor traps.  Each of them comes to what
`consume` comes to.
-/
import RuleLex.Proofs.Checked.Lexer
import RuleLex.Proofs.Lexer.Course
import RuleLex.Proofs.Lexer.Mode

namespace RuleLex

open Checked (ok_bind)

def Mode.kind : Mode → Mode.Kind
  | .initial => .initial
  | .quoted form _ _ => .quoted form
  | .comment _ => .comment

theorem Mode.kind_eq_initial {mode : Mode} : mode.kind = .initial ↔ mode = .initial := by
  cases mode <;> simp [kind]

namespace Lexer

/-- The place of the delimiter that is open, or else an old one. -/
def delimiter (old : Position) (lx : Lexer) : Position := lx.mode.opening?.getD old

/-- The lexer by indices at the same place. -/
def indexed (source : List UInt8) (old : Position) (lx : Lexer) : Indexed where
  source := source
  pos := lx.cursor.offset
  line := lx.cursor.line
  lineStart := lx.cursor.lineStart
  mode := lx.mode.kind
  buffer := lx.mode.gathered
  openDelimiter := lx.delimiter old
  transitions := lx.metrics.transitions
  service := lx.service
  preferences := lx.preferences
  finished := lx.finished

/-- A step of the lexer by indices. -/
def Step.indexed (source : List UInt8) (old : Position) : Step → Indexed.Step
  | .goOn lx _ => .goOn (lx.indexed source old)
  | .answer lx result _ => .answer (lx.indexed source old) result

/-- The lexer is over the source, whose lines and columns fit into a word. -/
structure Placed (source : List UInt8) (lx : Lexer) : Prop where
  small : source.length < UInt32.size - 1
  behind : ∃ before, Behind source lx.service lx.preferences before lx

namespace Placed

variable {source : List UInt8} {lx after : Lexer} {old : Position}

theorem of_consumes {n : Nat} (h : Placed source lx) (hn : Consumes lx n after) :
    Placed source after := by
  obtain ⟨before, hbefore⟩ := h.behind
  refine ⟨h.small, before ++ lx.rest.take n, ?_⟩
  rw [hn.service_eq, hn.preferences_eq]
  exact hbefore.consumes hn

theorem consume (h : Placed source lx) (n : Nat) : Placed source (lx.consume n) :=
  h.of_consumes (consumes_consume lx n)

theorem rest_eq (h : Placed source lx) : lx.rest = source.drop lx.cursor.offset := by
  obtain ⟨before, hbefore⟩ := h.behind
  have offset : lx.cursor.offset = before.length := hbefore.offset_eq
  rw [hbefore.source_eq, offset, List.drop_left]

theorem offset_add (h : Placed source lx) :
    lx.cursor.offset + lx.rest.length = source.length := by
  obtain ⟨before, hbefore⟩ := h.behind
  have offset : lx.cursor.offset = before.length := hbefore.offset_eq
  rw [hbefore.source_eq, offset, List.length_append]

theorem line_lt (h : Placed source lx) : lx.cursor.line < UInt32.size := by
  obtain ⟨before, hbefore⟩ := h.behind
  have small := h.small
  have bound : lx.cursor.line ≤ source.length + 1 := hbefore.on.line_le
  omega

theorem offset_consume (h : Placed source lx) {n : Nat} (hn : n ≤ lx.rest.length) :
    (lx.consume n).cursor.offset = lx.cursor.offset + n := by
  have before := h.offset_add
  have behind := (h.consume n).offset_add
  have left := length_consume lx n
  omega

theorem offset_le (h : Placed source lx) {n : Nat} (hn : Consumes lx n after) :
    lx.cursor.offset ≤ after.cursor.offset := by
  have before := h.offset_add
  have behind := (h.of_consumes hn).offset_add
  have left : after.rest.length = lx.rest.length - n := by rw [hn.rest_eq, List.length_drop]
  omega

/-! ## Looking -/

theorem peekAt_eq (h : Placed source lx) (k : Nat) :
    (lx.indexed source old).peekAt k = lx.rest[k]? := by
  rw [h.rest_eq, List.getElem?_drop]
  rfl

theorem peek_eq (h : Placed source lx) : (lx.indexed source old).peek = lx.rest.head? := by
  rw [List.head?_eq_getElem?, ← h.peekAt_eq]
  rfl

theorem rest_indexed (h : Placed source lx) : (lx.indexed source old).rest = .ok lx.rest := by
  have within : lx.cursor.offset ≤ source.length := by
    have := h.offset_add
    omega
  rw [h.rest_eq]
  exact Checked.sliceFrom_eq within

theorem position_eq (h : Placed source lx) : (lx.indexed source old).position = .ok lx.position := by
  have within := h.offset_add
  have small := h.small
  have left := lx.cursor.lineStart_le
  have column : (lx.cursor.offset - lx.cursor.lineStart) % UInt32.size =
      lx.cursor.offset - lx.cursor.lineStart := Nat.mod_eq_of_lt (by omega)
  unfold Indexed.position
  show (Checked.sub lx.cursor.offset lx.cursor.lineStart >>= _) = _
  rw [Checked.sub_eq left, ok_bind, column, Checked.add32_eq (by omega), ok_bind]
  rfl

theorem spanFrom_eq (h : Placed source lx) {start : Position}
    (hstart : start.offset ≤ lx.cursor.offset) :
    (lx.indexed source old).spanFrom start = .ok { start := start, stop := lx.position } := by
  have forward : start.offset ≤ lx.position.offset := hstart
  rw [Indexed.spanFrom, h.position_eq, ok_bind, Checked.demand_eq forward]
  rfl

theorem textFrom_eq (h : Placed source lx) {n : Nat} (hn : n ≤ lx.rest.length) :
    ((lx.consume n).indexed source old).textFrom lx.cursor.offset = .ok (lx.rest.take n) := by
  have within := h.offset_add
  have stop : ((lx.consume n).indexed source old).pos = lx.cursor.offset + n := h.offset_consume hn
  unfold Indexed.textFrom
  show Checked.slice source _ _ = _
  rw [stop, Checked.slice_eq (by omega) (by omega), Nat.add_sub_cancel_left, h.rest_eq]

/-! ## Moving -/

theorem bump_eq (h : Placed source lx) :
    (lx.indexed source old).bump = .ok ((lx.consume 1).indexed source old) := by
  have line := (h.consume 1).line_lt
  unfold Indexed.bump
  rw [h.peek_eq]
  cases hrest : lx.rest with
  | nil =>
    have stays : (lx.consume 1).cursor = lx.cursor := by
      simp [Lexer.consume, hrest, Cursor.bumpAll]
    simp only [List.head?_nil, Lexer.indexed, stays]
    rfl
  | cons b s =>
    have moved : (lx.consume 1).cursor = lx.cursor.bump b := by
      simp [Lexer.consume, hrest, Cursor.bumpAll]
    rw [moved] at line
    by_cases hb : b = Ascii.newline
    · simp only [Cursor.bump, if_pos hb] at line moved
      simp only [List.head?_cons, if_pos hb]
      show (Checked.add32 lx.cursor.line 1 >>= _) = _
      rw [Checked.add32_eq line, ok_bind]
      simp only [Lexer.indexed, moved]
      rfl
    · simp only [Cursor.bump, if_neg hb] at moved
      simp only [List.head?_cons, if_neg hb]
      simp only [Lexer.indexed, moved]
      rfl

theorem bumpN_eq (h : Placed source lx) (n : Nat) :
    Indexed.bumpN n (lx.indexed source old) = .ok ((lx.consume n).indexed source old) := by
  induction n generalizing lx with
  | zero => rfl
  | succ n ih =>
    rw [Indexed.bumpN, h.bump_eq, ok_bind, ih (h.consume 1), consume_consume, Nat.add_comm]

theorem bumpWhile_eq (h : Placed source lx) (test : UInt8 → Bool) {n : Nat}
    (hn : lx.rest.length ≤ n) :
    Indexed.bumpWhile test n (lx.indexed source old) =
      .ok ((lx.consume (Ascii.runLength test lx.rest)).indexed source old) := by
  induction n generalizing lx with
  | zero =>
    have nil : lx.rest = [] := List.length_eq_zero_iff.1 (by omega)
    rw [nil]
    rfl
  | succ n ih =>
    rw [Indexed.bumpWhile, h.peek_eq]
    cases hrest : lx.rest with
    | nil => rfl
    | cons b s =>
      rw [List.head?_cons, Option.any_some]
      by_cases hb : test b = true
      · have left : (lx.consume 1).rest = s := by simp [Lexer.consume, hrest]
        have shorter : (lx.consume 1).rest.length ≤ n := by
          rw [hrest, List.length_cons] at hn
          rw [left]
          omega
        have run : Ascii.runLength test (b :: s) = 1 + Ascii.runLength test s := by
          simp [Ascii.runLength, hb, Nat.add_comm]
        rw [if_pos hb, h.bump_eq, ok_bind, ih (h.consume 1) shorter, consume_consume, left, run]
      · have run : Ascii.runLength test (b :: s) = 0 := by simp [Ascii.runLength, hb]
        rw [if_neg hb, run]
        rfl

theorem eatWhile_eq (h : Placed source lx) (test : UInt8 → Bool) :
    (lx.indexed source old).eatWhile test =
      .ok (lx.rest.takeWhile test,
        (lx.consume (Ascii.runLength test lx.rest)).indexed source old) := by
  have within := h.offset_add
  have run : ((lx.consume (Ascii.runLength test lx.rest)).indexed source old).textFrom
      lx.cursor.offset = .ok (lx.rest.takeWhile test) := by
    rw [h.textFrom_eq (Ascii.runLength_le_length test lx.rest), Ascii.take_runLength]
  unfold Indexed.eatWhile
  show (Indexed.bumpWhile test (source.length - lx.cursor.offset) _ >>= _) = _
  rw [h.bumpWhile_eq test (by omega), ok_bind]
  show (Indexed.textFrom ((lx.consume _).indexed source old) lx.cursor.offset >>= _) = _
  rw [run]
  rfl

end Placed
end Lexer
end RuleLex
