/-
Places of one source.

`Position.On source p` says that `p` is where the first `p.offset` bytes of the
source end.  Line and column then follow from the offset: the line counts the
newlines before it, and places of one source are equal, and in order, as their
offsets are.  A source that a machine word can count has lines and columns that
fit into one too.
-/
import RuleLex.Source.Span

namespace RuleLex
namespace Position

/-- Where the first `p.offset` bytes of the source end. -/
structure On (source : List UInt8) (p : Position) : Prop where
  offset_le : p.offset ≤ source.length
  eq_advanceBytes : p = start.advanceBytes (source.take p.offset)

theorem on_append (before after : List UInt8) :
    (start.advanceBytes before).On (before ++ after) := by
  have offset : (start.advanceBytes before).offset = before.length := by
    rw [offset_advanceBytes]
    exact Nat.zero_add _
  constructor
  · rw [offset, List.length_append]
    exact Nat.le_add_right _ _
  · rw [offset, List.take_left]

theorem line_advance (p : Position) (b : UInt8) :
    (p.advance b).line = p.line + if b = Ascii.newline then 1 else 0 := by
  unfold advance
  by_cases hb : b = Ascii.newline
  · rw [if_pos hb, if_pos hb]
  · rw [if_neg hb, if_neg hb]
    rfl

/-- A line is one more for every newline passed. -/
theorem line_advanceBytes (p : Position) (bs : List UInt8) :
    (p.advanceBytes bs).line = p.line + bs.count Ascii.newline := by
  induction bs generalizing p with
  | nil => rfl
  | cons b bs ih =>
    show ((p.advance b).advanceBytes bs).line = _
    rw [ih, line_advance, List.count_cons, Nat.add_assoc, Nat.add_comm (bs.count _)]
    simp only [beq_iff_eq]

theorem column_advance_le (p : Position) (b : UInt8) : (p.advance b).column ≤ p.column + 1 := by
  unfold advance
  split
  · exact Nat.le_add_left 1 p.column
  · exact Nat.le_refl _

theorem column_advanceBytes_le (p : Position) (bs : List UInt8) :
    (p.advanceBytes bs).column ≤ p.column + bs.length := by
  induction bs generalizing p with
  | nil => exact Nat.le_refl _
  | cons b bs ih =>
    have step := column_advance_le p b
    have rest : ((p.advance b).advanceBytes bs).column ≤ (p.advance b).column + bs.length :=
      ih (p.advance b)
    show ((p.advance b).advanceBytes bs).column ≤ _
    rw [List.length_cons]
    omega

/-! ## Places of the same source -/

variable {source : List UInt8} {p q : Position}

theorem On.line_eq (h : p.On source) :
    p.line = 1 + (source.take p.offset).count Ascii.newline := by
  have line := congrArg Position.line h.eq_advanceBytes
  rw [line_advanceBytes] at line
  exact line

theorem On.line_le (h : p.On source) : p.line ≤ source.length + 1 := by
  have newlines : (source.take p.offset).count Ascii.newline ≤ (source.take p.offset).length :=
    List.count_le_length
  have taken := List.length_take_le' p.offset source
  have line := h.line_eq
  omega

theorem On.column_le (h : p.On source) : p.column ≤ source.length + 1 := by
  have column := congrArg Position.column h.eq_advanceBytes
  have bound := column_advanceBytes_le start (source.take p.offset)
  have taken := List.length_take_le' p.offset source
  have first : start.column = 1 := rfl
  omega

/-- On one source the offset decides line and column. -/
theorem On.eq_iff (hp : p.On source) (hq : q.On source) : p = q ↔ p.offset = q.offset := by
  refine ⟨congrArg Position.offset, fun h => ?_⟩
  rw [hp.eq_advanceBytes, hq.eq_advanceBytes, h]

/-- On one source the order of places is that of their offsets. -/
theorem On.compare_eq (hp : p.On source) (hq : q.On source) :
    p.compare q = Ord.compare p.offset q.offset := by
  unfold compare
  cases h : Ord.compare p.offset q.offset with
  | lt => rfl
  | gt => rfl
  | eq =>
    have same : p = q := (hp.eq_iff hq).2 (Nat.compare_eq_eq.1 h)
    rw [same, Nat.compare_eq_eq.2 rfl, Nat.compare_eq_eq.2 rfl]
    rfl

end Position

/-- Both ends are places of the source. -/
structure Span.On (source : List UInt8) (s : Span) : Prop where
  start : s.start.On source
  stop : s.stop.On source

end RuleLex
