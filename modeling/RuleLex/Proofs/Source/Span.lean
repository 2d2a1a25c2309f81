/-
Spans of one source.

`Span.Within source s` says that a span runs forward between two places of a source, and
`Span.Covers s t` that no byte of `t` lies outside `s`.  The spans of a source are ordered
by what they cover, and `join` is the least span that covers two of them: `Span.Of source`
is a semilattice.

Where two spans begin or end at the same offset, `join` keeps the end of the first.  That
it is the end of the second as well, because an offset has only one place on a source, is
what makes the order antisymmetric; the laws of `join` follow from it.
-/
import Mathlib.Order.Lattice
import RuleLex.Proofs.Source.Position

namespace RuleLex

/-- A place of a source is where some head of it ends. -/
theorem Position.on_iff {source : List UInt8} {p : Position} :
    p.On source ↔ ∃ before, before <+: source ∧ p = start.advanceBytes before := by
  constructor
  · intro h
    exact ⟨_, List.take_prefix _ _, h.eq_advanceBytes⟩
  · rintro ⟨before, ⟨after, rfl⟩, rfl⟩
    exact on_append before after

namespace Span

/-- The span runs forward from one place of the source to another. -/
structure Within (source : List UInt8) (s : Span) : Prop extends Span.On source s where
  forward : s.start.offset ≤ s.stop.offset

/-- No byte of the second span lies outside the first. -/
structure Covers (s t : Span) : Prop where
  start : s.start.offset ≤ t.start.offset
  stop : t.stop.offset ≤ s.stop.offset

variable {source : List UInt8} {a b c : Span}

theorem Covers.refl (s : Span) : s.Covers s := ⟨Nat.le_refl _, Nat.le_refl _⟩

theorem Covers.trans (hab : a.Covers b) (hbc : b.Covers c) : a.Covers c :=
  ⟨Nat.le_trans hab.start hbc.start, Nat.le_trans hbc.stop hab.stop⟩

/-- Spans of one source that cover each other are the same. -/
theorem Covers.antisymm (ha : a.On source) (hb : b.On source) (hab : a.Covers b)
    (hba : b.Covers a) : a = b := by
  have start : a.start = b.start :=
    (ha.start.eq_iff hb.start).2 (Nat.le_antisymm hab.start hba.start)
  have stop : a.stop = b.stop := (ha.stop.eq_iff hb.stop).2 (Nat.le_antisymm hba.stop hab.stop)
  cases a
  cases b
  cases start
  cases stop
  rfl

/-! ## The span that covers two -/

theorem start_join (a b : Span) : (a.join b).start = a.start ∨ (a.join b).start = b.start :=
  ite_eq_or_eq _ _ _

theorem stop_join (a b : Span) : (a.join b).stop = a.stop ∨ (a.join b).stop = b.stop :=
  ite_eq_or_eq _ _ _

theorem offset_start_join (a b : Span) :
    (a.join b).start.offset = min a.start.offset b.start.offset := by
  show (if a.start.offset ≤ b.start.offset then a.start else b.start).offset = _
  split <;> omega

theorem offset_stop_join (a b : Span) :
    (a.join b).stop.offset = max a.stop.offset b.stop.offset := by
  show (if b.stop.offset ≤ a.stop.offset then a.stop else b.stop).offset = _
  split <;> omega

theorem Within.join (ha : a.Within source) (hb : b.Within source) :
    (a.join b).Within source := by
  refine ⟨⟨?_, ?_⟩, ?_⟩
  · rcases start_join a b with h | h
    · exact h ▸ ha.start
    · exact h ▸ hb.start
  · rcases stop_join a b with h | h
    · exact h ▸ ha.stop
    · exact h ▸ hb.stop
  · have := ha.forward
    rw [offset_start_join, offset_stop_join]
    omega

theorem covers_join_left (a b : Span) : (a.join b).Covers a :=
  ⟨offset_start_join a b ▸ Nat.min_le_left _ _, offset_stop_join a b ▸ Nat.le_max_left _ _⟩

theorem covers_join_right (a b : Span) : (a.join b).Covers b :=
  ⟨offset_start_join a b ▸ Nat.min_le_right _ _, offset_stop_join a b ▸ Nat.le_max_right _ _⟩

theorem Covers.join (ha : c.Covers a) (hb : c.Covers b) : c.Covers (a.join b) := by
  constructor
  · rw [offset_start_join]
    exact Nat.le_min.2 ⟨ha.start, hb.start⟩
  · rw [offset_stop_join]
    exact Nat.max_le.2 ⟨ha.stop, hb.stop⟩

/-! ## The semilattice of a source -/

/-- The spans of a source. -/
def Of (source : List UInt8) : Type := { s : Span // s.Within source }

/-- A span of the source as one. -/
def Within.of (h : a.Within source) : Of source := ⟨a, h⟩

instance (source : List UInt8) : PartialOrder (Of source) where
  le s t := t.1.Covers s.1
  le_refl s := Covers.refl s.1
  le_trans _ _ _ hst htu := htu.trans hst
  le_antisymm s t hst hts := Subtype.ext (hts.antisymm s.2.toOn t.2.toOn hst)

instance (source : List UInt8) : SemilatticeSup (Of source) where
  sup s t := ⟨s.1.join t.1, s.2.join t.2⟩
  le_sup_left s t := covers_join_left s.1 t.1
  le_sup_right s t := covers_join_right s.1 t.1
  sup_le _ _ _ hs ht := hs.join ht

theorem join_comm (ha : a.Within source) (hb : b.Within source) : a.join b = b.join a :=
  congrArg Subtype.val (sup_comm ha.of hb.of)

theorem join_assoc (ha : a.Within source) (hb : b.Within source) (hc : c.Within source) :
    (a.join b).join c = a.join (b.join c) :=
  congrArg Subtype.val (sup_assoc ha.of hb.of hc.of)

theorem join_self (ha : a.Within source) : a.join a = a :=
  congrArg Subtype.val (sup_idem ha.of)

/-- A span and a later one are covered from the start of the first to the end of the
second. -/
theorem join_of_le (ha : a.On source) (hb : b.On source)
    (start : a.start.offset ≤ b.start.offset) (stop : a.stop.offset ≤ b.stop.offset) :
    a.join b = { start := a.start, stop := b.stop } := by
  have last : (if b.stop.offset ≤ a.stop.offset then a.stop else b.stop) = b.stop := by
    split
    · exact (ha.stop.eq_iff hb.stop).2 (Nat.le_antisymm stop ‹_›)
    · rfl
  rw [join, if_pos start, last]

/-! ## The text of a span -/

/-- A span of a source cuts its text out of the source. -/
theorem Within.exists_text (h : a.Within source) :
    ∃ before text after, source = before ++ text ++ after ∧ before.length = a.start.offset ∧
      (before ++ text).length = a.stop.offset ∧ a.slice? source = some text := by
  have forward := h.forward
  have inside := h.stop.offset_le
  have cut : source.take a.start.offset ++ (source.drop a.start.offset).take a.length =
      source.take a.stop.offset := by
    rw [length, ← List.take_add, Nat.add_sub_cancel' forward]
  refine ⟨source.take a.start.offset, (source.drop a.start.offset).take a.length,
    source.drop a.stop.offset, ?_, ?_, ?_, if_pos ⟨forward, inside⟩⟩
  · rw [cut, List.take_append_drop]
  · exact List.length_take_of_le (Nat.le_trans forward inside)
  · rw [cut]
    exact List.length_take_of_le inside

end Span
end RuleLex
