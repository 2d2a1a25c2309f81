/-
The text of a block comment.

`IsClosed body` says what stands after the opener of a block comment: the text
ends with `*/` and has no `*/` before its end.  `closingLength?` measures
exactly that text, `closingLength_eq_some_iff`, and finds nothing exactly where there
is no `*/`, `closingLength_eq_none_iff`.
-/
import RuleLex.Comment

namespace RuleLex
namespace Comment

/-- The text from behind the opener of a block comment to the first `*/`. -/
structure IsClosed (body : List UInt8) : Prop where
  closes : ∃ inner, body = inner ++ [Ascii.star, Ascii.slash]
  first : ∀ inner after, body = inner ++ [Ascii.star, Ascii.slash] ++ after → after = []

theorem not_isClosed_nil : ¬ IsClosed [] := by
  intro hs
  obtain ⟨⟨inner, h⟩, -⟩ := hs
  simp at h

/-- The opener's star is not the closer's. -/
theorem isClosed_pair : IsClosed [Ascii.star, Ascii.slash] := by
  refine ⟨⟨[], rfl⟩, fun inner after h => ?_⟩
  have lengths := congrArg List.length h
  simp only [List.length_cons, List.length_nil, List.length_append] at lengths
  exact List.length_eq_zero_iff.1 (by omega)

/-- A byte that does not begin the closer can be put in front. -/
theorem isClosed_cons_of_not_closer {b : UInt8} {s : List UInt8}
    (h : ¬ (b = Ascii.star ∧ s.head? = some Ascii.slash)) :
    IsClosed (b :: s) ↔ IsClosed s := by
  constructor
  · intro closed
    obtain ⟨⟨inner, hinner⟩, first⟩ := closed
    constructor
    · cases inner with
      | nil =>
        obtain ⟨rfl, rfl⟩ := List.cons.inj hinner
        exact absurd ⟨rfl, rfl⟩ h
      | cons c inner => exact ⟨inner, (List.cons.inj hinner).2⟩
    · intro inner after hs
      exact first (b :: inner) after (by rw [hs]; rfl)
  · intro closed
    obtain ⟨⟨inner, hinner⟩, first⟩ := closed
    refine ⟨⟨b :: inner, by rw [hinner]; rfl⟩, fun inner after hs => ?_⟩
    cases inner with
    | nil =>
      obtain ⟨rfl, tail⟩ := List.cons.inj hs
      exact absurd ⟨rfl, by rw [tail]; rfl⟩ h
    | cons c inner => exact first inner after (List.cons.inj hs).2

theorem isClosed_closer_iff {s : List UInt8} :
    IsClosed (Ascii.star :: Ascii.slash :: s) ↔ s = [] := by
  constructor
  · intro h
    exact h.first [] s rfl
  · intro h
    subst h
    exact isClosed_pair

theorem isClosed_cons_of_ne_star {b : UInt8} {s : List UInt8} (h : b ≠ Ascii.star) :
    IsClosed (b :: s) ↔ IsClosed s :=
  isClosed_cons_of_not_closer fun hb => h hb.1

theorem isClosed_star_cons_of_ne_slash {b : UInt8} {s : List UInt8} (h : b ≠ Ascii.slash) :
    IsClosed (Ascii.star :: b :: s) ↔ IsClosed (b :: s) :=
  isClosed_cons_of_not_closer fun hb => h (Option.some.inj hb.2)

theorem not_isClosed_star : ¬ IsClosed [Ascii.star] := by
  rw [isClosed_cons_of_not_closer (by simp)]
  exact not_isClosed_nil

/-! ## Measuring -/

theorem closingLengthFrom_eq (passed : Nat) (s : List UInt8) :
    closingLengthFrom passed s = (closingLength? s).map (passed + ·) := by
  unfold closingLength?
  induction s generalizing passed with
  | nil => rfl
  | cons b rest ih =>
    unfold closingLengthFrom
    split
    · rfl
    · rw [ih (passed + 1), ih (0 + 1), Option.map_map]
      congr 1
      funext n
      simp only [Function.comp_apply]
      omega

theorem closingLength_closer (s : List UInt8) :
    closingLength? (Ascii.star :: Ascii.slash :: s) = some 2 := rfl

theorem closingLength_cons {b : UInt8} {s : List UInt8}
    (h : ¬ (b = Ascii.star ∧ s.head? = some Ascii.slash)) :
    closingLength? (b :: s) = (closingLength? s).map (1 + ·) := by
  rw [← closingLengthFrom_eq]
  simp [closingLength?, closingLengthFrom, h]

/-- The closer begins behind any run of other bytes than stars. -/
theorem closingLength_run (s : List UInt8) :
    closingLength? s =
      (closingLength? (s.drop (Ascii.runLength (· != Ascii.star) s))).map
        (Ascii.runLength (· != Ascii.star) s + ·) := by
  induction s with
  | nil => rfl
  | cons b s ih =>
    by_cases hb : b = Ascii.star
    · have run : Ascii.runLength (· != Ascii.star) (b :: s) = 0 := by
        simp [Ascii.runLength, hb]
      simp [run]
    · have run : Ascii.runLength (· != Ascii.star) (b :: s) =
          Ascii.runLength (· != Ascii.star) s + 1 := by simp [Ascii.runLength, hb]
      rw [closingLength_cons fun closer => hb closer.1, ih, run, List.drop_succ_cons,
        Option.map_map]
      congr 1
      funext n
      simp only [Function.comp_apply]
      omega

/-- A byte that does not begin the closer can be passed together with the run of other
bytes than stars behind it. -/
theorem closingLength_chunk {b : UInt8} {s : List UInt8}
    (h : ¬ (b = Ascii.star ∧ s.head? = some Ascii.slash)) :
    closingLength? (b :: s) =
      (closingLength? (s.drop (Ascii.runLength (· != Ascii.star) s))).map
        (Ascii.runLength (· != Ascii.star) s + 1 + ·) := by
  rw [closingLength_cons h, closingLength_run, Option.map_map]
  congr 1
  funext n
  simp only [Function.comp_apply]
  omega

theorem closingLength_append {body : List UInt8} (h : IsClosed body) (rest : List UInt8) :
    closingLength? (body ++ rest) = some body.length := by
  induction body with
  | nil => exact absurd h not_isClosed_nil
  | cons b s ih =>
    by_cases hb : b = Ascii.star ∧ s.head? = some Ascii.slash
    · obtain ⟨rfl, hs⟩ := hb
      obtain ⟨t, rfl⟩ := List.head?_eq_some_iff.1 hs
      rw [isClosed_closer_iff.1 h]
      rfl
    · have tail : IsClosed s := (isClosed_cons_of_not_closer hb).1 h
      have hb' : ¬ (b = Ascii.star ∧ (s ++ rest).head? = some Ascii.slash) := by
        cases s with
        | nil => exact absurd tail not_isClosed_nil
        | cons c t => simpa using hb
      rw [List.cons_append, closingLength_cons hb', ih tail, List.length_cons]
      simp [Nat.add_comm]

theorem isClosed_of_closingLength {s : List UInt8} {n : Nat} (h : closingLength? s = some n) :
    IsClosed (s.take n) := by
  induction s generalizing n with
  | nil => cases h
  | cons b s ih =>
    by_cases hb : b = Ascii.star ∧ s.head? = some Ascii.slash
    · obtain ⟨rfl, hs⟩ := hb
      obtain ⟨t, rfl⟩ := List.head?_eq_some_iff.1 hs
      rw [closingLength_closer] at h
      cases h
      exact isClosed_pair
    · rw [closingLength_cons hb] at h
      obtain ⟨m, hm, rfl⟩ := Option.map_eq_some_iff.1 h
      have tail := ih hm
      have hb' : ¬ (b = Ascii.star ∧ (s.take m).head? = some Ascii.slash) := by
        have two := (closingLength_bounds hm).1
        cases s with
        | nil => simp
        | cons c t =>
          obtain ⟨k, rfl⟩ : ∃ k, m = k + 1 := ⟨m - 1, by omega⟩
          simpa using hb
      rw [Nat.add_comm, List.take_succ_cons]
      exact (isClosed_cons_of_not_closer hb').2 tail

theorem closingLength_eq_some_iff {s : List UInt8} {n : Nat} :
    closingLength? s = some n ↔
      ∃ body rest, s = body ++ rest ∧ IsClosed body ∧ body.length = n := by
  constructor
  · intro h
    have bounds := closingLength_bounds h
    exact ⟨s.take n, s.drop n, (List.take_append_drop n s).symm, isClosed_of_closingLength h,
      List.length_take_of_le bounds.2⟩
  · intro h
    obtain ⟨body, rest, rfl, closed, rfl⟩ := h
    exact closingLength_append closed rest

theorem closingLength_eq_none_iff {s : List UInt8} :
    closingLength? s = none ↔ ¬ [Ascii.star, Ascii.slash] <:+: s := by
  induction s with
  | nil => simp [closingLength?, closingLengthFrom]
  | cons b s ih =>
    have head : [Ascii.star, Ascii.slash] <+: b :: s ↔
        b = Ascii.star ∧ s.head? = some Ascii.slash := by
      cases s with
      | nil => simp
      | cons c t => simp [eq_comm]
    rw [List.infix_cons_iff, head]
    by_cases hb : b = Ascii.star ∧ s.head? = some Ascii.slash
    · obtain ⟨rfl, hs⟩ := hb
      obtain ⟨t, rfl⟩ := List.head?_eq_some_iff.1 hs
      simp [closingLength_closer]
    · rw [closingLength_cons hb, Option.map_eq_none_iff, ih, or_iff_right hb]

/-- Two closed texts at the head of one text are the same. -/
theorem IsClosed.append_inj {a b s t : List UInt8} (ha : IsClosed a) (hb : IsClosed b)
    (h : a ++ s = b ++ t) : a = b ∧ s = t := by
  have lengths : a.length = b.length := by
    have hlength := closingLength_append ha s
    rw [h, closingLength_append hb t] at hlength
    exact (Option.some.inj hlength).symm
  exact List.append_inj h lengths

end Comment
end RuleLex
