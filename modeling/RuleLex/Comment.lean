/-
Block comments.

A block comment ends at the first `*/` after its opener, whatever stands in
between; comments do not nest.  Both the lexer and the byte pattern reader find
the end with `closingLength?`.
-/
import RuleLex.Ascii

namespace RuleLex
namespace Comment

/-- `closingLength?` with the number of bytes already passed. -/
def closingLengthFrom (passed : Nat) : List UInt8 → Option Nat
  | [] => none
  | b :: rest =>
    if b = Ascii.star ∧ rest.head? = some Ascii.slash then some (passed + 2)
    else closingLengthFrom (passed + 1) rest

/-- The number of bytes up to and including the first `*/`. -/
def closingLength? (s : List UInt8) : Option Nat := closingLengthFrom 0 s

theorem closingLengthFrom_bounds {passed n : Nat} {s : List UInt8}
    (h : closingLengthFrom passed s = some n) : passed + 2 ≤ n ∧ n ≤ passed + s.length := by
  induction s generalizing passed with
  | nil => cases h
  | cons b rest ih =>
    unfold closingLengthFrom at h
    split at h
    · rename_i closes
      cases h
      obtain ⟨_, hrest⟩ := closes
      cases rest with
      | nil => cases hrest
      | cons c tail => simp only [List.length_cons]; omega
    · have := ih h
      simp only [List.length_cons]
      omega

/-- The closing takes two bytes and stays within the text. -/
theorem closingLength_bounds {n : Nat} {s : List UInt8} (h : closingLength? s = some n) :
    2 ≤ n ∧ n ≤ s.length := by
  have := closingLengthFrom_bounds h
  omega

end Comment
end RuleLex
