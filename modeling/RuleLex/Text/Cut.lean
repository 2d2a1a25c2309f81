/-
Texts cut to a number of bytes.

A cut never splits a character: `fitting` is the longest run of characters at
the head of a text whose UTF-8 form stays within the limit.
-/
import RuleLex.Text.Utf8

namespace RuleLex
namespace Text

/-- The number of bytes in the UTF-8 form of some characters. -/
def byteCount : List Char → Nat
  | [] => 0
  | c :: cs => c.utf8Size + byteCount cs

/-- The longest head of the characters that takes at most `limit` bytes. -/
def fitting : Nat → List Char → List Char
  | _, [] => []
  | limit, c :: cs => if c.utf8Size ≤ limit then c :: fitting (limit - c.utf8Size) cs else []

/-- A text that takes at most `limit` bytes as it is; of a longer one the part
that fits, and three dots. -/
def cut (limit : Nat) (s : String) : String :=
  if byteCount s.toList ≤ limit then s
  else String.ofList (fitting limit s.toList ++ ['.', '.', '.'])

theorem byteCount_fitting_le (limit : Nat) (cs : List Char) :
    byteCount (fitting limit cs) ≤ limit := by
  induction cs generalizing limit with
  | nil => simp [fitting, byteCount]
  | cons c cs ih =>
    unfold fitting
    split
    · have h := ih (limit - c.utf8Size)
      simp only [byteCount]
      omega
    · simp [byteCount]

end Text
end RuleLex
