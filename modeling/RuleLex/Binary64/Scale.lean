/-
Powers of ten in the arithmetic of the format.

`scale` multiplies or divides a magnitude by a power of ten that is itself a
number of the format.  Every product and quotient is exact up to one rounding,
but the power and the steps are rounded on their own, so the outcome may be a
neighbour of the number that `ofDecimal` finds.
-/
import RuleLex.Binary64.Nearest

namespace RuleLex
namespace Binary64

/-- The magnitude of a finite number as a quotient of naturals. -/
def quotient (x : Binary64) : Nat × Nat :=
  (x.significand * Nat.pow 2 x.exponent.toNat, Nat.pow 2 (-x.exponent).toNat)

/-- The number nearest to `num / den`. -/
def ofRatio (num den : Nat) : Binary64 := withSign false (ratioBits num den)

/-- The product of two magnitudes, rounded. -/
def mul (x y : Binary64) : Binary64 :=
  ofRatio (x.quotient.1 * y.quotient.1) (x.quotient.2 * y.quotient.2)

/-- The quotient of two magnitudes, rounded. -/
def div (x y : Binary64) : Binary64 :=
  ofRatio (x.quotient.1 * y.quotient.2) (x.quotient.2 * y.quotient.1)

/-- The number nearest to a power of ten. -/
def powerOfTen (k : Nat) : Binary64 := ofDecimal false 1 k

/-- The exponent of the greatest power of ten that is finite. -/
def maxPowerOfTen : Nat := 308

/-- A magnitude times `10 ^ k`.  What lies below the least power of ten takes
several quotients. -/
def scale (x : Binary64) (k : Int) : Binary64 :=
  if x.significand = 0 then x
  else if maxPowerOfTen < k then withSign false infinityBits
  else if 0 ≤ k then x.mul (powerOfTen k.toNat)
  else if -maxPowerOfTen ≤ k then x.div (powerOfTen (-k).toNat)
  else (x.div (powerOfTen maxPowerOfTen)).scale (k + maxPowerOfTen)
termination_by (-k).toNat
decreasing_by
  simp only [maxPowerOfTen] at *
  omega

end Binary64
end RuleLex
