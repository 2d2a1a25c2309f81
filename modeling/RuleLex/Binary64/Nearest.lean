/-
The number nearest to a decimal.

`ofRatio` rounds an exact quotient of naturals.  It picks the binary exponent
at which the quotient has fifty-three bits, or the least exponent there is, and
rounds there once, a half going to the even neighbour.  The patterns of the
format are ordered as the numbers are, so adding the rounded integer to the
exponent field also covers the carry into the next exponent, the subnormal
numbers and the overflow to infinity.
-/
import RuleLex.Ascii
import RuleLex.Binary64.Basic

namespace RuleLex
namespace Binary64

/-- The integer nearest to `num / den`, of two equally near the even one. -/
def roundHalfEven (num den : Nat) : Nat :=
  let q := num / den
  let r := num % den
  if den < 2 * r || (2 * r == den && q % 2 == 1) then q + 1 else q

/-- `num / den / 2 ^ e` as a quotient of naturals. -/
def scaled (num den : Nat) (e : Int) : Nat × Nat :=
  (num * Nat.pow 2 (-e).toNat, den * Nat.pow 2 e.toNat)

/-- The pattern of the number nearest to `num / den`. -/
def ratioBits (num den : Nat) : Nat :=
  if num = 0 then 0
  else
    let estimate : Int := (Nat.log2 num : Int) - Nat.log2 den - 53
    let (n, d) := scaled num den estimate
    let exact := if n / d < 2 * leadingBit then estimate else estimate + 1
    let e := max exact (-1074)
    let (n, d) := scaled num den e
    min ((e + 1074).toNat * leadingBit + roundHalfEven n d) infinityBits

/-- The number nearest to `digits * 10 ^ exponent`, with a sign. -/
def ofDecimal (negative : Bool) (digits : Nat) (exponent : Int) : Binary64 :=
  let size : Int := (Nat.log2 digits : Int) / 4 + exponent
  withSign negative <|
    if digits = 0 || exponent + Nat.log2 digits < -400 then 0
    else if 400 < size then infinityBits
    else ratioBits (digits * Nat.pow 10 exponent.toNat) (Nat.pow 10 (-exponent).toNat)

/-- The number nearest to the decimal with the given digits before and after
its point. -/
def ofPointed (whole fractional : List UInt8) : Binary64 :=
  ofDecimal false (Ascii.numeral 10 (whole ++ fractional)) (-(fractional.length : Int))

/-- The number nearest to an integer. -/
def ofInt (n : Int) : Binary64 := ofDecimal (n < 0) n.natAbs 0

end Binary64
end RuleLex
