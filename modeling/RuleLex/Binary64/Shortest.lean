/-
The fewest digits that read back.

A positive number stands for every real that rounds to it.  `shortest` tries
decimal grids from coarse to fine and takes the first one with a point in that
interval; if the value lies between two such points it takes the nearer, and of
two equally near the upper.

`text` writes those digits without an exponent, however large or small the
number is.
-/
import RuleLex.Binary64.Basic

namespace RuleLex
namespace Binary64

/-- The point of the grid of multiples of `10 ^ k` that stands for `x`, counted
in `10 ^ k`, when there is one.

Lengths are counted in quarters of the last binary place, and scaled so that
all of them are naturals.  The ends of the interval belong to it when the
significand is even.  Below a power of two the numbers stand half as far apart,
so the interval is shorter on that side. -/
def onGrid? (x : Binary64) (k : Int) : Option Nat :=
  let m := x.significand
  let unit : Int := x.exponent - 2
  let scale (n : Nat) : Nat := n * Nat.pow 2 unit.toNat * Nat.pow 10 (-k).toNat
  let grid : Nat := Nat.pow 10 k.toNat * Nat.pow 2 (-unit).toNat
  let value := scale (4 * m)
  let low := scale (if m = leadingBit && 1 < x.biased then 4 * m - 1 else 4 * m - 2)
  let high := scale (4 * m + 2)
  let inside (n : Nat) : Bool :=
    if m % 2 = 0 then low ≤ n && n ≤ high else low < n && n < high
  let below := value / grid
  match inside (below * grid), inside ((below + 1) * grid) with
  | true, true => some (if 2 * (value % grid) < grid then below else below + 1)
  | true, false => some below
  | false, true => some (below + 1)
  | false, false => none

/-- An exponent of ten above every grid that can hold a point for `x`. -/
def topGrid (x : Binary64) : Int :=
  (x.exponent + Nat.log2 x.significand + 1) * 30103 / 100000 + 2

/-- The shortest digits of a finite number that is not zero, with the exponent
of ten of the last one.  Twenty-two grids reach seventeen digits from any
start. -/
def shortest (x : Binary64) : Nat × Int :=
  let grids := (List.range 22).map fun (i : Nat) => x.topGrid - i
  (grids.findSome? fun k => (x.onGrid? k).map fun n => (n, k)).getD (0, 0)

/-- Digits times a power of ten, without an exponent. -/
def positional (digits : List Char) (k : Int) : List Char :=
  if 0 ≤ k then digits ++ List.replicate k.toNat '0'
  else
    let places := (-k).toNat
    if places < digits.length then
      digits.take (digits.length - places) ++ '.' :: digits.drop (digits.length - places)
    else '0' :: '.' :: List.replicate (places - digits.length) '0' ++ digits

/-- The magnitude of a finite number in the fewest digits. -/
def magnitude (x : Binary64) : List Char :=
  if x.significand = 0 then ['0']
  else
    let (digits, k) := x.shortest
    positional (toString digits).toList k

/-- A number as a token shows it: no exponent, no point in a whole number. -/
def text (x : Binary64) : String :=
  if x.isNaN then "NaN"
  else
    let shown := if x.isFinite then String.ofList x.magnitude else "inf"
    if x.isNegative then "-" ++ shown else shown

end Binary64
end RuleLex
