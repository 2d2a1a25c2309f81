/-
Floating point numbers of 64 bits.

A number is its bit pattern: one sign bit, eleven bits of exponent, fifty-two
bits of fraction.  Everything done with such numbers is reading decimals
(`RuleLex.Binary64.Nearest`, `RuleLex.Binary64.Scale`) and writing them
(`RuleLex.Binary64.Shortest`), in exact arithmetic on naturals over the two
parts given here.
-/

namespace RuleLex

/-- A number in the 64-bit binary interchange format. -/
structure Binary64 where
  bits : UInt64
deriving DecidableEq, Repr, Inhabited

namespace Binary64

/-- The value of the sign bit in a pattern. -/
def signBit : Nat := 0x8000000000000000

/-- The value of the lowest exponent bit in a pattern, which is also that of the
leading bit of a significand. -/
def leadingBit : Nat := 0x10000000000000

def isNegative (x : Binary64) : Bool := signBit ≤ x.bits.toNat

/-- The eleven exponent bits. -/
def biased (x : Binary64) : Nat := x.bits.toNat / leadingBit % 2048

/-- The fifty-two fraction bits. -/
def fraction (x : Binary64) : Nat := x.bits.toNat % leadingBit

/-- The magnitude is a finite number. -/
def isFinite (x : Binary64) : Bool := x.biased < 2047

def isNaN (x : Binary64) : Bool := x.biased = 2047 && x.fraction ≠ 0

/-- The integer part of the magnitude `significand * 2 ^ exponent`. -/
def significand (x : Binary64) : Nat :=
  if x.biased = 0 then x.fraction else leadingBit + x.fraction

/-- The exponent of the magnitude `significand * 2 ^ exponent`. -/
def exponent (x : Binary64) : Int :=
  if x.biased = 0 then -1074 else (x.biased : Int) - 1075

/-- The pattern of the positive infinity. -/
def infinityBits : Nat := 2047 * leadingBit

/-- The number with a sign and the pattern of its magnitude. -/
def withSign (negative : Bool) (magnitude : Nat) : Binary64 :=
  { bits := ((if negative then signBit else 0) + magnitude).toUInt64 }

end Binary64
end RuleLex
