/-!
# Decimal numbers

A decimal number is a whole coefficient scaled by a power of ten. This module says which binary64
number a decimal denotes, and which decimal a finite binary64 magnitude is, exactly.
-/
namespace SymbolicRegression

/-- The number `coefficient * 10 ^ exponent`. -/
structure Decimal where
  coefficient : Nat
  exponent : Int
deriving DecidableEq

namespace Decimal

/-- The binary64 number nearest to a decimal, where a tie goes to the even significand and a
magnitude beyond the largest finite number becomes infinity. -/
def toFloat (d : Decimal) : Float :=
  .ofModel (Float.Model.ofScientific d.coefficient d.exponent)

/-- The decimal equal to `m * 2 ^ q`: a negative power of two is a power of five over a power of
ten, so every finite binary number has a finite decimal expansion. -/
def ofBinary (m : Nat) (q : Int) : Decimal :=
  if q < 0 then ⟨m * Nat.pow 5 q.natAbs, q⟩ else ⟨m * Nat.pow 2 q.natAbs, 0⟩

/-- The decimal digits of the coefficient, most significant first. -/
def digits (d : Decimal) : List Char := Nat.toDigits 10 d.coefficient

/-- The power of ten of the first digit. -/
def magnitude (d : Decimal) : Int := d.exponent + d.digits.length - 1

/-- Moves factors of ten from the coefficient to the exponent, at most `fuel` of them. -/
def trimmed : Nat → Decimal → Decimal
  | 0, d => d
  | fuel + 1, d =>
    if d.coefficient ≠ 0 ∧ d.coefficient % 10 = 0 then
      trimmed fuel ⟨d.coefficient / 10, d.exponent + 1⟩
    else d

end Decimal
end SymbolicRegression
