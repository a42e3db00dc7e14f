import SymbolicRegression.Decimal.Basic

/-!
# Shortest decimal text of a binary64 number

A finite magnitude is written with the fewest significant digits that read back as the same
number. Of the decimals with that many digits only the two next to the exact value can be meant:
the exact expansion cut off after `n` digits, and that cut raised by one in its last place. The
nearer of those that read back is taken; only an exact tie is left to the style of writing.
-/
namespace SymbolicRegression.Decimal

/-- Where an exact tie between two equally short decimals goes. -/
inductive Tie where
  /-- To the larger magnitude. -/
  | up
  /-- To the even last digit. -/
  | even
deriving DecidableEq

/-- The exact value cut off so that `dropped` of its digits are lost. -/
def cut (d : Decimal) (dropped : Nat) : Decimal :=
  ⟨d.coefficient / Nat.pow 10 dropped, d.exponent + dropped⟩

/-- One more unit in the last place. -/
def raised (d : Decimal) : Decimal := ⟨d.coefficient + 1, d.exponent⟩

/-- Whether rounding the exact value to a cut that lost `dropped` digits goes up. -/
def roundsUp (tie : Tie) (d : Decimal) (dropped : Nat) : Bool :=
  let unit := Nat.pow 10 dropped
  let rest := d.coefficient % unit
  match compare (2 * rest) unit with
  | .lt => false
  | .gt => true
  | .eq =>
    match tie with
    | .up => true
    | .even => d.coefficient / unit % 2 = 1

/-- The decimal nearest to `d` among the two neighbours after a cut that read back as `x`. -/
def neighbour? (tie : Tie) (x : Float) (d : Decimal) (dropped : Nat) : Option Decimal :=
  let below := d.cut dropped
  let above := below.raised
  if below.toFloat.toBits = x.toBits then
    if above.toFloat.toBits = x.toBits ∧ roundsUp tie d dropped = true then some above
    else some below
  else if above.toFloat.toBits = x.toBits then some above
  else none

/-- The first cut with a neighbour that reads back, trying to lose `dropped` digits, then fewer.
Losing none leaves the exact value. -/
def search (tie : Tie) (x : Float) (d : Decimal) : Nat → Decimal
  | 0 => d
  | dropped + 1 =>
    match neighbour? tie x d (dropped + 1) with
    | some found => found
    | none => search tie x d dropped

/-- The shortest decimal that reads back as `x`, where `exact` is the value of `x`. -/
def shortest (tie : Tie) (x : Float) (exact : Decimal) : Decimal :=
  let found := search tie x exact (exact.digits.length - 1)
  found.trimmed found.digits.length

end SymbolicRegression.Decimal
