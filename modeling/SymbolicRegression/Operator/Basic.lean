/-!
# Arithmetic operators

The four operations of an expression. Division never divides by a number of magnitude below one:
such a divisor is moved to one or minus one first, so a quotient is never larger than its dividend.
-/
namespace SymbolicRegression

/-- A binary operation of an expression. -/
inductive Operator where
  | add
  | subtract
  | multiply
  | divide
deriving DecidableEq

/-- Why an expression has no value, or no score. -/
inductive EvaluationError where
  | nonFiniteLiteral
  /-- The operator was applied to finite numbers and its result is not finite. -/
  | overflow (op : Operator)
  /-- The errors of the predictions do not have a finite sum. -/
  | errorOverflow
deriving DecidableEq

/-- Moves a number of magnitude below one to one or minus one, keeping its sign; both zeros become
one. -/
def awayFromZero (x : Float) : Float :=
  if x.abs < 1.0 then
    if x < 0.0 then -1.0 else 1.0
  else x

namespace Operator

def all : List Operator := [add, subtract, multiply, divide]

/-- The position of an operator among `all`. -/
def index : Operator → Nat
  | add => 0
  | subtract => 1
  | multiply => 2
  | divide => 3

/-- The operator at a position. -/
def ofIndex : Fin 4 → Operator
  | 0 => add
  | 1 => subtract
  | 2 => multiply
  | 3 => divide

def symbol : Operator → Char
  | add => '+'
  | subtract => '-'
  | multiply => '*'
  | divide => '/'

/-- The operators whose literal operands are kept away from magnitudes below one. -/
def isScaling : Operator → Bool
  | add | subtract => false
  | multiply | divide => true

/-- The rounded result, which may be infinite or not a number. -/
def compute : Operator → Float → Float → Float
  | add, a, b => a + b
  | subtract, a, b => a - b
  | multiply, a, b => a * b
  | divide, a, b => a / awayFromZero b

/-- Applies an operator; only a finite result counts. -/
def apply (op : Operator) (a b : Float) : Except EvaluationError Float :=
  let value := op.compute a b
  if value.isFinite then .ok value else .error (.overflow op)

end Operator

namespace EvaluationError

def message : EvaluationError → String
  | nonFiniteLiteral => "literal is not a finite number"
  | overflow op => "`" ++ String.singleton op.symbol ++ "` produced a non-finite value"
  | errorOverflow => "summed error is not a finite number"

end EvaluationError
end SymbolicRegression
