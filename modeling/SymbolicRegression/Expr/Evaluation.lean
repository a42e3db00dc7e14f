import SymbolicRegression.Expr.Basic
import SymbolicRegression.Record.Basic

/-!
# Evaluating expressions

The value of an expression on a record. Operands are evaluated from left to right, and the first
failure is the failure of the whole.
-/
namespace SymbolicRegression.Expr

/-- The value of an expression on a record. -/
def evaluate (r : Record) : Expr → Except EvaluationError Float
  | literal value => if value.isFinite then .ok value else .error .nonFiniteLiteral
  | input name => .ok (r.get name)
  | binary op left right => do
    let a ← evaluate r left
    let b ← evaluate r right
    op.apply a b

end SymbolicRegression.Expr
