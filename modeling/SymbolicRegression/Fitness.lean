import SymbolicRegression.Dataset.Basic
import SymbolicRegression.Expr.Evaluation

/-!
# Fitness

The fitness of an expression on a dataset is the sum of the absolute errors of its predictions, so
lower is better and zero is a perfect fit. An expression without a value on some record, or whose
errors do not have a finite sum, has the worst fitness of all.
-/
namespace SymbolicRegression

/-- The fitness of an expression that cannot be scored: the largest finite number. -/
def worstFitness : Float := 1.7976931348623157e308

structure Residual where
  predicted : Float
  actual : Float
  error : Float
deriving DecidableEq

namespace Expr

/-- The prediction of an expression on one record with the given target field. -/
def residual (target : String) (e : Expr) (r : Record) : Except EvaluationError Residual := do
  let predicted ← e.evaluate r
  let actual := r.get target
  pure ⟨predicted, actual, (predicted - actual).abs⟩

/-- The predictions of an expression on all records, in their order. -/
def residuals (e : Expr) (d : Dataset) : Except EvaluationError (List Residual) :=
  d.records.mapM (e.residual d.target)

/-- Adds the errors on the remaining records to a sum. -/
def totalError (target : String) (e : Expr) : Float → List Record → Except EvaluationError Float
  | total, [] => .ok total
  | total, r :: rest => do
    let predicted ← e.evaluate r
    totalError target e (total + (predicted - r.get target).abs) rest

/-- The fitness of an expression, or why it has none. -/
def score (e : Expr) (d : Dataset) : Except EvaluationError Float := do
  let total ← totalError d.target e 0.0 d.records
  if total.isFinite then .ok total else .error .errorOverflow

def fitness (e : Expr) (d : Dataset) : Float :=
  match e.score d with
  | .ok total => total
  | .error _ => worstFitness

end Expr
end SymbolicRegression
