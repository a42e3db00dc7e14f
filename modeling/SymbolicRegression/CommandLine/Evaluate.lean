import SymbolicRegression.CommandLine.Arguments
import SymbolicRegression.CommandLine.Loading
import SymbolicRegression.Report

/-!
# Evaluating a saved formula

The command that reports on a saved formula. A formula that does not fit the dataset is reported on
all the same, with a warning.
-/
namespace SymbolicRegression.CommandLine

variable {m : Type → Type} [Monad m] [Workplace m]

/-- Reports on a saved formula. -/
def evaluate (options : EvaluateOptions) : m (Except Failure Unit) := do
  match ← loadDataset options.dataset with
  | .error f => pure (.error f)
  | .ok d =>
    let loaded : Except Failure FormulaDocument ←
      loadDocument "formula" FormulaDocument.read options.formula
    match loaded with
    | .error f => pure (.error f)
    | .ok file =>
      let formula := file.toFormula
      match formula.validate d with
      | .error e => Workplace.err ("Warning: " ++ e.message ++ "\n")
      | .ok () => pure ()
      Workplace.out (formula.report d)
      pure (.ok ())

end SymbolicRegression.CommandLine
