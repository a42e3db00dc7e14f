import SymbolicRegression.Formula.Basic
import SymbolicRegression.Search.Climb

/-!
# Reports

The status line of a search, and the report on a formula with its predictions on every record.
-/
namespace SymbolicRegression

/-- The digits of a whole number. -/
def natText (n : Nat) : String := String.ofList (Nat.toDigits 10 n)

/-- The line that tells where a search stands. -/
def Search.Status.line (s : Search.Status) : String :=
  "Generation: " ++ natText s.generation ++ "  Successes: " ++ natText s.successes ++
    "  Fitness: " ++ Decimal.plain s.fitness ++ "  Size: " ++ natText s.size

namespace Formula

/-- The line on one record: its position, the prediction, the actual value and the error. -/
def residualLine (position : Nat) (r : Residual) : String :=
  let digits := Nat.toDigits 10 position
  "  " ++ String.ofList (List.replicate (3 - digits.length) ' ' ++ digits) ++ ": predicted " ++
    Decimal.plain r.predicted ++ ", actual " ++ Decimal.plain r.actual ++ ", error " ++
    Decimal.plain r.error ++ "\n"

/-- The lines on records, the first of which has the given position. -/
def residualLines : Nat → List Residual → String
  | _, [] => ""
  | position, r :: rest => residualLine position r ++ residualLines (position + 1) rest

/-- What is said about the records: a line for each, or why there is no prediction. -/
def recordsReport (f : Formula) (d : Dataset) : String :=
  match f.root.residuals d with
  | .ok residuals => "Records (" ++ d.target ++ "):\n" ++ residualLines 0 residuals
  | .error e => "Evaluation failed: " ++ e.message ++ " (scored as the worst fitness)\n"

def report (f : Formula) (d : Dataset) : String :=
  "Formula: " ++ f.render ++ "\n" ++
  "Size: " ++ natText f.size ++ "\n" ++
  "Depth: " ++ natText f.root.depth ++ "\n" ++
  "Fitness: " ++ Decimal.plain (f.fitness d) ++ "\n" ++
  f.recordsReport d

end Formula
end SymbolicRegression
