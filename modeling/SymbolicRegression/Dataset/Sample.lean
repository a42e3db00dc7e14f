import SymbolicRegression.Dataset.Basic

/-!
# The built-in dataset

Two records with three inputs, used where no dataset is given.
-/
namespace SymbolicRegression.Dataset

def sampleRecords : List Record :=
  [ .ofList [("first", 1.0), ("second", 500.0), ("third", -12.0), ("target", 17.0)],
    .ofList [("first", 1024.0), ("second", -12.0), ("third", 45.0), ("target", 125.0)] ]

/-- The built-in dataset. -/
def sample : Dataset where
  target := "target"
  records := sampleRecords
  inputs := ["first", "second", "third"]
  records_ne_nil := by decide
  contains_target := by decide +kernel
  finite := by decide +kernel
  inputs_eq := by decide +kernel
  inputs_ne_nil := by decide

end SymbolicRegression.Dataset
