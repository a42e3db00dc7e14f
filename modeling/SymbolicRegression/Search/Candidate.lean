import SymbolicRegression.Formula.Basic

/-!
# Candidates

A formula with its score. Candidates are compared by fitness first, and among equally fit ones the
smaller tree is better.
-/
namespace SymbolicRegression.Search

structure Candidate where
  formula : Formula
  fitness : Float
  size : Nat
deriving DecidableEq

namespace Candidate

/-- Scores a formula on a dataset. -/
def scored (f : Formula) (d : Dataset) : Candidate := ⟨f, f.fitness d, f.size⟩

/-- Whether a candidate replaces another: strictly fitter, or equally fit and strictly smaller. -/
def beats (a b : Candidate) : Bool :=
  a.fitness < b.fitness || (a.fitness == b.fitness && a.size < b.size)

end Candidate
end SymbolicRegression.Search
