import SymbolicRegression.Expr.Rendering
import SymbolicRegression.Expr.Validation
import SymbolicRegression.Fitness
import SymbolicRegression.Mutation.Variation

/-!
# Formulas

A formula is what a search looks for: one expression tree as a whole. Unlike the nodes of its tree,
it may be replaced altogether by a mutation.
-/
namespace SymbolicRegression

/-- A candidate of a search. -/
structure Formula where
  root : Expr
deriving DecidableEq

namespace Formula

def size (f : Formula) : Nat := f.root.size

def fitness (f : Formula) (d : Dataset) : Float := f.root.fitness d

def validate (f : Formula) (d : Dataset) : Except Misfit Unit := f.root.validate d

def render (f : Formula) : String := f.root.render

variable {σ : Type} [WordSource σ]

/-- A formula with a fresh tree. -/
def random (c : Mutation.Context) : Draw σ Formula := do
  let root ← c.freshTree
  pure ⟨root⟩

/-- A random mutation of a formula: a fresh tree if that comes up, and otherwise a mutation of
its tree. -/
def mutate (c : Mutation.Context) (f : Formula) : Draw σ Formula := do
  let root ← c.freshOr (c.mutate f.root)
  pure ⟨root⟩

end Formula
end SymbolicRegression
