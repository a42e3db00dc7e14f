import SymbolicRegression.Dataset.Basic
import SymbolicRegression.Expr.Basic
import SymbolicRegression.Mutation.Parameters
import SymbolicRegression.Random.Draw

/-!
# Fresh trees

Random expressions over the inputs of a dataset. The root stands at depth one; from the greatest
depth of generation on only leaves have any weight. Where the weights of the leaves are so small
that a draw can round up to their sum, binary nodes may still come up below that depth; a further
bound, which no other draw can reach, then ends the growth.
-/
namespace SymbolicRegression.Mutation

/-- What mutation looks at: a dataset and sensible parameters. -/
structure Context where
  dataset : Dataset
  parameters : Parameters
  valid : parameters.validate = .ok ()

namespace Context

/-- The context of a dataset and parameters, if the parameters make sense. -/
def build (dataset : Dataset) (parameters : Parameters) : Except ParameterError Context :=
  match valid : parameters.validate with
  | .ok () => .ok ⟨dataset, parameters, valid⟩
  | .error e => .error e

variable {σ : Type} [WordSource σ]

def operator : Draw σ Operator := do
  let i ← Draw.below 4
  pure (Operator.ofIndex i)

/-- What is added to a literal. -/
def delta (c : Context) : Draw σ Float :=
  Draw.between .included (-c.parameters.maxDelta) c.parameters.maxDelta

def inputName (c : Context) : Draw σ String := do
  let i ← Draw.below c.dataset.inputs.length
  pure (c.dataset.inputs.get i)

/-- The weight of everything that may come up at a depth. -/
def totalWeight (c : Context) (depth : Nat) : Float :=
  if depth < c.parameters.maxDepth.toNat then c.parameters.leafWeight + c.parameters.binaryWeight
  else c.parameters.leafWeight

/-- A fresh tree whose root stands at `depth`, with at most `levels` levels. -/
def tree (c : Context) : (levels depth : Nat) → Draw σ Expr
  | 0, _ => Draw.fail .tooDeep
  | levels + 1, depth => do
    let r ← Draw.between .excluded 0.0 (c.totalWeight depth)
    if r < c.parameters.literalWeight then
      let value ← c.delta
      pure (.literal value)
    else if r < c.parameters.leafWeight then
      let name ← c.inputName
      pure (.input name)
    else
      let op ← operator
      let left ← tree c levels (depth + 1)
      let right ← tree c levels (depth + 1)
      pure (.combine op left right)

/-- How many levels below the greatest depth of generation a tree may grow. -/
def spareLevels : Nat := 65536

def freshTree (c : Context) : Draw σ Expr :=
  c.tree (c.parameters.maxDepth.toNat + spareLevels) 1

end Context
end SymbolicRegression.Mutation
