import SymbolicRegression.Mutation.Generation

/-!
# Mutating expressions

The random mutation of an expression, node by node:

* a literal may have a bounded number added to it, and an input may change its field;
* a binary node may collapse into one of its children; otherwise it may change its operator, and
  each child is either replaced by a fresh tree or mutated itself;
* a node that did not collapse may in the end be wrapped into a new binary node, whose other
  operand is a fresh tree.
-/
namespace SymbolicRegression.Mutation.Context

variable {σ : Type} [WordSource σ]

/-- Wraps an expression into a new binary node, if that comes up. -/
def grow (c : Context) (e : Expr) : Draw σ Expr := do
  if ← Draw.chance c.parameters.wrap then
    let op ← operator
    let fresh ← c.freshTree
    if ← Draw.chance 0.5 then pure (.combine op e fresh)
    else pure (.combine op fresh e)
  else pure e

/-- The literal of a value, moved if that comes up. -/
def mutateLiteral (c : Context) (value : Float) : Draw σ Expr := do
  if ← Draw.chance c.parameters.change then
    let d ← c.delta
    pure (.literal (value + d))
  else pure (.literal value)

/-- The input of a field, or of another one if that comes up. -/
def mutateInput (c : Context) (name : String) : Draw σ Expr := do
  if ← Draw.chance c.parameters.change then
    let other ← c.inputName
    pure (.input other)
  else pure (.input name)

/-- An operator, or another one if that comes up. -/
def mutateOperator (c : Context) (op : Operator) : Draw σ Operator := do
  if ← Draw.chance c.parameters.changeOperator then operator else pure op

/-- A fresh tree if that comes up, and otherwise what `mutated` draws. -/
def freshOr (c : Context) (mutated : Draw σ Expr) : Draw σ Expr := do
  if ← Draw.chance c.parameters.regenerate then c.freshTree else mutated

/-- A random mutation of an expression. -/
def mutate (c : Context) : Expr → Draw σ Expr
  | .literal value => do
    let e ← c.mutateLiteral value
    c.grow e
  | .input name => do
    let e ← c.mutateInput name
    c.grow e
  | .binary op left right => do
    if ← Draw.chance c.parameters.collapse then
      if ← Draw.chance 0.5 then pure left else pure right
    else
      let op ← c.mutateOperator op
      let left ← c.freshOr (mutate c left)
      let right ← c.freshOr (mutate c right)
      c.grow (.combine op left right)

end SymbolicRegression.Mutation.Context
