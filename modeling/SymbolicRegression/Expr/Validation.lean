import SymbolicRegression.Dataset.Basic
import SymbolicRegression.Expr.Basic

/-!
# Expressions that fit a dataset

An expression fits a dataset if all the fields it refers to are inputs. The first leaf from the
left that is none gives the reason why it does not.
-/
namespace SymbolicRegression

/-- Why an expression does not fit a dataset. -/
inductive Misfit where
  | targetField (name : String)
  | unknownField (name : String)
deriving DecidableEq

namespace Misfit

def message : Misfit → String
  | targetField name => "expression references target field `" ++ name ++ "`"
  | unknownField name => "expression references unknown field `" ++ name ++ "`"

end Misfit

namespace Expr

/-- Checks that every field an expression refers to is an input of the dataset. -/
def validate (d : Dataset) : Expr → Except Misfit Unit
  | literal _ => .ok ()
  | input name =>
    if name = d.target then .error (.targetField name)
    else if d.isInput name then .ok ()
    else .error (.unknownField name)
  | binary _ left right => do
    validate d left
    validate d right

end Expr
end SymbolicRegression
