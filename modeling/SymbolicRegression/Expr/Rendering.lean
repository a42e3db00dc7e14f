import SymbolicRegression.Decimal.Style
import SymbolicRegression.Expr.Basic

/-!
# The text of an expression

Literals are plain numbers, input names stand in braces, and every binary node in parentheses.
-/
namespace SymbolicRegression.Expr

/-- The text of an expression, in front of what follows it. -/
def put : Expr → List Char → List Char
  | literal value, rest => Decimal.Style.plain.chars value ++ rest
  | input name, rest => '\x7b' :: (name.toList ++ '\x7d' :: rest)
  | binary op left right, rest =>
    '(' :: left.put (' ' :: op.symbol :: ' ' :: right.put (')' :: rest))

def render (e : Expr) : String := String.ofList (e.put [])

end SymbolicRegression.Expr
