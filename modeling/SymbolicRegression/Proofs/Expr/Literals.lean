import Mathlib.Data.List.Basic
import SymbolicRegression.Expr.Basic

/-!
# The literals of an expression

Which numbers stand at the leaves of an expression, and whether all of them are finite. An
expression without literals has nothing to be moved away from zero, so its nodes are put together
as they are.
-/
namespace SymbolicRegression.Expr

/-- The values of the literals, from the left. -/
def literals : Expr → List Float
  | literal x => [x]
  | input _ => []
  | binary _ left right => left.literals ++ right.literals

def HasFiniteLiterals (e : Expr) : Prop := ∀ x ∈ e.literals, x.isFinite = true

instance (e : Expr) : Decidable e.HasFiniteLiterals :=
  inferInstanceAs (Decidable (∀ x ∈ e.literals, x.isFinite = true))

theorem hasFiniteLiterals_input (name : String) : (input name).HasFiniteLiterals :=
  fun _ hx => absurd hx List.not_mem_nil

theorem hasFiniteLiterals_binary {op : Operator} {left right : Expr} :
    (binary op left right).HasFiniteLiterals ↔
      left.HasFiniteLiterals ∧ right.HasFiniteLiterals := by
  simp [HasFiniteLiterals, literals, or_imp, forall_and]

theorem literalAwayFromZero_of_literals_eq_nil {e : Expr} (h : e.literals = []) :
    e.literalAwayFromZero = e := by
  cases e with
  | literal x => simp [literals] at h
  | input name => rfl
  | binary op left right => rfl

theorem combine_of_literals_eq_nil {op : Operator} {left right : Expr} (hl : left.literals = [])
    (hr : right.literals = []) : combine op left right = binary op left right := by
  simp [combine, literalAwayFromZero_of_literals_eq_nil, hl, hr]

end SymbolicRegression.Expr
