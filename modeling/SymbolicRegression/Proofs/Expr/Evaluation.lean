import SymbolicRegression.Expr.Evaluation
import SymbolicRegression.Proofs.Record.Writing

/-!
# Values of expressions

A node has a value if both of its operands have one and the operator comes to a finite result, and
otherwise the first failure from the left. So every value is finite where the record holds finite
numbers only, and no evaluation ever fails for want of a finite sum of errors.
-/
namespace SymbolicRegression

theorem Operator.apply_eq (op : Operator) (a b : Float) :
    op.apply a b = if (op.compute a b).isFinite = true then .ok (op.compute a b)
      else .error (.overflow op) := rfl

namespace Expr

variable {e : Expr}

theorem evaluate_binary (op : Operator) (left right : Expr) (r : Record) :
    (binary op left right).evaluate r =
      left.evaluate r >>= fun a => right.evaluate r >>= fun b => op.apply a b := rfl

theorem evaluate_binary_eq_ok_iff {op : Operator} {left right : Expr} {r : Record} {x : Float} :
    (binary op left right).evaluate r = .ok x ↔ ∃ a b, left.evaluate r = .ok a ∧
      right.evaluate r = .ok b ∧ op.apply a b = .ok x := by
  rw [evaluate_binary]
  cases left.evaluate r <;> cases right.evaluate r <;> simp [bind, Except.bind]

/-- The failure of a node is that of its left operand, then that of its right one, then its own. -/
theorem evaluate_binary_eq_error_iff {op : Operator} {left right : Expr} {r : Record}
    {fault : EvaluationError} :
    (binary op left right).evaluate r = .error fault ↔ left.evaluate r = .error fault ∨
      ∃ a, left.evaluate r = .ok a ∧ (right.evaluate r = .error fault ∨
        ∃ b, right.evaluate r = .ok b ∧ op.apply a b = .error fault) := by
  rw [evaluate_binary]
  cases left.evaluate r <;> cases right.evaluate r <;> simp [bind, Except.bind]

/-- No evaluation fails because of a sum of errors. -/
theorem evaluate_ne_errorOverflow (e : Expr) (r : Record) :
    e.evaluate r ≠ .error .errorOverflow := by
  induction e with
  | literal x =>
    unfold evaluate
    split_ifs <;> simp
  | input name => simp [evaluate]
  | binary op left right ihl ihr =>
    rw [ne_eq, evaluate_binary_eq_error_iff]
    rintro (failed | ⟨a, -, failed | ⟨b, -, failed⟩⟩)
    · exact ihl failed
    · exact ihr failed
    · rw [Operator.apply_eq] at failed
      split_ifs at failed
      cases failed

/-- Where a record holds finite numbers only, every value is finite. -/
theorem isFinite_of_evaluate {r : Record} (h : ∀ entry ∈ r.entries, entry.2.isFinite = true)
    {p : Float} (value : e.evaluate r = .ok p) : p.isFinite = true := by
  cases e with
  | literal x =>
    unfold evaluate at value
    split_ifs at value with finite
    cases value
    exact finite
  | input name =>
    cases value
    exact Record.isFinite_get h name
  | binary op left right =>
    obtain ⟨a, b, -, -, applied⟩ := evaluate_binary_eq_ok_iff.mp value
    rw [Operator.apply_eq] at applied
    split_ifs at applied with finite
    cases applied
    exact finite

end Expr
end SymbolicRegression
