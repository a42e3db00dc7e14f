import SymbolicRegression.Proofs.Expr.Guard
import SymbolicRegression.Proofs.Expr.Residuals

/-!
# Divisors moved in advance

A division moves its divisor away from zero when it is evaluated, and a literal may have been moved
in the expression before. Doing both is the same as doing either: what has been moved stays where it
is, and moving makes no number finite or infinite. So an expression in which all literal divisors
have been moved has the value, or the failure, of the expression that it was made of.
-/
namespace SymbolicRegression

open Binary64

/-- Only finite numbers lie below one. -/
theorem isFinite_of_abs_lt_one {x : Float} (small : x.abs < 1.0) : x.isFinite = true := by
  by_contra infinite
  rw [← ofModel_pack_unpack x] at small
  rcases isBeyond_of_not_isFinite infinite with none | ⟨s, beyond⟩
  · rw [none] at small
    exact absurd small (by decide)
  · rw [beyond] at small
    cases s <;> exact absurd small (by decide)

@[simp] theorem isFinite_awayFromZero (x : Float) : (awayFromZero x).isFinite = x.isFinite := by
  unfold awayFromZero
  split_ifs with small negative
  · exact (isFinite_of_abs_lt_one small).symm
  · exact (isFinite_of_abs_lt_one small).symm
  · rfl

@[simp] theorem awayFromZero_awayFromZero (x : Float) :
    awayFromZero (awayFromZero x) = awayFromZero x :=
  awayFromZero_eq_self_iff.mpr (not_abs_awayFromZero_lt x)

/-- A division does not notice that its divisor has been moved. -/
@[simp] theorem Operator.apply_divide_awayFromZero (a b : Float) :
    divide.apply a (awayFromZero b) = divide.apply a b := by
  rw [apply_eq, apply_eq, compute, compute, awayFromZero_awayFromZero]

namespace Expr

/-- The expression with every literal that is a divisor moved away from zero. -/
def divisorsAwayFromZero : Expr → Expr
  | literal x => literal x
  | input name => input name
  | binary .divide left right =>
    binary .divide left.divisorsAwayFromZero right.divisorsAwayFromZero.literalAwayFromZero
  | binary op left right => binary op left.divisorsAwayFromZero right.divisorsAwayFromZero

/-- Nodes with operands of the same value have the same value. -/
theorem evaluate_binary_congr {op : Operator} {left left' right right' : Expr} {r : Record}
    (hl : left'.evaluate r = left.evaluate r) (hr : right'.evaluate r = right.evaluate r) :
    (binary op left' right').evaluate r = (binary op left right).evaluate r := by
  rw [evaluate_binary, evaluate_binary, hl, hr]

/-- It makes no difference to a quotient whether a literal divisor is moved in advance. -/
theorem evaluate_divide_literalAwayFromZero (left right : Expr) (r : Record) :
    (binary .divide left right.literalAwayFromZero).evaluate r
      = (binary .divide left right).evaluate r := by
  cases right with
  | literal x =>
    rw [evaluate_binary, evaluate_binary]
    congr 1
    funext a
    by_cases finite : x.isFinite = true
    · simp [literalAwayFromZero, evaluate, finite, bind, Except.bind]
    · simp [literalAwayFromZero, evaluate, finite, bind, Except.bind]
  | input name => rfl
  | binary op left right => rfl

theorem evaluate_divisorsAwayFromZero (e : Expr) (r : Record) :
    e.divisorsAwayFromZero.evaluate r = e.evaluate r := by
  induction e with
  | literal x => rfl
  | input name => rfl
  | binary op left right ihl ihr =>
    cases op with
    | divide =>
      rw [divisorsAwayFromZero, evaluate_divide_literalAwayFromZero]
      exact evaluate_binary_congr ihl ihr
    | add | subtract | multiply => exact evaluate_binary_congr ihl ihr

section Congruence

variable {e e' : Expr} (same : ∀ r, e'.evaluate r = e.evaluate r) (d : Dataset)
include same

/-- Expressions of the same value on every record make the same predictions. -/
theorem residuals_congr : e'.residuals d = e.residuals d := by
  have residual : e'.residual d.target = e.residual d.target := by
    funext r
    rw [Expr.residual, Expr.residual, same]
  rw [residuals, residuals, residual]

theorem score_congr : e'.score d = e.score d := by
  rw [score_eq, score_eq, residuals_congr same]

theorem fitness_congr : e'.fitness d = e.fitness d := by
  rw [fitness, fitness, score_congr same]

end Congruence

theorem literalAwayFromZero_eq_self {e : Expr} (large : ¬e.IsSmallLiteral) :
    e.literalAwayFromZero = e := by
  cases e with
  | literal x => rw [literalAwayFromZero, awayFromZero_eq_self_iff.mpr large]
  | input name => rfl
  | binary op left right => rfl

/-- To move literal divisors away from zero, anywhere in an expression, changes neither its value
nor its failure on any record, and so none of its predictions, its score and its fitness. In
particular, combining operands to a quotient moves nothing that matters but a small dividend. -/
theorem divisorsAwayFromZero_sameMeaning (e : Expr) :
    (∀ r, e.divisorsAwayFromZero.evaluate r = e.evaluate r) ∧
    (∀ d, e.divisorsAwayFromZero.fitness d = e.fitness d ∧
      e.divisorsAwayFromZero.score d = e.score d ∧
      e.divisorsAwayFromZero.residuals d = e.residuals d) ∧
    ∀ left right, ¬left.IsSmallLiteral → ∀ r,
      (combine .divide left right).evaluate r = (binary .divide left right).evaluate r := by
  have same := e.evaluate_divisorsAwayFromZero
  refine ⟨same, fun d => ⟨fitness_congr same d, score_congr same d, residuals_congr same d⟩, ?_⟩
  intro left right large r
  have combined : combine .divide left right = binary .divide left right.literalAwayFromZero := by
    simp [combine, Operator.isScaling, literalAwayFromZero_eq_self large]
  rw [combined, evaluate_divide_literalAwayFromZero]

/-- Three by minus one quarter is minus three, though the divisor that is combined is not the one
that was given. -/
theorem divisorsAwayFromZero_sameMeaning_quotient :
    ¬(input "first").IsSmallLiteral ∧
      combine .divide (input "first") (literal (-0.25))
        = binary .divide (input "first") (literal (-1.0)) ∧
      (combine .divide (input "first") (literal (-0.25))).evaluate (.ofList [("first", 3.0)])
        = .ok (-3.0) := by
  have large : ¬(input "first").IsSmallLiteral := id
  obtain ⟨-, -, quotient⟩ := divisorsAwayFromZero_sameMeaning (input "first")
  refine ⟨large, by decide +kernel, ?_⟩
  rw [quotient _ _ large]
  decide +kernel

end Expr
end SymbolicRegression
