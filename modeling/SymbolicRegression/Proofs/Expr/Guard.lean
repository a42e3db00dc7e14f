import Mathlib.Tactic.SplitIfs
import SymbolicRegression.Expr.Basic

/-!
# Expressions without small factors

An expression is guarded if no operand of a multiplication or a division is a literal of magnitude
below one. Operands that are put together by `combine` never break this, whatever the operator,
since small literals are moved away from zero there. To move all of them in an expression leaves it
alone exactly if it is guarded.
-/
namespace SymbolicRegression

/-- What is moved away from zero ends up at a magnitude of at least one. -/
theorem not_abs_awayFromZero_lt (x : Float) : ¬(awayFromZero x).abs < 1.0 := by
  unfold awayFromZero
  split_ifs with small negative
  · decide +kernel
  · decide +kernel
  · exact small

/-- A number is left alone exactly if it is not below one in magnitude. -/
theorem awayFromZero_eq_self_iff {x : Float} : awayFromZero x = x ↔ ¬x.abs < 1.0 := by
  constructor
  · intro same small
    exact not_abs_awayFromZero_lt x (by rwa [same])
  · intro large
    exact if_neg large

namespace Expr

def IsSmallLiteral : Expr → Prop
  | literal x => x.abs < 1.0
  | input _ => False
  | binary .. => False

instance (e : Expr) : Decidable e.IsSmallLiteral :=
  match e with
  | literal x => inferInstanceAs (Decidable (x.abs < 1.0))
  | input _ => inferInstanceAs (Decidable False)
  | binary .. => inferInstanceAs (Decidable False)

/-- Whether no multiplication or division anywhere has a small literal for an operand. -/
def IsGuarded : Expr → Prop
  | literal _ => True
  | input _ => True
  | binary op left right =>
    (op.isScaling = true → ¬left.IsSmallLiteral ∧ ¬right.IsSmallLiteral) ∧
      left.IsGuarded ∧ right.IsGuarded

instance isGuardedDecidable : (e : Expr) → Decidable e.IsGuarded
  | literal _ => inferInstanceAs (Decidable True)
  | input _ => inferInstanceAs (Decidable True)
  | binary op left right =>
    have := isGuardedDecidable left
    have := isGuardedDecidable right
    inferInstanceAs (Decidable ((op.isScaling = true → _ ∧ _) ∧ left.IsGuarded ∧ right.IsGuarded))

theorem not_isSmallLiteral_literalAwayFromZero (e : Expr) :
    ¬e.literalAwayFromZero.IsSmallLiteral := by
  cases e with
  | literal x => exact not_abs_awayFromZero_lt x
  | input name => exact id
  | binary op left right => exact id

@[simp] theorem isGuarded_literalAwayFromZero {e : Expr} :
    e.literalAwayFromZero.IsGuarded ↔ e.IsGuarded := by
  cases e <;> rfl

/-- A combined node is guarded exactly if its operands are. -/
theorem isGuarded_combine {op : Operator} {left right : Expr} :
    (combine op left right).IsGuarded ↔ left.IsGuarded ∧ right.IsGuarded := by
  unfold combine
  split_ifs with scaling
  · simp [IsGuarded, not_isSmallLiteral_literalAwayFromZero]
  · simp [IsGuarded, scaling]

/-- An expression in which every literal that is an operand of a multiplication or a division is
moved away from zero, and nothing else is changed. Whether the expression as a whole is such an
operand is given. -/
def guardedUnder (scaled : Bool) : Expr → Expr
  | literal x => literal (if scaled then awayFromZero x else x)
  | input name => input name
  | binary op left right =>
    binary op (left.guardedUnder op.isScaling) (right.guardedUnder op.isScaling)

/-- An expression of its own with its small factors and divisors moved away from zero. -/
def guarded (e : Expr) : Expr := e.guardedUnder false

theorem literalAwayFromZero_guarded (e : Expr) :
    e.guarded.literalAwayFromZero = e.guardedUnder true := by
  cases e <;> rfl

/-- Combining guarded operands guards the node. -/
theorem combine_guarded (op : Operator) (left right : Expr) :
    combine op left.guarded right.guarded = (binary op left right).guarded := by
  rw [combine, literalAwayFromZero_guarded, literalAwayFromZero_guarded]
  cases scaling : op.isScaling <;> simp [guarded, guardedUnder, scaling]

@[simp] theorem size_guardedUnder (scaled : Bool) (e : Expr) :
    (e.guardedUnder scaled).size = e.size := by
  induction e generalizing scaled with
  | literal x => rfl
  | input name => rfl
  | binary op left right ihl ihr => simp [guardedUnder, size, ihl, ihr]

@[simp] theorem size_guarded (e : Expr) : e.guarded.size = e.size := size_guardedUnder false e

theorem guardedUnder_eq_self_iff {scaled : Bool} {e : Expr} :
    e.guardedUnder scaled = e ↔ (scaled = true → ¬e.IsSmallLiteral) ∧ e.IsGuarded := by
  induction e generalizing scaled with
  | literal x => cases scaled <;> simp [guardedUnder, IsSmallLiteral, IsGuarded,
      awayFromZero_eq_self_iff]
  | input name => simp [guardedUnder, IsSmallLiteral, IsGuarded]
  | binary op left right ihl ihr =>
    have large : ¬(binary op left right).IsSmallLiteral := id
    rw [guardedUnder, binary.injEq, ihl, ihr, IsGuarded]
    cases op.isScaling <;> simp [large, and_assoc, and_left_comm]

/-- Nothing is moved exactly if nothing small stands where it would be. -/
theorem guarded_eq_self_iff {e : Expr} : e.guarded = e ↔ e.IsGuarded := by
  simp [guarded, guardedUnder_eq_self_iff]

/-- What has been moved away from zero once stays where it is. -/
theorem guardedUnder_guardedUnder (scaled : Bool) (e : Expr) :
    (e.guardedUnder scaled).guardedUnder scaled = e.guardedUnder scaled := by
  induction e generalizing scaled with
  | literal x =>
    have again := awayFromZero_eq_self_iff.mpr (not_abs_awayFromZero_lt x)
    cases scaled <;> simp [guardedUnder, again]
  | input name => rfl
  | binary op left right ihl ihr => simp [guardedUnder, ihl, ihr]

theorem guarded_guarded (e : Expr) : e.guarded.guarded = e.guarded :=
  guardedUnder_guardedUnder false e

end Expr
end SymbolicRegression
