import SymbolicRegression.Operator.Basic

/-!
# Expressions

An expression is a tree of arithmetic operators over numeric literals and input fields. This module
holds the tree and what can be said about its shape alone.
-/
namespace SymbolicRegression

/-- An arithmetic expression over the fields of a record. -/
inductive Expr where
  | literal (value : Float)
  | input (name : String)
  | binary (op : Operator) (left right : Expr)
deriving DecidableEq

namespace Expr

/-- The forms of a node. -/
inductive Kind where
  | literal
  | input
  | binary
deriving DecidableEq

def kind : Expr → Kind
  | literal _ => .literal
  | input _ => .input
  | binary .. => .binary

/-- The number of nodes. -/
def size : Expr → Nat
  | literal _ | input _ => 1
  | binary _ left right => 1 + left.size + right.size

/-- The number of nodes on the longest path from the root to a leaf. -/
def depth : Expr → Nat
  | literal _ | input _ => 1
  | binary _ left right => 1 + max left.depth right.depth

/-- A literal moved out of the magnitudes below one; any other expression is left alone. -/
def literalAwayFromZero : Expr → Expr
  | literal value => literal (awayFromZero value)
  | other => other

/-- A binary node whose literal operands are moved away from zero if the operator scales. -/
def combine (op : Operator) (left right : Expr) : Expr :=
  if op.isScaling then binary op left.literalAwayFromZero right.literalAwayFromZero
  else binary op left right

theorem size_pos (e : Expr) : 0 < e.size := by
  cases e <;> simp only [size] <;> omega

theorem depth_pos (e : Expr) : 0 < e.depth := by
  cases e <;> simp only [depth] <;> omega

@[simp] theorem size_literalAwayFromZero (e : Expr) : e.literalAwayFromZero.size = e.size := by
  cases e <;> rfl

@[simp] theorem depth_literalAwayFromZero (e : Expr) : e.literalAwayFromZero.depth = e.depth := by
  cases e <;> rfl

@[simp] theorem size_combine (op : Operator) (left right : Expr) :
    (combine op left right).size = 1 + left.size + right.size := by
  unfold combine
  split <;> simp [size]

@[simp] theorem depth_combine (op : Operator) (left right : Expr) :
    (combine op left right).depth = 1 + max left.depth right.depth := by
  unfold combine
  split <;> simp [depth]

end Expr
end SymbolicRegression
