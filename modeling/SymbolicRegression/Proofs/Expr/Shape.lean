import SymbolicRegression.Expr.Basic

/-!
# Expressions of the same shape

Two expressions have the same shape if their nodes stand at the same places and have the same forms:
a literal where the other has a literal, an input where it has an input, a binary node where it has
a binary node. What may become of the fields and of the operators is left open here.
-/
namespace SymbolicRegression.Expr

/-- Whether an expression has the shape of another, the fields and the operators of the first being
related to those of the second as given. -/
inductive SameShape (field : String → String → Prop) (operator : Operator → Operator → Prop) :
    Expr → Expr → Prop
  | literal (x y : Float) : SameShape field operator (.literal x) (.literal y)
  | input {name other : String} (h : field name other) :
    SameShape field operator (.input name) (.input other)
  | binary {op other : Operator} {left left' right right' : Expr} (h : operator op other)
    (hleft : SameShape field operator left left')
    (hright : SameShape field operator right right') :
    SameShape field operator (.binary op left right) (.binary other left' right')

namespace SameShape

variable {field : String → String → Prop} {operator : Operator → Operator → Prop} {e e' : Expr}

theorem size_eq (h : SameShape field operator e e') : e'.size = e.size := by
  induction h with
  | literal x y => rfl
  | input h => rfl
  | binary h hleft hright ihl ihr => rw [size, size, ihl, ihr]

theorem depth_eq (h : SameShape field operator e e') : e'.depth = e.depth := by
  induction h with
  | literal x y => rfl
  | input h => rfl
  | binary h hleft hright ihl ihr => rw [depth, depth, ihl, ihr]

/-- Moving a literal does not show in the shape. -/
theorem literalAwayFromZero (h : SameShape field operator e e') :
    SameShape field operator e e'.literalAwayFromZero := by
  cases h with
  | literal x y => exact .literal x (awayFromZero y)
  | input h => exact .input h
  | binary h hleft hright => exact .binary h hleft hright

theorem combine {op other : Operator} {left left' right right' : Expr} (h : operator op other)
    (hleft : SameShape field operator left left')
    (hright : SameShape field operator right right') :
    SameShape field operator (.binary op left right) (.combine other left' right') := by
  unfold Expr.combine
  split
  · exact .binary h hleft.literalAwayFromZero hright.literalAwayFromZero
  · exact .binary h hleft hright

end SameShape
end SymbolicRegression.Expr
