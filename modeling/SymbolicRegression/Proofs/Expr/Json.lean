import SymbolicRegression.Expr.Json
import SymbolicRegression.Proofs.Expr.Literals
import SymbolicRegression.Proofs.Json.Document

/-!
# Expressions as values

An expression whose literals are all finite comes back from the value that it is written as. A
literal that is not finite is written as nothing at all, and then no expression comes back. The
nesting of the value is the depth of the expression.
-/
namespace SymbolicRegression.Expr

open Json

theorem ofValue_literal {x : Float} (h : x.isFinite = true) :
    ofValue (literal x).toValue = .ok (literal x) := by
  rw [toValue, Value.ofFloat, if_pos h, ofValue, memberParts, memberParts, memberParts]
  rfl

/-- A literal that is not finite does not come back. -/
theorem ofValue_literal_of_not_finite {x : Float} (h : ¬x.isFinite = true) :
    ofValue (literal x).toValue = .error (.content (.wrongType .null "f64")) := by
  rw [toValue, Value.ofFloat, if_neg h, ofValue, memberParts, memberParts, memberParts]
  rfl

theorem ofValue_input (name : String) : ofValue (input name).toValue = .ok (input name) := by
  rw [toValue, ofValue, memberParts, memberParts, memberParts]
  rfl

/-- A binary node comes back from its operands, the left one first. -/
theorem ofValue_binary (op : Operator) (left right : Expr) :
    ofValue (binary op left right).toValue = (do
      let left ← ofValue left.toValue
      let right ← ofValue right.toValue
      .ok (binary op left right)) := by
  rw [toValue, ofValue, memberParts, memberParts, memberParts, memberParts, memberParts]
  cases ofValue left.toValue with
  | error fault => cases op <;> rfl
  | ok left => cases ofValue right.toValue <;> cases op <;> rfl

/-- An expression with finite literals comes back from its value. -/
theorem ofValue_toValue {e : Expr} (h : e.HasFiniteLiterals) : ofValue e.toValue = .ok e := by
  induction e with
  | literal x => exact ofValue_literal (h x List.mem_cons_self)
  | input name => exact ofValue_input name
  | binary op left right ihl ihr =>
    obtain ⟨hleft, hright⟩ := hasFiniteLiterals_binary.mp h
    rw [ofValue_binary, ihl hleft, ihr hright]
    rfl

/-- Nothing comes back from the value of any other expression. -/
theorem ofValue_toValue_of_not_finite {e : Expr} (h : ¬e.HasFiniteLiterals) :
    ∃ fault, ofValue e.toValue = .error fault := by
  induction e with
  | literal x =>
    refine ⟨_, ofValue_literal_of_not_finite fun finite => h fun y hy => ?_⟩
    rwa [List.mem_singleton.mp hy]
  | input name => exact absurd (hasFiniteLiterals_input name) h
  | binary op left right ihl ihr =>
    rw [hasFiniteLiterals_binary, not_and_or] at h
    by_cases hleft : left.HasFiniteLiterals
    · obtain ⟨fault, failed⟩ := ihr (h.resolve_left (not_not.mpr hleft))
      exact ⟨fault, by rw [ofValue_binary, ofValue_toValue hleft, failed]; rfl⟩
    · obtain ⟨fault, failed⟩ := ihl hleft
      exact ⟨fault, by rw [ofValue_binary, failed]; rfl⟩

theorem isPrinted_toValue (e : Expr) : e.toValue.IsPrinted := by
  induction e with
  | literal x => exact ⟨trivial, Value.isPrinted_ofFloat x, trivial⟩
  | input name => exact ⟨trivial, trivial, trivial⟩
  | binary op left right ihl ihr => exact ⟨trivial, trivial, ihl, ihr, trivial⟩

/-- Every level of the tree opens one object. -/
theorem nesting_toValue (e : Expr) : e.toValue.nesting = e.depth := by
  induction e with
  | literal x =>
    simp only [toValue, Value.nesting, Value.nestingMembers, Value.nesting_ofFloat, depth]
    rfl
  | input name => rfl
  | binary op left right ihl ihr =>
    simp only [toValue, Value.nesting, Value.nestingMembers, ihl, ihr, depth, Operator.toValue]
    omega

end SymbolicRegression.Expr
