import SymbolicRegression.Expr.Validation
import SymbolicRegression.Proofs.Dataset.Inputs

/-!
# The fields of an expression

An expression fits a dataset exactly if every field at a leaf is one of the inputs. The target of a
dataset is not among its inputs, so an expression that fits never refers to it.
-/
namespace SymbolicRegression

namespace Expr

/-- The fields at the leaves, from the left. -/
def fields : Expr → List String
  | literal _ => []
  | input name => [name]
  | binary _ left right => left.fields ++ right.fields

@[simp] theorem fields_literalAwayFromZero (e : Expr) :
    e.literalAwayFromZero.fields = e.fields := by
  cases e <;> rfl

@[simp] theorem fields_combine (op : Operator) (left right : Expr) :
    (combine op left right).fields = left.fields ++ right.fields := by
  unfold combine
  split <;> simp [fields]

/-- Whether an expression refers to nothing but inputs of a dataset. -/
def Fits (d : Dataset) (e : Expr) : Prop := ∀ name ∈ e.fields, name ∈ d.inputs

theorem fits_literal {d : Dataset} (x : Float) : (literal x).Fits d := by
  simp [Fits, fields]

theorem fits_input {d : Dataset} {name : String} : (input name).Fits d ↔ name ∈ d.inputs := by
  simp [Fits, fields]

theorem fits_binary {d : Dataset} {op : Operator} {left right : Expr} :
    (binary op left right).Fits d ↔ left.Fits d ∧ right.Fits d := by
  simp [Fits, fields, or_imp, forall_and]

theorem fits_combine {d : Dataset} {op : Operator} {left right : Expr} :
    (combine op left right).Fits d ↔ left.Fits d ∧ right.Fits d := by
  simp [Fits, or_imp, forall_and]

/-- The check of an expression succeeds exactly if it fits. -/
theorem validate_eq_ok_iff {d : Dataset} {e : Expr} : e.validate d = .ok () ↔ e.Fits d := by
  induction e with
  | literal x => simp [validate, fits_literal]
  | input name =>
    unfold validate
    rw [fits_input]
    by_cases target : name = d.target
    · have : name ∉ d.inputs := fun h => Dataset.ne_target_of_mem_inputs h target
      simp [target] at this ⊢
      exact this
    · by_cases known : name ∈ d.inputs <;> simp [target, known, Dataset.isInput_iff]
  | binary op left right ihl ihr =>
    rw [fits_binary, ← ihl, ← ihr]
    change (left.validate d >>= fun _ => right.validate d) = .ok () ↔ _
    cases left.validate d with
    | error e => simp [bind, Except.bind]
    | ok u => simp [bind, Except.bind]

end Expr
end SymbolicRegression
