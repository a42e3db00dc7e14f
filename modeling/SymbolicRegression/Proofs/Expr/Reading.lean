import SymbolicRegression.Proofs.Expr.Renaming

/-!
# What an expression reads

The check of an expression finds the first leaf from the left that does not refer to an input. An
expression without such a leaf has the same value, or the same failure, on any two records that
agree on the inputs, so what a record has for the target makes no difference to it.
-/
namespace SymbolicRegression

/-- What is wrong with a field that is not an input. -/
def Dataset.misfit (d : Dataset) (name : String) : Misfit :=
  if name = d.target then .targetField name else .unknownField name

namespace Expr

variable {d : Dataset} {e : Expr}

/-- The first field from the left that is not an input of the dataset. -/
def stray (d : Dataset) (e : Expr) : Option String := e.fields.find? (· ∉ d.inputs)

theorem stray_binary {op : Operator} {left right : Expr} :
    (binary op left right).stray d = (left.stray d).or (right.stray d) := by
  simp [stray, fields]

/-- The check reports the first stray field. -/
theorem validate_eq (d : Dataset) (e : Expr) :
    e.validate d = match e.stray d with
      | none => .ok ()
      | some name => .error (d.misfit name) := by
  induction e with
  | literal x => rfl
  | input name =>
    by_cases target : name = d.target
    · have : name ∉ d.inputs := fun known => Dataset.ne_target_of_mem_inputs known target
      simp [validate, stray, fields, Dataset.misfit, target] at this ⊢
      simp [this]
    · by_cases known : name ∈ d.inputs <;>
        simp [validate, stray, fields, Dataset.misfit, Dataset.isInput_iff, target, known]
  | binary op left right ihl ihr =>
    show (left.validate d >>= fun _ => right.validate d) = _
    rw [ihl, ihr, stray_binary]
    cases left.stray d <;> simp [bind, Except.bind]

theorem stray_eq_some_iff {name : String} :
    e.stray d = some name ↔ ∃ before after, e.fields = before ++ name :: after ∧
      (∀ other ∈ before, other ∈ d.inputs) ∧ name ∉ d.inputs := by
  simp only [stray, List.find?_eq_some_iff_append, decide_not, Bool.not_eq_true',
    decide_eq_false_iff_not, Bool.not_not, decide_eq_true_eq]
  constructor
  · rintro ⟨outside, before, after, split, inside⟩
    exact ⟨before, after, split, inside, outside⟩
  · rintro ⟨before, after, split, inside, outside⟩
    exact ⟨outside, before, after, split, inside⟩

/-- The check fails with the first field from the left that is not an input. -/
theorem validate_eq_error_iff {misfit : Misfit} :
    e.validate d = .error misfit ↔ ∃ before name after, e.fields = before ++ name :: after ∧
      (∀ other ∈ before, other ∈ d.inputs) ∧ name ∉ d.inputs ∧ misfit = d.misfit name := by
  have found : e.validate d = .error misfit ↔ ∃ name, e.stray d = some name ∧
      misfit = d.misfit name := by
    rw [validate_eq]
    cases e.stray d <;> simp [eq_comm]
  rw [found]
  simp only [stray_eq_some_iff]
  constructor
  · rintro ⟨name, ⟨before, after, split, inside, outside⟩, reason⟩
    exact ⟨before, name, after, split, inside, outside, reason⟩
  · rintro ⟨before, name, after, split, inside, outside, reason⟩
    exact ⟨name, ⟨before, after, split, inside, outside⟩, reason⟩

theorem rename_id (e : Expr) : e.rename id = e := by
  induction e with
  | literal x => rfl
  | input name => rfl
  | binary op left right ihl ihr => rw [rename, ihl, ihr]

/-- An expression that fits does not distinguish records that agree on the inputs. -/
theorem Fits.evaluate_eq (h : e.Fits d) {r r' : Record}
    (agree : ∀ name ∈ d.inputs, r.get name = r'.get name) : e.evaluate r = e.evaluate r' := by
  have renamed := evaluate_rename (s := id) agree h
  rw [rename_id] at renamed
  exact renamed.symm

/-- It does not read the target. -/
theorem Fits.evaluate_set_target (h : e.Fits d) (r : Record) (value : Float) :
    e.evaluate (r.set d.target value) = e.evaluate r := by
  refine h.evaluate_eq fun name known => ?_
  rw [Record.get_set, if_neg (Dataset.ne_target_of_mem_inputs known)]

end Expr
end SymbolicRegression
