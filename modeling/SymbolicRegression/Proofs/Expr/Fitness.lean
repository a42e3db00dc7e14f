import SymbolicRegression.Fitness
import SymbolicRegression.Proofs.Binary64.Magnitude

/-!
# The range of the fitness

Whatever an expression comes to on the records of a dataset, its fitness is a finite number that is
not negative: an evaluation that fails, an error beyond the finite numbers and a sum beyond them all
count as the worst fitness.
-/
namespace SymbolicRegression.Expr

open Binary64

/-- A score is the sum of all errors, and finite. -/
theorem totalError_of_score {e : Expr} {d : Dataset} {total : Float} (h : e.score d = .ok total) :
    e.totalError d.target 0.0 d.records = .ok total ∧ total.isFinite = true := by
  unfold score at h
  cases sum : totalError d.target e 0.0 d.records with
  | error fault =>
    rw [sum] at h
    cases h
  | ok value =>
    rw [sum] at h
    change (if value.isFinite then Except.ok value
      else .error EvaluationError.errorOverflow) = .ok total at h
    split_ifs at h with finite
    cases h
    exact ⟨rfl, finite⟩

/-- A sum that ends finite has been finite all along. -/
theorem isFinite_of_totalError {target : String} {e : Expr} {total sum : Float}
    {records : List Record} (h : e.totalError target total records = .ok sum)
    (finite : sum.isFinite = true) : total.isFinite = true := by
  induction records generalizing total with
  | nil =>
    cases h
    exact finite
  | cons r rest ih =>
    unfold totalError at h
    cases value : e.evaluate r with
    | error fault =>
      rw [value] at h
      cases h
    | ok predicted =>
      rw [value] at h
      exact isFinite_of_add (ih h)

/-- Adding errors to a sum that is not negative does not make it negative. -/
theorem totalError_nonneg {target : String} {e : Expr} {total sum : Float}
    {records : List Record} (h : e.totalError target total records = .ok sum)
    (finite : sum.isFinite = true) (nonneg : 0 ≤ toRat total) : 0 ≤ toRat sum := by
  induction records generalizing total with
  | nil =>
    cases h
    exact nonneg
  | cons r rest ih =>
    unfold totalError at h
    cases value : e.evaluate r with
    | error fault =>
      rw [value] at h
      cases h
    | ok predicted =>
      rw [value] at h
      have so_far := isFinite_of_totalError h finite
      exact ih h (toRat_add_nonneg nonneg (toRat_abs_nonneg _) so_far)

theorem worstFitness_spec : worstFitness.isFinite = true ∧ 0 ≤ toRat worstFitness := by
  decide +kernel

/-- A fitness is always a number that documents hold: an error that is not finite counts as the
worst fitness. -/
theorem isFinite_fitness (e : Expr) (d : Dataset) : (e.fitness d).isFinite = true := by
  unfold fitness
  split
  next total h => exact (totalError_of_score h).2
  next => exact worstFitness_spec.1

theorem fitness_nonneg (e : Expr) (d : Dataset) : 0 ≤ toRat (e.fitness d) := by
  unfold fitness
  split
  next total h =>
    obtain ⟨sum, finite⟩ := totalError_of_score h
    exact totalError_nonneg sum finite toRat_zero.ge
  next => exact worstFitness_spec.2

end SymbolicRegression.Expr
