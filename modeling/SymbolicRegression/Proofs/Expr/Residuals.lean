import SymbolicRegression.Proofs.Binary64.Sign
import SymbolicRegression.Proofs.Expr.Evaluation
import SymbolicRegression.Proofs.Expr.Fitness

/-!
# Predictions and the fitness

The fitness adds up the errors of the predictions as it goes over the records, and the predictions
are made in a walk of their own. Both come to an end at the first record on which the expression
has no value, with the same failure; without such a record the sum is that of the errors of the
predictions, from the left. All errors are magnitudes, so their sum is a number even if it is beyond
all finite ones.
-/
namespace SymbolicRegression

section Traversal

variable {α β ε : Type} {f : α → Except ε β}

theorem mapM_cons_of_ok {x : α} {xs : List α} {y : β} (h : f x = .ok y) :
    (x :: xs).mapM f = (y :: ·) <$> xs.mapM f := by
  rw [List.mapM_cons, h]
  cases xs.mapM f <;> rfl

theorem mapM_cons_of_error {x : α} {xs : List α} {e : ε} (h : f x = .error e) :
    (x :: xs).mapM f = .error e := by
  rw [List.mapM_cons, h]
  rfl

/-- A walk over a list succeeds if every element does. -/
theorem mapM_eq_ok_iff {xs : List α} {ys : List β} :
    xs.mapM f = .ok ys ↔ List.Forall₂ (fun x y => f x = .ok y) xs ys := by
  induction xs generalizing ys with
  | nil => simp [pure, Except.pure, eq_comm]
  | cons x xs ih =>
    rw [List.forall₂_cons_left_iff]
    simp only [← ih]
    cases first : f x with
    | error e => simp [mapM_cons_of_error first]
    | ok y =>
      rw [mapM_cons_of_ok first]
      cases xs.mapM f <;> simp [eq_comm]

/-- A walk fails with the failure of the first element that has one. -/
theorem mapM_eq_error_iff {xs : List α} {e : ε} :
    xs.mapM f = .error e ↔ ∃ before x after, xs = before ++ x :: after ∧
      (∀ other ∈ before, ∃ y, f other = .ok y) ∧ f x = .error e := by
  constructor
  · intro failed
    induction xs with
    | nil => cases failed
    | cons x xs ih =>
      cases first : f x with
      | error fault =>
        rw [mapM_cons_of_error first] at failed
        cases failed
        exact ⟨[], x, xs, rfl, by simp, first⟩
      | ok y =>
        rw [mapM_cons_of_ok first] at failed
        have later : xs.mapM f = .error e := by
          cases rest : xs.mapM f with
          | error fault => simpa [rest] using failed
          | ok ys => simp [rest] at failed
        obtain ⟨before, z, after, rfl, good, bad⟩ := ih later
        exact ⟨x :: before, z, after, rfl, List.forall_mem_cons.mpr ⟨⟨y, first⟩, good⟩, bad⟩
  · rintro ⟨before, x, after, rfl, good, bad⟩
    induction before with
    | nil => exact mapM_cons_of_error bad
    | cons y before ih =>
      obtain ⟨⟨z, first⟩, others⟩ := List.forall_mem_cons.mp good
      rw [List.cons_append, mapM_cons_of_ok first, ih others]
      rfl

end Traversal

namespace Expr

open Binary64

/-- The sum of the errors, from the left. -/
def summedError (residuals : List Residual) : Float :=
  residuals.foldl (fun total r => total + r.error) 0.0

variable {d : Dataset} {e : Expr}

theorem residual_eq_ok_iff {target : String} {r : Record} {x : Residual} :
    e.residual target r = .ok x ↔ ∃ p, e.evaluate r = .ok p ∧
      x = ⟨p, r.get target, (p - r.get target).abs⟩ := by
  unfold residual
  cases e.evaluate r with
  | error fault => simp [bind, Except.bind]
  | ok p => simp [bind, Except.bind, pure, Except.pure, eq_comm]

theorem residual_eq_error_iff {target : String} {r : Record} {fault : EvaluationError} :
    e.residual target r = .error fault ↔ e.evaluate r = .error fault := by
  unfold residual
  cases e.evaluate r with
  | error fault => simp [bind, Except.bind]
  | ok p => simp [bind, Except.bind, pure, Except.pure]

/-- The errors are added up in the order of the predictions. -/
theorem totalError_eq (target : String) (e : Expr) (total : Float) (records : List Record) :
    e.totalError target total records =
      (fun residuals => residuals.foldl (fun total r => total + r.error) total) <$>
        records.mapM (e.residual target) := by
  induction records generalizing total with
  | nil => rfl
  | cons r rest ih =>
    unfold totalError
    cases value : e.evaluate r with
    | error fault =>
      rw [mapM_cons_of_error (residual_eq_error_iff.mpr value)]
      rfl
    | ok p =>
      rw [mapM_cons_of_ok (residual_eq_ok_iff.mpr ⟨p, value, rfl⟩)]
      show e.totalError target (total + (p - r.get target).abs) rest = _
      rw [ih]
      cases rest.mapM (e.residual target) <;> rfl

/-- The score, as it can be read off the predictions. -/
theorem score_eq (e : Expr) (d : Dataset) :
    e.score d = match e.residuals d with
      | .error fault => .error fault
      | .ok residuals =>
        if (summedError residuals).isFinite = true then .ok (summedError residuals)
        else .error .errorOverflow := by
  unfold score residuals
  rw [totalError_eq]
  cases d.records.mapM (e.residual d.target) <;> rfl

/-- There is a prediction for each record, in order, if the expression has a value on each. -/
theorem residuals_eq_ok_iff {residuals : List Residual} :
    e.residuals d = .ok residuals ↔ List.Forall₂ (fun r x => ∃ p, e.evaluate r = .ok p ∧
      x = ⟨p, r.get d.target, (p - r.get d.target).abs⟩) d.records residuals := by
  unfold Expr.residuals
  rw [mapM_eq_ok_iff]
  simp only [residual_eq_ok_iff]

/-- The failure of the predictions is that of the first record without a value. -/
theorem residuals_eq_error_iff {fault : EvaluationError} :
    e.residuals d = .error fault ↔ ∃ before r after, d.records = before ++ r :: after ∧
      (∀ other ∈ before, ∃ p, e.evaluate other = .ok p) ∧ e.evaluate r = .error fault := by
  unfold Expr.residuals
  rw [mapM_eq_error_iff]
  have predicted (other : Record) : (∃ x, e.residual d.target other = .ok x) ↔
      ∃ p, e.evaluate other = .ok p := by
    simp only [residual_eq_ok_iff]
    exact ⟨fun ⟨_, p, value, _⟩ => ⟨p, value⟩, fun ⟨p, value⟩ => ⟨_, p, value, rfl⟩⟩
  simp only [predicted, residual_eq_error_iff]

theorem exists_residuals_iff :
    (∃ residuals, e.residuals d = .ok residuals) ↔ ∀ r ∈ d.records, ∃ p, e.evaluate r = .ok p := by
  cases made : e.residuals d with
  | error fault =>
    obtain ⟨before, r, after, split, -, failed⟩ := residuals_eq_error_iff.mp made
    refine iff_of_false (by simp) fun all => ?_
    obtain ⟨p, value⟩ := all r (by simp [split])
    cases failed.symm.trans value
  | ok residuals =>
    refine iff_of_true ⟨residuals, rfl⟩ fun r member => ?_
    have predictions := residuals_eq_ok_iff.mp made
    obtain ⟨i, inside, rfl⟩ := List.getElem_of_mem member
    obtain ⟨p, value, -⟩ := predictions.get inside (predictions.length_eq ▸ inside)
    exact ⟨p, value⟩

theorem residuals_ne_errorOverflow (e : Expr) (d : Dataset) :
    e.residuals d ≠ .error .errorOverflow := by
  rw [ne_eq, residuals_eq_error_iff]
  rintro ⟨before, r, after, -, -, failed⟩
  exact evaluate_ne_errorOverflow e r failed

/-- All errors are magnitudes. -/
theorem isMagnitude_error {residuals : List Residual} (h : e.residuals d = .ok residuals) :
    ∀ x ∈ residuals, IsMagnitude x.error := by
  intro x member
  obtain ⟨i, inside, rfl⟩ := List.getElem_of_mem member
  have predictions := residuals_eq_ok_iff.mp h
  have inRecords : i < d.records.length := predictions.length_eq ▸ inside
  obtain ⟨p, value, eq⟩ := predictions.get inRecords inside
  have finite := d.finite _ (List.getElem_mem inRecords)
  obtain ⟨s, number⟩ := exists_hasSign_sub (isFinite_of_evaluate finite value)
    (Record.isFinite_get finite d.target)
  rw [List.get_eq_getElem] at eq
  rw [eq]
  exact isMagnitude_abs number

theorem isMagnitude_summedError {residuals : List Residual}
    (h : ∀ x ∈ residuals, IsMagnitude x.error) : IsMagnitude (summedError residuals) := by
  have added (total : Float) (start : IsMagnitude total) :
      IsMagnitude (residuals.foldl (fun total r => total + r.error) total) := by
    induction residuals generalizing total with
    | nil => exact start
    | cons x rest ih =>
      obtain ⟨first, others⟩ := List.forall_mem_cons.mp h
      exact ih others _ (start.add first)
  exact added 0.0 isMagnitude_zero

/-- The score is the sum of the errors if it is finite. -/
theorem score_eq_ok_iff {t : Float} :
    e.score d = .ok t ↔ ∃ residuals, e.residuals d = .ok residuals ∧
      (summedError residuals).isFinite = true ∧ summedError residuals = t := by
  rw [score_eq]
  cases e.residuals d with
  | error fault => simp
  | ok residuals =>
    by_cases finite : (summedError residuals).isFinite = true
    · simp [finite]
    · simp [finite]

/-- The score is missing because of the sum if there are predictions, but no finite sum. -/
theorem score_eq_errorOverflow_iff :
    e.score d = .error .errorOverflow ↔ ∃ residuals, e.residuals d = .ok residuals ∧
      (summedError residuals).isFinite = false := by
  rw [score_eq]
  cases made : e.residuals d with
  | error fault =>
    have other : fault ≠ .errorOverflow := fun same => residuals_ne_errorOverflow e d (same ▸ made)
    simp [other]
  | ok residuals =>
    by_cases finite : (summedError residuals).isFinite = true
    · simp [finite]
    · simp [finite]

/-- The predictions fail as the score does, but never because of a sum. -/
theorem residuals_eq_error_iff_score {fault : EvaluationError} :
    e.residuals d = .error fault ↔ e.score d = .error fault ∧ fault ≠ .errorOverflow := by
  constructor
  · intro failed
    refine ⟨by rw [score_eq, failed], ?_⟩
    rintro rfl
    exact residuals_ne_errorOverflow e d failed
  · rintro ⟨failed, other⟩
    cases made : e.residuals d with
    | error first =>
      rw [score_eq, made] at failed
      rw [Except.error.inj failed]
    | ok residuals =>
      rw [score_eq, made] at failed
      dsimp only at failed
      split_ifs at failed
      cases failed
      exact absurd rfl other

/-- The fitness is the score, or the worst if there is none. -/
theorem fitness_eq_iff {t : Float} :
    e.fitness d = t ↔ e.score d = .ok t ∨
      (∃ fault, e.score d = .error fault) ∧ t = worstFitness := by
  unfold fitness
  cases e.score d <;> simp [eq_comm]

theorem toRat_worstFitness : toRat worstFitness = (2 ^ 53 - 1) * greatestQuantum := by
  show toRat worstFitness = (2 ^ 53 - 1) * 2 ^ (971 : ℤ)
  decide +kernel

/-- The worst fitness is the greatest finite number. -/
theorem le_worstFitness {x : Float} (finite : x.isFinite = true) : x ≤ worstFitness := by
  rw [le_iff finite worstFitness_spec.1]
  rcases le_or_gt (toRat x) 0 with negative | positive
  · exact negative.trans worstFitness_spec.2
  · rw [toRat_worstFitness]
    exact toRat_le_greatest positive

theorem isMagnitude_fitness (e : Expr) (d : Dataset) : IsMagnitude (e.fitness d) := by
  unfold fitness
  split
  next t scored =>
    obtain ⟨residuals, made, -, rfl⟩ := score_eq_ok_iff.mp scored
    exact isMagnitude_summedError (isMagnitude_error made)
  next =>
    have large := four_le_greatestQuantum
    refine isMagnitude_of_pos ?_
    rw [toRat_worstFitness]
    linarith

/-- The fitness is a number from zero to the worst fitness. -/
theorem fitness_mem_range (e : Expr) (d : Dataset) :
    0.0 ≤ e.fitness d ∧ e.fitness d ≤ worstFitness := by
  have finite := isFinite_fitness e d
  refine ⟨?_, le_worstFitness finite⟩
  rw [le_iff (by rfl) finite, toRat_zero]
  exact fitness_nonneg e d

end Expr
end SymbolicRegression
