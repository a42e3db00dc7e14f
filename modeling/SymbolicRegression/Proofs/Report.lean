import SymbolicRegression.Dataset.Sample
import SymbolicRegression.Proofs.Decimal.Plain
import SymbolicRegression.Proofs.Expr.Residuals
import SymbolicRegression.Report

/-!
# What a report says

A report gives the size, the depth and the fitness of a formula, and then either one line for each
record or the reason why there are no predictions. The lines are those of the predictions whose
errors the fitness adds up.
-/
namespace SymbolicRegression

/-- Whether a text is one line: it ends with a line break and has no other. -/
def IsLine (text : String) : Prop := ∃ chars, text.toList = chars ++ ['\n'] ∧ '\n' ∉ chars

theorem newline_not_mem_toDigits (n : ℕ) : '\n' ∉ Nat.toDigits 10 n := fun member =>
  absurd (Nat.isDigit_of_mem_toDigits (by norm_num) (by norm_num) member) (by decide)

theorem newline_not_mem_plain (x : Float) : '\n' ∉ (Decimal.plain x).toList := by
  rw [Decimal.plain, String.toList_ofList]
  exact fun member => absurd (Decimal.isPlainChar_chars x _ member) (by decide)

namespace Formula

theorem isLine_residualLine (position : ℕ) (r : Residual) : IsLine (residualLine position r) := by
  unfold residualLine
  refine ⟨_, by rw [String.toList_append]; rfl, ?_⟩
  simp [newline_not_mem_toDigits, newline_not_mem_plain]

theorem residualLines_eq (position : ℕ) (residuals : List Residual) :
    residualLines position residuals =
      String.join (residuals.mapIdx fun i r => residualLine (position + i) r) := by
  induction residuals generalizing position with
  | nil => rfl
  | cons r rest ih =>
    rw [residualLines, ih, List.mapIdx_cons]
    simp [String.join_cons, Nat.add_assoc, Nat.add_comm 1]

/-- What is said about a formula before its predictions. -/
def heading (f : Formula) (d : Dataset) : String :=
  "Formula: " ++ f.render ++ "\n" ++ "Size: " ++ natText f.size ++ "\n" ++ "Depth: " ++
    natText f.root.depth ++ "\n" ++ "Fitness: " ++ Decimal.plain (f.fitness d) ++ "\n"

/-- A report with a line for each of the given predictions. -/
def predictionReport (f : Formula) (d : Dataset) (residuals : List Residual) : String :=
  f.heading d ++ ("Records (" ++ d.target ++ "):\n" ++ String.join (residuals.mapIdx residualLine))

/-- A report that gives the reason why there are no predictions. -/
def failureReport (f : Formula) (d : Dataset) (fault : EvaluationError) : String :=
  f.heading d ++ ("Evaluation failed: " ++ fault.message ++ " (scored as the worst fitness)\n")

variable {f : Formula} {d : Dataset}

theorem report_of_ok {residuals : List Residual} (h : f.root.residuals d = .ok residuals) :
    f.report d = f.predictionReport d residuals := by
  unfold report recordsReport predictionReport heading
  simp [h, residualLines_eq]

theorem report_of_error {fault : EvaluationError} (h : f.root.residuals d = .error fault) :
    f.report d = f.failureReport d fault := by
  unfold report recordsReport failureReport heading
  simp [h]

/-- The two kinds of reports can be told from each other, by the letter behind the heading. -/
theorem predictionReport_ne_failureReport (residuals : List Residual) (fault : EvaluationError) :
    f.predictionReport d residuals ≠ f.failureReport d fault := by
  unfold predictionReport failureReport
  rw [ne_eq, String.append_right_inj]
  simp [← String.toList_inj]

theorem exists_predictionReport_iff :
    (∃ residuals, f.report d = f.predictionReport d residuals) ↔
      ∃ residuals, f.root.residuals d = .ok residuals := by
  constructor
  · rintro ⟨residuals, lines⟩
    cases made : f.root.residuals d with
    | error fault =>
      rw [report_of_error made] at lines
      exact absurd lines.symm (predictionReport_ne_failureReport residuals fault)
    | ok residuals => exact ⟨residuals, rfl⟩
  · rintro ⟨residuals, made⟩
    exact ⟨residuals, report_of_ok made⟩

/-- Predictions, score, fitness and report agree. There is one prediction for each record, in order
and with the distance from the target as its error, if the expression has a value on every record;
otherwise the predictions fail as the first record does that has none. The score is the sum of the
errors from the left if that is finite. It is missing because of the sum if there are predictions
whose sum is not finite, which then is infinite and not a lack of a number, and else fails as the
predictions do. The fitness is the score, or the greatest finite number if there is none; it is a
number from zero to that one, and never a negative zero. The report gives the size, the depth and
the fitness, and has a line for each prediction if there are predictions, and else the reason why
there are none. -/
theorem report_agrees (f : Formula) (d : Dataset) :
    (∀ residuals, f.root.residuals d = .ok residuals ↔ List.Forall₂ (fun r x => ∃ p,
      f.root.evaluate r = .ok p ∧ x = ⟨p, r.get d.target, (p - r.get d.target).abs⟩)
        d.records residuals) ∧
    ((∃ residuals, f.root.residuals d = .ok residuals) ↔
      ∀ r ∈ d.records, ∃ p, f.root.evaluate r = .ok p) ∧
    (∀ fault, f.root.residuals d = .error fault ↔ ∃ before r after,
      d.records = before ++ r :: after ∧ (∀ other ∈ before, ∃ p, f.root.evaluate other = .ok p) ∧
        f.root.evaluate r = .error fault) ∧
    (∀ t, f.root.score d = .ok t ↔ ∃ residuals, f.root.residuals d = .ok residuals ∧
      (Expr.summedError residuals).isFinite = true ∧ Expr.summedError residuals = t) ∧
    (f.root.score d = .error .errorOverflow ↔ ∃ residuals, f.root.residuals d = .ok residuals ∧
      (Expr.summedError residuals).isFinite = false) ∧
    (∀ fault, f.root.residuals d = .error fault ↔
      f.root.score d = .error fault ∧ fault ≠ .errorOverflow) ∧
    (∀ residuals, f.root.residuals d = .ok residuals →
      (Expr.summedError residuals).isNaN = false) ∧
    (∀ t, f.fitness d = t ↔ f.root.score d = .ok t ∨
      (∃ fault, f.root.score d = .error fault) ∧ t = worstFitness) ∧
    (worstFitness.isFinite = true ∧ ∀ x : Float, x.isFinite = true → x ≤ worstFitness) ∧
    ((f.fitness d).isNaN = false ∧ f.fitness d ≠ -0.0 ∧ 0.0 ≤ f.fitness d ∧
      f.fitness d ≤ worstFitness) ∧
    (∀ residuals, f.root.residuals d = .ok residuals →
      f.report d = f.predictionReport d residuals) ∧
    (∀ fault, f.root.residuals d = .error fault → f.report d = f.failureReport d fault) ∧
    ((∃ residuals, f.report d = f.predictionReport d residuals) ↔
      ∃ residuals, f.root.residuals d = .ok residuals) ∧
    ∀ position r, IsLine (residualLine position r) := by
  have magnitude := f.root.isMagnitude_fitness d
  obtain ⟨least, greatest⟩ := f.root.fitness_mem_range d
  refine ⟨fun _ => Expr.residuals_eq_ok_iff, Expr.exists_residuals_iff,
    fun _ => Expr.residuals_eq_error_iff, fun _ => Expr.score_eq_ok_iff,
    Expr.score_eq_errorOverflow_iff, fun _ => Expr.residuals_eq_error_iff_score, ?_,
    fun _ => Expr.fitness_eq_iff, ⟨Expr.worstFitness_spec.1, fun _ => Expr.le_worstFitness⟩,
    ⟨magnitude.isNaN_eq_false, magnitude.ne_negative_zero, least, greatest⟩,
    fun _ => report_of_ok, fun _ => report_of_error, exists_predictionReport_iff,
    isLine_residualLine⟩
  intro residuals made
  exact (Expr.isMagnitude_summedError (Expr.isMagnitude_error made)).isNaN_eq_false

/-- On the built-in dataset, an input and sixteen predict the first target exactly and miss the
second one; a literal near the greatest number has errors, but no finite sum of them; and a multiple
beyond all numbers has no value. -/
theorem report_agrees_sample :
    (∃ f : Formula, f.root = .binary .add (.input "first") (.literal 16.0) ∧
      f.root.residuals Dataset.sample = .ok [⟨17.0, 17.0, 0.0⟩, ⟨1040.0, 125.0, 915.0⟩] ∧
      f.fitness Dataset.sample = 915.0 ∧
      f.report Dataset.sample =
        f.predictionReport Dataset.sample [⟨17.0, 17.0, 0.0⟩, ⟨1040.0, 125.0, 915.0⟩]) ∧
    (∃ f : Formula, f.root = .literal 1.7e308 ∧
      f.root.score Dataset.sample = .error .errorOverflow ∧
      f.fitness Dataset.sample = worstFitness) ∧
    ∃ f : Formula, f.root = .binary .multiply (.literal 1.7e308) (.input "second") ∧
      f.report Dataset.sample = f.failureReport Dataset.sample (.overflow .multiply) := by
  refine ⟨⟨⟨.binary .add (.input "first") (.literal 16.0)⟩, rfl, ?_⟩, ⟨⟨.literal 1.7e308⟩, rfl, ?_⟩,
    ⟨.binary .multiply (.literal 1.7e308) (.input "second")⟩, rfl, ?_⟩
  · obtain ⟨-, -, -, scored, -, -, -, fitness, -, -, report, -⟩ := report_agrees
      ⟨.binary .add (.input "first") (.literal 16.0)⟩ Dataset.sample
    have made : (Expr.binary .add (.input "first") (.literal 16.0)).residuals Dataset.sample =
        .ok [⟨17.0, 17.0, 0.0⟩, ⟨1040.0, 125.0, 915.0⟩] := by decide +kernel
    have sum : Expr.summedError [⟨17.0, 17.0, 0.0⟩, ⟨1040.0, 125.0, 915.0⟩] = 915.0 := by
      decide +kernel
    exact ⟨made, (fitness _).mpr (.inl ((scored _).mpr ⟨_, made, by rw [sum]; rfl, sum⟩)),
      report _ made⟩
  · obtain ⟨-, -, -, -, overflow, -, -, fitness, -⟩ := report_agrees ⟨.literal 1.7e308⟩
      Dataset.sample
    have made : (Expr.literal 1.7e308).residuals Dataset.sample =
        .ok [⟨1.7e308, 17.0, 1.7e308⟩, ⟨1.7e308, 125.0, 1.7e308⟩] := by decide +kernel
    have failed := overflow.mpr ⟨_, made, by decide +kernel⟩
    exact ⟨failed, (fitness _).mpr (.inr ⟨⟨_, failed⟩, rfl⟩)⟩
  · obtain ⟨-, -, -, -, -, -, -, -, -, -, -, report, -⟩ := report_agrees
      ⟨.binary .multiply (.literal 1.7e308) (.input "second")⟩ Dataset.sample
    exact report _ (by decide +kernel)

end Formula
end SymbolicRegression
