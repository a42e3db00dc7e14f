import SymbolicRegression.Proofs.Expr.Reading
import SymbolicRegression.Proofs.Search.Invariant

/-!
# Predictions without the target

A formula that could look at the target would predict it perfectly, to no use. The check of an
expression keeps such formulas out, and no generation of a climb lets one in.
-/
namespace SymbolicRegression.Search.Climb

variable {σ : Type} [WordSource σ]

/-- The best formula of a climb never distinguishes records that differ at the target only. -/
theorem evaluate_best_set_target {d : Dataset} {config : Config} {source : σ}
    {first : Option Formula} {climb last : Climb σ} {n : ℕ} {outcomes : List Outcome}
    (started : start d config source first = .ok climb)
    (run : climb.steps n = .ok (last, outcomes)) (r : Record) (value : Float) :
    last.best.formula.root.evaluate (r.set d.target value) =
      last.best.formula.root.evaluate r :=
  ((invariant_of_start started).steps run).best.fits.evaluate_set_target r value

/-- No prediction reads the target. The inputs of a dataset are in strictly increasing order, as
looking them up by halves requires. The check of an expression succeeds exactly if every field at
its leaves is an input, and otherwise tells of the first field from the left that is not, and
whether it is the target. An expression that passes the check cannot distinguish records that agree
on the inputs. The best formula of a climb, however it was started and however many generations it
has been through, evaluates to the same whatever number stands at the target. -/
theorem predictions_ignore_target (d : Dataset) (e : Expr) :
    d.inputs.Pairwise (· < ·) ∧
    (e.validate d = .ok () ↔ ∀ name ∈ e.fields, name ∈ d.inputs) ∧
    (∀ misfit, e.validate d = .error misfit ↔ ∃ before name after,
      e.fields = before ++ name :: after ∧ (∀ other ∈ before, other ∈ d.inputs) ∧
        name ∉ d.inputs ∧
        misfit = if name = d.target then .targetField name else .unknownField name) ∧
    (e.validate d = .ok () → ∀ r r' : Record,
      (∀ name ∈ d.inputs, r.get name = r'.get name) → e.evaluate r = e.evaluate r') ∧
    (∀ (σ : Type) [WordSource σ] (config : Config) (source : σ) (first : Option Formula)
      (climb last : Climb σ) (n : ℕ) (outcomes : List Outcome),
      start d config source first = .ok climb → climb.steps n = .ok (last, outcomes) →
      ∀ (r : Record) (value : Float),
        last.best.formula.root.evaluate (r.set d.target value) =
          last.best.formula.root.evaluate r) := by
  refine ⟨d.pairwise_inputs, Expr.validate_eq_ok_iff, fun misfit => Expr.validate_eq_error_iff,
    ?_, ?_⟩
  · intro valid r r' agree
    exact (Expr.validate_eq_ok_iff.mp valid).evaluate_eq agree
  · intro σ _ config source first climb last n outcomes started run
    exact evaluate_best_set_target started run

/-- On the built-in dataset, a ratio of inputs passes the check and has the same value whatever
number stands at the target; a ratio to the target does not pass, for the target comes before the
unknown field; and the best formula after two generations on nothing but zeros does not read the
target either. -/
theorem predictions_ignore_target_sample :
    (Expr.binary .divide (.input "first") (.input "second")).validate Dataset.sample = .ok () ∧
    (∀ r ∈ Dataset.sample.records, ∀ name ∈ Dataset.sample.inputs,
      r.get name = (r.set "target" 0.0).get name) ∧
    (∀ r ∈ Dataset.sample.records,
      (Expr.binary .divide (.input "first") (.input "second")).evaluate r =
        (Expr.binary .divide (.input "first") (.input "second")).evaluate
          (r.set "target" 0.0)) ∧
    (Expr.binary .divide (.input "first")
      (.binary .add (.input "target") (.input "fourth"))).validate Dataset.sample =
        .error (.targetField "target") ∧
    ∃ climb last, start Dataset.sample Config.standard (Script.ofWords #[])
        (some ⟨.input "first"⟩) = .ok climb ∧
      climb.steps 2 = .ok (last, [.accepted, .rejected]) ∧
      ∀ (r : Record) (value : Float),
        last.best.formula.root.evaluate (r.set "target" value) =
          last.best.formula.root.evaluate r := by
  have valid : (Expr.binary .divide (.input "first") (.input "second")).validate
      Dataset.sample = .ok () := by decide
  have agree : ∀ r ∈ Dataset.sample.records, ∀ name ∈ Dataset.sample.inputs,
      r.get name = (r.set "target" 0.0).get name := by decide +kernel
  obtain ⟨-, -, -, same, never⟩ := predictions_ignore_target Dataset.sample
    (.binary .divide (.input "first") (.input "second"))
  obtain ⟨-, -, reason, -, -⟩ := predictions_ignore_target Dataset.sample
    (.binary .divide (.input "first") (.binary .add (.input "target") (.input "fourth")))
  refine ⟨valid, agree, fun r member => same valid _ _ (agree r member), ?_, ?_⟩
  · refine (reason _).mpr ⟨["first"], "target", ["fourth"], rfl, ?_, ?_, ?_⟩
    · decide
    · decide
    · rfl
  · obtain ⟨climb, last, started, run⟩ := steps_of_zeros
    exact ⟨climb, last, started, run, never Script Config.standard _ _ climb last 2 _ started run⟩

end SymbolicRegression.Search.Climb
