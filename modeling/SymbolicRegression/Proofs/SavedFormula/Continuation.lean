import SymbolicRegression.CommandLine.Solve
import SymbolicRegression.Proofs.Expr.Fitness
import SymbolicRegression.Proofs.SavedFormula.Json
import SymbolicRegression.Proofs.Search.Invariant

/-!
# Continuing from a saved search

The document that a search is saved as is meant to be the start of the next search. It is read back
as what was saved if the literals of the best formula are finite and its tree is at most 125 levels
deep. Neither is seen to by the search: mutation may move a literal beyond the finite numbers, and
a formula alone may be two levels deeper than one inside a saved result.
-/
namespace SymbolicRegression

open Search

namespace Expr

/-- The sum that comes from adding an input so many times to itself. -/
def chain : ℕ → Expr
  | 0 => .input "first"
  | n + 1 => .binary .add (chain n) (.input "first")

theorem depth_chain (n : ℕ) : (chain n).depth = n + 1 := by
  induction n with
  | zero => rfl
  | succ n ih =>
    simp only [chain, depth, ih]
    omega

theorem hasFiniteLiterals_chain (n : ℕ) : (chain n).HasFiniteLiterals := by
  induction n with
  | zero => exact hasFiniteLiterals_input "first"
  | succ n ih => exact hasFiniteLiterals_binary.mpr ⟨ih, hasFiniteLiterals_input "first"⟩

theorem fits_chain (n : ℕ) : (chain n).Fits Dataset.sample := by
  have leaf : (input "first").Fits Dataset.sample := fits_input.mpr (by decide)
  induction n with
  | zero => exact leaf
  | succ n ih => exact fits_binary.mpr ⟨ih, leaf⟩

end Expr

namespace Search.Climb

variable {σ : Type}

/-- The result of a climb, saved at an instant, as a document. -/
def document (t : Instant) (seed : UInt64) (climb : Climb σ) : String :=
  (CommandLine.savedFormula t seed climb).toValue.indented

/-- What the document of a climb is read as, wherever the best candidate has its true fitness. -/
theorem Invariant.read_document {d : Dataset} {config : Config} {outcomes : List Outcome}
    {climb : Climb σ} (h : climb.Invariant d config outcomes) {t : Instant}
    (ht : Instant.ofText? t.render = some t) (seed : UInt64) :
    FormulaDocument.read (document t seed climb) =
      if climb.best.formula.root.depth + 2 ≤ Json.depthLimit then
        if climb.best.formula.root.HasFiniteLiterals then
          .ok (.saved (CommandLine.savedFormula t seed climb))
        else .error (.content (.noVariant "FormulaFile"))
      else .error (.grammar .tooDeep) := by
  refine FormulaDocument.read_saved ht ?_
  change climb.best.fitness.isFinite = true
  rw [h.best.fitness]
  exact climb.best.formula.root.isFinite_fitness d

variable [WordSource σ]

/-- However a climb was started and however many generations it has been through, its document is
read back as the very result that was saved exactly if all literals of the best formula are finite
and its tree is at most 125 levels deep; otherwise the document cannot be read at all. -/
theorem read_document_iff (d : Dataset) (config : Config) (source : σ) (first : Option Formula)
    (t : Instant) (seed : UInt64) (hconfig : config.validate = .ok ())
    (hfirst : ∀ f, first = some f → f.validate d = .ok ())
    (ht : Instant.ofText? t.render = some t) :
    (first = none ∧ ∃ e, start d config source first = .error (.draw e)) ∨
      ∃ climb, start d config source first = .ok climb ∧
        ∀ n climb' outcomes, climb.steps n = .ok (climb', outcomes) →
          (FormulaDocument.read (document t seed climb') =
              .ok (.saved (CommandLine.savedFormula t seed climb')) ↔
            climb'.best.formula.root.HasFiniteLiterals ∧
              climb'.best.formula.root.depth ≤ 125) ∧
          (¬(climb'.best.formula.root.HasFiniteLiterals ∧
              climb'.best.formula.root.depth ≤ 125) →
            ∃ fault, FormulaDocument.read (document t seed climb') = .error fault) := by
  obtain failed | ⟨climb, started, initial⟩ := start_spec source hconfig hfirst
  · exact .inl failed
  refine .inr ⟨climb, started, fun n climb' outcomes run => ?_⟩
  rw [(initial.steps run).read_document ht seed]
  have room : climb'.best.formula.root.depth + 2 ≤ Json.depthLimit ↔
      climb'.best.formula.root.depth ≤ 125 := by
    unfold Json.depthLimit
    omega
  rw [← room]
  split_ifs with fits finite
  · exact ⟨iff_of_true rfl ⟨finite, fits⟩, fun h => absurd ⟨finite, fits⟩ h⟩
  · exact ⟨iff_of_false not_false fun h => finite h.1, fun _ => ⟨_, rfl⟩⟩
  · exact ⟨iff_of_false not_false fun h => fits h.2, fun _ => ⟨_, rfl⟩⟩

/-- A single input is a start that can be continued from at once. -/
theorem read_document_iff_input :
    Config.standard.validate = .ok () ∧
      (⟨.input "first"⟩ : Formula).validate Dataset.sample = .ok () ∧
      Instant.ofText? (Instant.render ⟨0, 0⟩) = some ⟨0, 0⟩ ∧
      ∃ climb, start Dataset.sample Config.standard (Script.ofWords #[]) (some ⟨.input "first"⟩)
          = .ok climb ∧
        FormulaDocument.read (document ⟨0, 0⟩ 7 climb) =
          .ok (.saved (CommandLine.savedFormula ⟨0, 0⟩ 7 climb)) := by
  have config : Config.standard.validate = .ok () := by decide
  have formula : (⟨.input "first"⟩ : Formula).validate Dataset.sample = .ok () := by
    decide
  have instant : Instant.ofText? (Instant.render ⟨0, 0⟩) = some ⟨0, 0⟩ := by decide
  refine ⟨config, formula, instant, ?_⟩
  obtain ⟨absent, -⟩ | ⟨climb, started, all⟩ :=
    read_document_iff Dataset.sample Config.standard (Script.ofWords #[]) (some ⟨.input "first"⟩)
      ⟨0, 0⟩ 7 config (fun f hf => by cases hf; exact formula) instant
  · cases absent
  refine ⟨climb, started, (all 0 climb [] rfl).1.mpr ?_⟩
  rw [best_of_start_some started]
  exact ⟨Expr.hasFiniteLiterals_input "first", by decide⟩

/-- A sum of 126 levels can be read from its own document and fits the dataset, but the result of a
search that starts from it and finds nothing better cannot be read. -/
theorem chain_is_lost :
    Config.standard.validate = .ok () ∧
      FormulaDocument.read (Expr.chain 125).toValue.indented = .ok (.expr (.chain 125)) ∧
      (⟨.chain 125⟩ : Formula).validate Dataset.sample = .ok () ∧
      ∃ climb, start Dataset.sample Config.standard (Script.ofWords #[]) (some ⟨.chain 125⟩)
          = .ok climb ∧
        climb.steps 0 = .ok (climb, []) ∧
        ∀ t seed, FormulaDocument.read (document t seed climb) = .error (.grammar .tooDeep) := by
  have config : Config.standard.validate = .ok () := by decide
  have formula : (⟨.chain 125⟩ : Formula).validate Dataset.sample = .ok () :=
    Expr.validate_eq_ok_iff.mpr (Expr.fits_chain 125)
  have depth := Expr.depth_chain 125
  refine ⟨config, FormulaDocument.read_expr (Expr.hasFiniteLiterals_chain 125) ?_, formula, ?_⟩
  · rw [depth]
    decide
  have given (f : Formula) (hf : some ⟨.chain 125⟩ = some f) :
      f.validate Dataset.sample = .ok () := by
    cases hf
    exact formula
  obtain ⟨absent, -⟩ | ⟨climb, started, -⟩ := start_spec (Script.ofWords #[]) config given
  · cases absent
  refine ⟨climb, started, rfl, fun t seed => ?_⟩
  have deep : ¬(CommandLine.savedFormula t seed climb).toValue.nesting ≤ Json.depthLimit := by
    rw [SavedFormula.nesting_toValue, CommandLine.savedFormula, best_of_start_some started]
    change ¬(Expr.chain 125).depth + 2 ≤ 127
    rw [depth]
    decide
  rw [document, FormulaDocument.read_indented (SavedFormula.isPrinted_toValue _), if_neg deep]

end Search.Climb
end SymbolicRegression
