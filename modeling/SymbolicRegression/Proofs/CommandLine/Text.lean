import SymbolicRegression.Proofs.CommandLine.Solve
import SymbolicRegression.Proofs.Expr.Rendering

/-!
# What the text of a saved formula tells

The file with the text of a result holds the text of its formula and nothing else but a line break.
Since expressions with the same text are the same, the file determines the formula.
-/
namespace SymbolicRegression.CommandLine

/-- Expressions whose names have no closing brace are the same if their texts are, with the very
same numbers as literals. So the formulas of two results that have been saved are the same if the
files with their texts are, whatever else was saved, and wherever. -/
theorem text_determines_formula :
    (∀ e e' : Expr, e.HasOpenNames → e'.HasOpenNames → e.render = e'.render → e = e') ∧
    ∀ (options options' : SolveOptions) (saved saved' : SavedFormula) (w w' : Surroundings),
      isStream options.textOutput = false → isStream options'.textOutput = false →
      (save (m := InFolder) options saved w).1 = .ok () →
      (save (m := InFolder) options' saved' w').1 = .ok () →
      saved.formula.root.HasOpenNames → saved'.formula.root.HasOpenNames →
      (save (m := InFolder) options saved w).2.folder.readText options.textOutput =
        (save (m := InFolder) options' saved' w').2.folder.readText options'.textOutput →
      saved.formula = saved'.formula := by
  refine ⟨fun e e' he he' => (Expr.render_inj he he').mp, ?_⟩
  intro options options' saved saved' w w' text text' done done' open_ open_' same
  rw [readText_textOutput_of_save text done, readText_textOutput_of_save text' done'] at same
  have rendered : saved.formula.root.render = saved'.formula.root.render :=
    (String.append_left_inj "\n").mp (Except.ok.inj same)
  exact congrArg Formula.mk ((Expr.render_inj open_ open_').mp rendered)

/-- A result whose formula takes a number from a field, whose name looks like more of a formula. -/
def lookalike (x : Float) : SavedFormula where
  solvedAt := ⟨0, 0⟩
  seed := 0
  generations := 1
  successes := 0
  fitness := 0
  size := 3
  formula := ⟨.binary .subtract (.input "a) - (\x7bb") (.literal x)⟩

theorem save_lookalike (x : Float) :
    (save (m := InFolder) oneGeneration (lookalike x) emptyPlace).1 = .ok () := by
  have json : isStream oneGeneration.jsonOutput = false := by cbv
  have text : isStream oneGeneration.textOutput = false := by cbv
  have place : emptyPlace.folder.target "a" = .ok ["a"] := by cbv
  have place' (content : ByteArray) :
      (emptyPlace.folder.put ["a"] content).target "b" = .ok ["b"] := by cbv
  exact save_eq_ok json text place place'

/-- Even the two zeros, behind a minus sign, make different texts and different files. -/
theorem text_determines_formula_zeros :
    (lookalike 0.0).formula.render ≠ (lookalike (-0.0)).formula.render ∧
      (save (m := InFolder) oneGeneration (lookalike 0.0) emptyPlace).2.folder.readText "b" ≠
        (save (m := InFolder) oneGeneration (lookalike (-0.0)) emptyPlace).2.folder.readText "b" := by
  have text : isStream oneGeneration.textOutput = false := by cbv
  have open_ (x : Float) : (lookalike x).formula.root.HasOpenNames := by
    intro name member
    obtain rfl : name = "a) - (\x7bb" := by simpa [lookalike, Expr.fields] using member
    decide
  have distinct : (0.0 : Float) ≠ -0.0 := by decide
  obtain ⟨expressions, files⟩ := text_determines_formula
  constructor
  · intro same
    have equal := expressions _ _ (open_ 0.0) (open_ (-0.0)) same
    exact distinct (by simpa [lookalike] using equal)
  · intro same
    have equal := files oneGeneration oneGeneration _ _ _ _ text text (save_lookalike 0.0)
      (save_lookalike (-0.0)) (open_ 0.0) (open_ (-0.0)) same
    exact distinct (by simpa [lookalike] using equal)

end SymbolicRegression.CommandLine
