import SymbolicRegression.Proofs.Expr.Json
import SymbolicRegression.SavedFormula

/-!
# Saved formulas read back

The document of a saved formula is read back as the same saved formula exactly if its fitness and
all literals of its formula are finite, and the tree of the formula leaves room for the two objects
around it within the nesting that a document may have. Otherwise the document cannot be read at all.
-/
namespace SymbolicRegression

open Json

namespace Formula

theorem ofValue_toValue_eq (f : Formula) :
    ofValue f.toValue = Formula.mk <$> Expr.ofValue f.root.toValue := by
  have slot : ofValue f.toValue
      = ((fun e => some e) <$> Expr.ofValue f.root.toValue >>= fun acc => .ok acc) >>= form.check :=
    rfl
  rw [slot]
  cases Expr.ofValue f.root.toValue <;> rfl

theorem ofValue_toValue {f : Formula} (h : f.root.HasFiniteLiterals) :
    ofValue f.toValue = .ok f := by
  rw [ofValue_toValue_eq, Expr.ofValue_toValue h]
  rfl

theorem ofValue_toValue_of_not_finite {f : Formula} (h : ¬f.root.HasFiniteLiterals) :
    ∃ fault, ofValue f.toValue = .error fault := by
  obtain ⟨fault, failed⟩ := Expr.ofValue_toValue_of_not_finite h
  refine ⟨fault, ?_⟩
  rw [ofValue_toValue_eq, failed]
  rfl

end Formula

namespace SavedFormula

/-- The fields of a saved formula, read from memory. -/
abbrev heldSlots : List (Slot (Held Value) Parts) :=
  slots instantOfValue Value.asWord Value.asFloat Formula.ofValue

/-- What has been gathered once all fields but the formula have been read. -/
def front (s : SavedFormula) : Parts :=
  ⟨some s.solvedAt, some s.seed, some s.generations, some s.successes, some s.fitness,
    some s.size, none⟩

/-- Of the fields in front of the formula only the instant may fail to be read. -/
theorem gather_front {s : SavedFormula}
    (ht : Instant.ofText? s.solvedAt.render = some s.solvedAt) (members : List (String × Value)) :
    Form.gather .skip heldSlots form.empty
        (("solved_at", .text s.solvedAt.render) :: ("seed", .ofWord s.seed) ::
          ("generations", .ofWord s.generations) :: ("successes", .ofWord s.successes) ::
          ("fitness", .number (.real s.fitness)) :: ("size", .ofWord s.size) :: members)
      = Form.gather .skip heldSlots s.front members := by
  have instant : instantOfValue (.text s.solvedAt.render) = .ok s.solvedAt := by
    change instantOf s.solvedAt.render = _
    rw [instantOf, ht]
  rw [Form.gather]
  have first : Form.intoSlot .skip heldSlots form.empty "solved_at" (.text s.solvedAt.render)
      = (fun t => { form.empty with solvedAt := some t }) <$>
        instantOfValue (.text s.solvedAt.render) := rfl
  rw [first, instant]
  rfl

/-- The formula is read last, when all other fields are there already. -/
theorem ofValue_toValue_eq {s : SavedFormula}
    (ht : Instant.ofText? s.solvedAt.render = some s.solvedAt)
    (hfitness : s.fitness.isFinite = true) :
    ofValue s.toValue = (fun formula => { s with formula }) <$>
      Formula.ofValue s.formula.toValue := by
  have fitness : Value.ofFloat s.fitness = .number (.real s.fitness) := if_pos hfitness
  rw [toValue, fitness]
  change (Form.gather .skip heldSlots form.empty _ >>= form.check) = _
  rw [gather_front ht]
  have last : Form.gather .skip heldSlots s.front [("formula", s.formula.toValue)]
      = ((fun f => { s.front with formula := some f }) <$>
        Formula.ofValue s.formula.toValue) >>= .ok := rfl
  rw [last]
  cases Formula.ofValue s.formula.toValue <;> rfl

theorem isPrinted_toValue (s : SavedFormula) : s.toValue.IsPrinted :=
  ⟨trivial, trivial, trivial, trivial, Value.isPrinted_ofFloat s.fitness, trivial,
    ⟨Expr.isPrinted_toValue s.formula.root, trivial⟩, trivial⟩

/-- Two objects stand around the tree of the formula. -/
theorem nesting_toValue (s : SavedFormula) : s.toValue.nesting = s.formula.root.depth + 2 := by
  simp only [toValue, Formula.toValue, Value.nesting, Value.nestingMembers, Value.ofWord,
    Value.nesting_ofFloat, Expr.nesting_toValue]
  omega

end SavedFormula

namespace FormulaDocument

/-- A saved formula has no root, as a formula has. -/
theorem formula_ofValue_saved (s : SavedFormula) :
    Formula.ofValue s.toValue = .error (.content (.missingField "root")) := rfl

/-- A saved formula has no type, as an expression has. -/
theorem expr_ofValue_saved (s : SavedFormula) :
    Expr.ofValue s.toValue = .error (.content (.missingField "type")) := by
  rw [SavedFormula.toValue, Expr.ofValue]
  simp only [Expr.memberParts]
  rfl

theorem ofValue_saved {s : SavedFormula}
    (ht : Instant.ofText? s.solvedAt.render = some s.solvedAt)
    (hfitness : s.fitness.isFinite = true) (h : s.formula.root.HasFiniteLiterals) :
    ofValue s.toValue = .ok (saved s) := by
  rw [ofValue, SavedFormula.ofValue_toValue_eq ht hfitness, Formula.ofValue_toValue h]
  rfl

/-- With a literal that is not finite, the record fits none of the forms. -/
theorem ofValue_saved_of_not_finite {s : SavedFormula}
    (ht : Instant.ofText? s.solvedAt.render = some s.solvedAt)
    (hfitness : s.fitness.isFinite = true) (h : ¬s.formula.root.HasFiniteLiterals) :
    ofValue s.toValue = .error (.content (.noVariant "FormulaFile")) := by
  obtain ⟨fault, failed⟩ := Formula.ofValue_toValue_of_not_finite h
  rw [ofValue, SavedFormula.ofValue_toValue_eq ht hfitness, failed, formula_ofValue_saved,
    expr_ofValue_saved]
  rfl

/-- A formula has no time of a result. -/
theorem saved_ofValue_formula (f : Formula) :
    SavedFormula.ofValue f.toValue = .error (.content (.missingField "solved_at")) := rfl

/-- A formula has no type, as an expression has. -/
theorem expr_ofValue_formula (f : Formula) :
    Expr.ofValue f.toValue = .error (.content (.missingField "type")) := by
  rw [Formula.toValue, Expr.ofValue]
  simp only [Expr.memberParts]
  rfl

theorem ofValue_formula {f : Formula} (h : f.root.HasFiniteLiterals) :
    ofValue f.toValue = .ok (formula f) := by
  rw [ofValue, saved_ofValue_formula, Formula.ofValue_toValue h]

theorem ofValue_formula_of_not_finite {f : Formula} (h : ¬f.root.HasFiniteLiterals) :
    ofValue f.toValue = .error (.content (.noVariant "FormulaFile")) := by
  obtain ⟨fault, failed⟩ := Formula.ofValue_toValue_of_not_finite h
  rw [ofValue, saved_ofValue_formula, failed, expr_ofValue_formula]

/-- An expression has no time of a result. -/
theorem saved_ofValue_expr (e : Expr) :
    SavedFormula.ofValue e.toValue = .error (.content (.missingField "solved_at")) := by
  cases e <;> rfl

/-- An expression has no root, as a formula has. -/
theorem formula_ofValue_expr (e : Expr) :
    Formula.ofValue e.toValue = .error (.content (.missingField "root")) := by
  cases e <;> rfl

theorem ofValue_expr {e : Expr} (h : e.HasFiniteLiterals) : ofValue e.toValue = .ok (expr e) := by
  rw [ofValue, saved_ofValue_expr, formula_ofValue_expr, Expr.ofValue_toValue h]

theorem ofValue_expr_of_not_finite {e : Expr} (h : ¬e.HasFiniteLiterals) :
    ofValue e.toValue = .error (.content (.noVariant "FormulaFile")) := by
  obtain ⟨fault, failed⟩ := Expr.ofValue_toValue_of_not_finite h
  rw [ofValue, saved_ofValue_expr, formula_ofValue_expr, failed]

/-- A printed value is held in memory whole before it is taken apart, so one that is nested too
deeply is refused whatever it holds. -/
theorem read_render {sp : Spacing} (hsp : sp.IsBlank) {v : Value} (h : v.IsPrinted) :
    read (v.render sp) =
      if v.nesting ≤ depthLimit then ofValue v else .error (.grammar .tooDeep) := by
  have whole : Reader.value depthLimit (v.render sp).toList =
      Value.within v.nesting depthLimit (v, []) := Value.read_render hsp h depthLimit
  refine Value.run_of_taken ?_
  unfold Value.within at whole
  unfold Value.taken
  split_ifs at whole ⊢ with fits
  · rw [reader, Reader.bind_of_ok whole]
    cases ofValue v <;> rfl
  · rw [reader, Reader.bind_of_error whole]

theorem read_indented {v : Value} (h : v.IsPrinted) :
    read v.indented =
      if v.nesting ≤ depthLimit then ofValue v else .error (.grammar .tooDeep) :=
  read_render isBlank_indented h

/-- What the text of a saved formula is read as. -/
theorem read_saved {s : SavedFormula} (ht : Instant.ofText? s.solvedAt.render = some s.solvedAt)
    (hfitness : s.fitness.isFinite = true) :
    read s.toValue.indented =
      if s.formula.root.depth + 2 ≤ depthLimit then
        if s.formula.root.HasFiniteLiterals then .ok (saved s)
        else .error (.content (.noVariant "FormulaFile"))
      else .error (.grammar .tooDeep) := by
  rw [read_indented s.isPrinted_toValue, s.nesting_toValue]
  split_ifs with fits finite
  · exact ofValue_saved ht hfitness finite
  · exact ofValue_saved_of_not_finite ht hfitness finite
  · rfl

/-- The text of an expression alone is read as long as the tree itself is not nested too deeply. -/
theorem read_expr {e : Expr} (h : e.HasFiniteLiterals) (hdepth : e.depth ≤ depthLimit) :
    read e.toValue.indented = .ok (expr e) := by
  rw [read_indented e.isPrinted_toValue, e.nesting_toValue, if_pos hdepth, ofValue_expr h]

end FormulaDocument
end SymbolicRegression
