import SymbolicRegression.Proofs.Expr.Reader
import SymbolicRegression.Proofs.SavedFormula.Json

/-!
# Every form of a formula reads back

An expression is written alone, as the root of a formula, or inside a saved result, with or without
blanks. Whichever of them is read, it comes back as itself if its literals are finite and its tree
leaves room for the objects around it; otherwise nothing is read. What is asked for by name, and
not as a document of any form, follows the same rule.
-/
namespace SymbolicRegression

open Json Reader

variable {sp : Spacing}

namespace Formula

theorem isPrinted_toValue (f : Formula) : f.toValue.IsPrinted :=
  ⟨Expr.isPrinted_toValue f.root, trivial⟩

/-- One object stands around the tree of a formula. -/
theorem nesting_toValue (f : Formula) : f.toValue.nesting = f.root.depth + 1 := by
  simp only [toValue, Value.nesting, Value.nestingMembers, Expr.nesting_toValue, Nat.max_zero]

/-- The root is read by the reader of expressions. -/
theorem intoSlot_root (depth : ℕ) (text : List Char) :
    Reader.intoSlot .skip (slots (Expr.reader depth)) none "root" (':' :: text) =
      ((fun e => some e) <$> Expr.reader depth) text :=
  bind_of_ok (colon_run text)

theorem intoSlot_root_of_ok {depth : ℕ} {text rest : List Char} {e : Expr}
    (read : Expr.reader depth text = .ok (e, rest)) :
    Reader.intoSlot .skip (slots (Expr.reader depth)) none "root" (':' :: text) =
      .ok (some e, rest) := by
  rw [intoSlot_root, map_eq_pure_bind]
  exact bind_of_ok read

theorem intoSlot_root_of_error {depth : ℕ} {text : List Char} {fault : Fault}
    (read : Expr.reader depth text = .error fault) :
    Reader.intoSlot .skip (slots (Expr.reader depth)) none "root" (':' :: text) =
      .error fault := by
  rw [intoSlot_root, map_eq_pure_bind]
  exact bind_of_error read

theorem reader_of_object {blanks : List Char} (hb : Blank blanks) (depth : ℕ)
    (rest : List Char) :
    reader (depth + 1) (blanks ++ '\x7b' :: rest) =
      members (Reader.intoSlot .skip (slots (Expr.reader depth))) none form.check rest := by
  rw [reader, record]
  refine (bind_of_ok (peek_of_blank hb (by decide) rest)).trans ?_
  exact bind_of_ok (advance_run '\x7b' rest)

theorem reader_zero {blanks : List Char} (hb : Blank blanks) (rest : List Char) :
    reader 0 (blanks ++ '\x7b' :: rest) = .error (.grammar .tooDeep) := by
  rw [reader, record]
  refine (bind_of_ok (peek_of_blank hb (by decide) rest)).trans ?_
  rfl

/-- A written formula is read straight from its text as what its value is in memory, unless the tree
is nested too deeply. -/
theorem reader_put (hsp : sp.IsBlank) (depth level : ℕ) {blanks : List Char} (hb : Blank blanks)
    (rest : List Char) (f : Formula) :
    reader depth (blanks ++ f.toValue.put sp level rest) =
      Value.taken (f.root.depth + 1) depth (ofValue f.toValue) rest := by
  rw [ofValue_toValue_eq, toValue, Value.put]
  cases depth with
  | zero => exact reader_zero hb _
  | succ depth =>
    refine (reader_of_object hb depth _).trans ?_
    have room := Value.length_lt_object sp level rest "root" f.root.toValue []
    have first := moreMembers_first (hsp.line (level + 1))
    have root := Expr.reader_put hsp depth (level + 1) hsp.gap
      (Value.putMembers sp (level + 1) [] (sp.line level ++ '\x7d' :: rest)) f.root
    unfold Value.taken at root ⊢
    simp only [Nat.succ_le_succ_iff]
    split_ifs at root ⊢ with fits
    · cases held : Expr.ofValue f.root.toValue with
      | ok e =>
        rw [held] at root
        change members _ _ _ _ = (fun a => (a, rest)) <$> form.check (some e)
        refine members_of_ok form.check ?_
        refine (foldMembers_step (first _)).trans ?_
        refine (bind_of_ok (intoSlot_root_of_ok root)).trans ?_
        exact foldMembers_end room false (some e) (hsp.line level) rest
      | error fault =>
        rw [held] at root
        refine members_of_error form.check ?_
        refine (foldMembers_step (first _)).trans ?_
        exact bind_of_error (intoSlot_root_of_error root)
    · refine members_of_error form.check ?_
      refine (foldMembers_step (first _)).trans ?_
      exact bind_of_error (intoSlot_root_of_error root)

/-- What the text of a formula is read as by itself. -/
theorem read_render (hsp : sp.IsBlank) (f : Formula) :
    read (f.toValue.render sp) =
      if f.root.depth + 1 ≤ depthLimit then ofValue f.toValue
      else .error (.grammar .tooDeep) := by
  refine Value.run_of_taken ?_
  rw [Value.render, String.toList_ofList]
  exact reader_put hsp depthLimit 0 blank_nil [] f

end Formula

/-- Whether reading gives `a` under a condition, and otherwise nothing. -/
def ReadsExactly {α : Type} (condition : Prop) (result : Except Fault α) (a : α) : Prop :=
  (result = .ok a ↔ condition) ∧ (¬condition → ∃ fault, result = .error fault)

/-- What is held by a value is read from its text if there is room for its nesting. -/
theorem readsExactly_of_held {α : Type} {finite : Prop} {levels room : ℕ} {result : Except Fault α}
    {a : α} (ok : finite → result = .ok a) (failed : ¬finite → ∃ fault, result = .error fault)
    {depth limit : ℕ} (fits : levels ≤ room ↔ depth ≤ limit) :
    ReadsExactly (finite ∧ depth ≤ limit)
      (if levels ≤ room then result else .error (.grammar .tooDeep)) a := by
  unfold ReadsExactly
  by_cases room_left : levels ≤ room
  · have shallow := fits.mp room_left
    rw [if_pos room_left]
    by_cases hfinite : finite
    · exact ⟨iff_of_true (ok hfinite) ⟨hfinite, shallow⟩, fun h => absurd ⟨hfinite, shallow⟩ h⟩
    · obtain ⟨fault, failure⟩ := failed hfinite
      rw [failure]
      exact ⟨iff_of_false nofun fun h => hfinite h.1, fun _ => ⟨fault, rfl⟩⟩
  · rw [if_neg room_left]
    exact ⟨iff_of_false nofun fun h => room_left (fits.mpr h.2), fun _ => ⟨_, rfl⟩⟩

/-- Every written form of an expression, with or without blanks, reads back as itself exactly if
the literals are finite and the tree is at most 127 levels deep, less one for a formula around it
and one more for a saved result around that; in all other cases nothing is read. The same holds of
what is read as an expression, or as a formula, by itself. -/
theorem written_forms_read_back (write : Value → String)
    (hwrite : write = Value.compact ∨ write = Value.indented) (e : Expr) :
    ReadsExactly (e.HasFiniteLiterals ∧ e.depth ≤ 127)
      (FormulaDocument.read (write e.toValue)) (.expr e) ∧
    ReadsExactly (e.HasFiniteLiterals ∧ e.depth ≤ 126)
      (FormulaDocument.read (write (⟨e⟩ : Formula).toValue)) (.formula ⟨e⟩) ∧
    (∀ s : SavedFormula, s.formula = ⟨e⟩ → s.fitness.isFinite = true →
      Instant.ofText? s.solvedAt.render = some s.solvedAt →
        ReadsExactly (e.HasFiniteLiterals ∧ e.depth ≤ 125)
          (FormulaDocument.read (write s.toValue)) (.saved s)) ∧
    ReadsExactly (e.HasFiniteLiterals ∧ e.depth ≤ 127) (Expr.read (write e.toValue)) e ∧
    ReadsExactly (e.HasFiniteLiterals ∧ e.depth ≤ 126)
      (Formula.read (write (⟨e⟩ : Formula).toValue)) ⟨e⟩ := by
  obtain ⟨sp, hsp, rfl⟩ : ∃ sp : Spacing, sp.IsBlank ∧ write = Value.render sp := by
    rcases hwrite with rfl | rfl
    · exact ⟨_, isBlank_compact, rfl⟩
    · exact ⟨_, isBlank_indented, rfl⟩
  refine ⟨?_, ?_, fun s eq hfitness ht => ?_, ?_, ?_⟩
  · rw [FormulaDocument.read_render hsp e.isPrinted_toValue, e.nesting_toValue]
    exact readsExactly_of_held FormulaDocument.ofValue_expr
      (fun h => ⟨_, FormulaDocument.ofValue_expr_of_not_finite h⟩) Iff.rfl
  · rw [FormulaDocument.read_render hsp (Formula.isPrinted_toValue _), Formula.nesting_toValue]
    exact readsExactly_of_held (FormulaDocument.ofValue_formula (f := ⟨e⟩))
      (fun h => ⟨_, FormulaDocument.ofValue_formula_of_not_finite h⟩) Nat.succ_le_succ_iff
  · obtain rfl : s.formula.root = e := congrArg Formula.root eq
    rw [FormulaDocument.read_render hsp s.isPrinted_toValue, s.nesting_toValue]
    exact readsExactly_of_held (FormulaDocument.ofValue_saved ht hfitness)
      (fun h => ⟨_, FormulaDocument.ofValue_saved_of_not_finite ht hfitness h⟩)
      (by unfold depthLimit; omega)
  · rw [Expr.read_render hsp e]
    exact readsExactly_of_held Expr.ofValue_toValue Expr.ofValue_toValue_of_not_finite Iff.rfl
  · rw [Formula.read_render hsp]
    exact readsExactly_of_held (Formula.ofValue_toValue (f := ⟨e⟩))
      Formula.ofValue_toValue_of_not_finite Nat.succ_le_succ_iff

/-- A difference of a negative zero and an input with quotes in its name reads back. -/
theorem written_forms_read_back_sample :
    let e : Expr := .binary .subtract (.literal (-0.0)) (.input "a \"b\"\n")
    let s : SavedFormula := ⟨⟨0, 0⟩, 7, 3, 1, 0.25, 3, ⟨e⟩⟩
    FormulaDocument.read (Value.compact e.toValue) = .ok (.expr e) ∧
      FormulaDocument.read (Value.compact s.toValue) = .ok (.saved s) ∧
      Expr.read (Value.compact e.toValue) = .ok e := by
  intro e s
  have finite : e.HasFiniteLiterals := by decide
  have instant : Instant.ofText? s.solvedAt.render = some s.solvedAt := by decide
  obtain ⟨expr, -, saved, alone, -⟩ := written_forms_read_back Value.compact (.inl rfl) e
  exact ⟨expr.1.mpr ⟨finite, by decide⟩,
    (saved s rfl (by decide) instant).1.mpr ⟨finite, by decide⟩,
    alone.1.mpr ⟨finite, by decide⟩⟩

end SymbolicRegression
