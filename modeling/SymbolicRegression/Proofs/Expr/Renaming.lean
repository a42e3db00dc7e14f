import SymbolicRegression.Formula.Basic
import SymbolicRegression.Proofs.Dataset.Alike

/-!
# Renaming the inputs of an expression

On a dataset that reads alike, the renamed expression has the same value on every record, or the
same failure, and so the same fitness. The names themselves do not matter.
-/
namespace SymbolicRegression

namespace Expr

/-- The expression with other names for its inputs. -/
def rename (s : String → String) : Expr → Expr
  | literal value => literal value
  | input name => input (s name)
  | binary op left right => binary op (rename s left) (rename s right)

variable {s : String → String}

@[simp] theorem size_rename (e : Expr) : (e.rename s).size = e.size := by
  induction e with
  | literal x => rfl
  | input name => rfl
  | binary op left right ihl ihr => rw [rename, size, ihl, ihr, size]

@[simp] theorem fields_rename (e : Expr) : (e.rename s).fields = e.fields.map s := by
  induction e with
  | literal x => rfl
  | input name => rfl
  | binary op left right ihl ihr => rw [rename, fields, ihl, ihr, fields, List.map_append]

@[simp] theorem rename_literalAwayFromZero (e : Expr) :
    e.literalAwayFromZero.rename s = (e.rename s).literalAwayFromZero := by
  cases e <;> rfl

@[simp] theorem rename_combine (op : Operator) (left right : Expr) :
    (combine op left right).rename s = combine op (left.rename s) (right.rename s) := by
  unfold combine
  split <;> simp [rename]

/-- A renamed expression has the same value on a record that reads alike. -/
theorem evaluate_rename {d : Dataset} {r r' : Record}
    (reads : ∀ name ∈ d.inputs, r.get name = r'.get (s name)) {e : Expr} (he : e.Fits d) :
    (e.rename s).evaluate r' = e.evaluate r := by
  induction e with
  | literal x => rfl
  | input name => rw [rename, evaluate, evaluate, reads name (fits_input.mp he)]
  | binary op left right ihl ihr =>
    obtain ⟨hleft, hright⟩ := fits_binary.mp he
    rw [rename, evaluate, evaluate, ihl hleft, ihr hright]

variable {d d' : Dataset}

theorem totalError_rename (h : d.Alike s d') {e : Expr} (he : e.Fits d) :
    (e.rename s).totalError d'.target 0.0 d'.records = e.totalError d.target 0.0 d.records := by
  have same (total : Float) {records records' : List Record}
      (alike : List.Forall₂ (fun r r' : Record => r.get d.target = r'.get d'.target ∧
        ∀ name ∈ d.inputs, r.get name = r'.get (s name)) records records') :
      (e.rename s).totalError d'.target total records' = e.totalError d.target total records := by
    induction alike generalizing total with
    | nil => rfl
    | cons reads _ ih =>
      unfold totalError
      rw [evaluate_rename reads.2 he, reads.1]
      simp only [ih]
  exact same 0.0 h.records

theorem fitness_rename (h : d.Alike s d') {e : Expr} (he : e.Fits d) :
    (e.rename s).fitness d' = e.fitness d := by
  unfold fitness score
  rw [totalError_rename h he]

theorem Fits.rename (h : d.Alike s d') {e : Expr} (he : e.Fits d) : (e.rename s).Fits d' := by
  intro name' member
  rw [fields_rename] at member
  obtain ⟨name, field, rfl⟩ := List.mem_map.mp member
  exact h.maps name (he name field)

end Expr

def Formula.rename (s : String → String) (f : Formula) : Formula := ⟨f.root.rename s⟩

end SymbolicRegression
