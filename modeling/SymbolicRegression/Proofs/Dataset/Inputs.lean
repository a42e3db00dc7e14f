import Mathlib.Data.List.Basic
import Mathlib.Data.String.Basic
import Mathlib.Tactic.SplitIfs
import SymbolicRegression.Dataset.Basic

/-!
# The inputs of a dataset

The inputs are the fields of any record but the target, each of them once and in increasing order.
That order is what looking for a name by halving relies on: the name in the middle rules out one of
the halves. So a name is found exactly if it is an input.
-/
namespace SymbolicRegression

theorem mem_placeName {name key : String} {names : List String} :
    name ∈ placeName key names ↔ name = key ∨ name ∈ names := by
  induction names with
  | nil => simp [placeName]
  | cons first rest ih =>
    unfold placeName
    split_ifs with before same
    · simp
    · simp [same]
    · rw [List.mem_cons, ih, List.mem_cons]
      tauto

theorem mem_foldl_placeName {name : String} {names start : List String} :
    name ∈ names.foldl (fun names n => placeName n names) start ↔ name ∈ names ∨ name ∈ start := by
  induction names generalizing start with
  | nil => simp
  | cons first rest ih =>
    rw [List.foldl_cons, ih, mem_placeName, List.mem_cons]
    tauto

/-- The inputs of records are the fields of any of them but the target. -/
theorem mem_inputNames {name target : String} {records : List Record} :
    name ∈ inputNames target records ↔ (∃ r ∈ records, name ∈ r.fields) ∧ name ≠ target := by
  simp [inputNames, mem_foldl_placeName, List.mem_flatMap]

theorem pairwise_placeName {name : String} {names : List String} (h : names.Pairwise (· < ·)) :
    (placeName name names).Pairwise (· < ·) := by
  induction names with
  | nil => exact List.pairwise_singleton _ name
  | cons key rest ih =>
    obtain ⟨first, others⟩ := List.pairwise_cons.mp h
    unfold placeName
    split_ifs with before same
    · refine List.pairwise_cons.mpr ⟨fun other member => ?_, h⟩
      rcases List.mem_cons.mp member with rfl | member
      · exact before
      · exact before.trans (first other member)
    · exact h
    · refine List.pairwise_cons.mpr ⟨fun other member => ?_, ih others⟩
      rcases mem_placeName.mp member with rfl | member
      · exact lt_of_le_of_ne (not_lt.mp before) (Ne.symm same)
      · exact first other member

theorem pairwise_inputNames (target : String) (records : List Record) :
    (inputNames target records).Pairwise (· < ·) := by
  have placed (names start : List String) (h : start.Pairwise (· < ·)) :
      (names.foldl (fun names n => placeName n names) start).Pairwise (· < ·) := by
    induction names generalizing start with
    | nil => exact h
    | cons name names ih => exact ih _ (pairwise_placeName h)
  exact placed _ [] List.Pairwise.nil

/-- The name in the middle divides names in increasing order into two halves. -/
theorem halves {names greater : List String} {middle : String} (h : names.Pairwise (· < ·))
    (half : names.drop (names.length / 2) = middle :: greater) :
    greater.length < names.length - names.length / 2 ∧
    (∀ name, name ∈ names ↔ name ∈ names.take (names.length / 2) ∨ name = middle ∨ name ∈ greater) ∧
    (names.take (names.length / 2)).Pairwise (· < ·) ∧ greater.Pairwise (· < ·) ∧
    (∀ name ∈ names.take (names.length / 2), name < middle) ∧ ∀ name ∈ greater, middle < name := by
  have split := List.take_append_drop (names.length / 2) names
  have size := congrArg List.length half
  rw [List.length_drop, List.length_cons] at size
  rw [half] at split
  rw [← split, List.pairwise_append, List.pairwise_cons] at h
  obtain ⟨lesser, ⟨above, upper⟩, below⟩ := h
  refine ⟨by omega, fun name => ?_, lesser, upper, fun name member => ?_, above⟩
  · conv_lhs => rw [← split, List.mem_append, List.mem_cons]
  · exact below name member middle List.mem_cons_self

/-- In increasing order, a name is found by halving exactly if it is there. -/
theorem isAmong_iff {name : String} {names : List String} (h : names.Pairwise (· < ·)) {turns : ℕ}
    (enough : names.length ≤ turns) : isAmong name turns names = true ↔ name ∈ names := by
  fun_induction isAmong name turns names with
  | case1 names =>
    have : names = [] := List.length_eq_zero_iff.mp (by omega)
    simp [this]
  | case2 turns names half =>
    have : names = [] := by
      rw [List.drop_eq_nil_iff] at half
      exact List.length_eq_zero_iff.mp (by omega)
    simp [this]
  | case3 turns names middle greater half before ih =>
    obtain ⟨size, members, lesser, -, -, above⟩ := halves h half
    -- the middle and whatever is greater are beyond the name
    have beyond : name ∉ greater := fun member => before.not_gt (above name member)
    rw [ih lesser (by rw [List.length_take]; omega), members]
    simp [before.ne, beyond]
  | case4 turns names greater half before =>
    have : name ∈ names.drop (names.length / 2) := by simp [half]
    simp [List.mem_of_mem_drop this]
  | case5 turns names middle greater half before other ih =>
    obtain ⟨size, members, -, upper, below, -⟩ := halves h half
    -- whatever is lesser is below the middle, which does not reach the name
    have short : name ∉ names.take (names.length / 2) := fun member => before (below name member)
    rw [ih upper (by omega), members]
    simp [other, short]

namespace Dataset

/-- The inputs are in increasing order. -/
theorem pairwise_inputs (d : Dataset) : d.inputs.Pairwise (· < ·) := by
  rw [d.inputs_eq]
  exact pairwise_inputNames d.target d.records

/-- The inputs are the fields of any record but the target. -/
theorem mem_inputs_iff {d : Dataset} {name : String} :
    name ∈ d.inputs ↔ (∃ r ∈ d.records, name ∈ r.fields) ∧ name ≠ d.target := by
  rw [d.inputs_eq]
  exact mem_inputNames

theorem ne_target_of_mem_inputs {d : Dataset} {name : String} (h : name ∈ d.inputs) :
    name ≠ d.target := (mem_inputs_iff.mp h).2

/-- What an expression may refer to are the inputs. -/
theorem isInput_iff {d : Dataset} {name : String} : d.isInput name = true ↔ name ∈ d.inputs :=
  isAmong_iff d.pairwise_inputs le_rfl

end Dataset
end SymbolicRegression
