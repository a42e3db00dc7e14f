import Mathlib.Data.List.Sort
import SymbolicRegression.Proofs.Dataset.Build
import SymbolicRegression.Proofs.Expr.Fields

/-!
# Datasets that read alike

Two datasets read alike if the inputs of one are those of the other under new names in the same
order, and corresponding records have the same values under corresponding names, where a field that
is missing reads as zero. To write out what is missing, or to rename fields without changing the
order of the inputs, gives such a dataset.
-/
namespace SymbolicRegression

namespace Dataset

theorem target_mem_fields {d : Dataset} {r : Record} (h : r ∈ d.records) :
    d.target ∈ r.fields := Record.contains_iff.mp (d.contains_target r h)

/-- The fields of a record are the target and inputs. -/
theorem mem_fields {d : Dataset} {r : Record} (h : r ∈ d.records) {name : String}
    (field : name ∈ r.fields) : name = d.target ∨ name ∈ d.inputs := by
  by_cases target : name = d.target
  · exact .inl target
  · exact .inr (mem_inputs_iff.mpr ⟨⟨r, h, field⟩, target⟩)

/-- Whether the inputs of one dataset become those of another by a renaming that keeps their order,
and the records of both read alike. -/
structure Alike (s : String → String) (d d' : Dataset) : Prop where
  maps : ∀ name ∈ d.inputs, s name ∈ d'.inputs
  covers : ∀ name' ∈ d'.inputs, ∃ name ∈ d.inputs, s name = name'
  ordered : ∀ a ∈ d.inputs, ∀ b ∈ d.inputs, a < b → s a < s b
  records : List.Forall₂ (fun r r' : Record => r.get d.target = r'.get d'.target ∧
    ∀ name ∈ d.inputs, r.get name = r'.get (s name)) d.records d'.records

/-- The inputs correspond to each other by their positions. -/
theorem Alike.inputs_eq {s : String → String} {d d' : Dataset} (h : d.Alike s d') :
    d'.inputs = d.inputs.map s := by
  have ordered : (d.inputs.map s).Pairwise (· < ·) := by
    rw [List.pairwise_map]
    exact d.pairwise_inputs.imp_of_mem fun {a b} ha hb lt => h.ordered a ha b hb lt
  -- strictly increasing lists with the same members are equal
  refine d'.pairwise_inputs.eq_of_mem_iff ordered fun {name} => ?_
  rw [List.mem_map]
  constructor
  · exact h.covers name
  · rintro ⟨name, member, rfl⟩
    exact h.maps name member

/-- A change of all records that keeps what they read as keeps the dataset, under the new names. -/
theorem exists_alike {d : Dataset} {s : String → String} {change : Record → Record}
    (distinct : ∀ name ∈ d.inputs, s name ≠ s d.target)
    (ordered : ∀ a ∈ d.inputs, ∀ b ∈ d.inputs, a < b → s a < s b)
    (kept : ∀ r ∈ d.records, ∀ name ∈ r.fields, s name ∈ (change r).fields)
    (known : ∀ r ∈ d.records, ∀ name' ∈ (change r).fields,
      ∃ name, (name = d.target ∨ name ∈ d.inputs) ∧ s name = name')
    (finite : ∀ r ∈ d.records, ∀ e ∈ (change r).entries, e.2.isFinite = true)
    (reads : ∀ r ∈ d.records, ∀ name, name = d.target ∨ name ∈ d.inputs →
      (change r).get (s name) = r.get name) :
    ∃ d', build (s d.target) (d.records.map change) = .ok d' ∧ d.Alike s d' := by
  have maps : ∀ name ∈ d.inputs, s name ∈ inputNames (s d.target) (d.records.map change) := by
    intro name member
    obtain ⟨⟨r, hr, field⟩, -⟩ := mem_inputs_iff.mp member
    refine mem_inputNames.mpr ⟨⟨change r, List.mem_map_of_mem hr, ?_⟩, distinct name member⟩
    exact kept r hr name field
  have nonempty : d.records.map change ≠ [] := by
    rw [Ne, List.map_eq_nil_iff]
    exact d.records_ne_nil
  have sound : ∀ r' ∈ d.records.map change,
      s d.target ∈ r'.fields ∧ ∀ e ∈ r'.entries, e.2.isFinite = true := by
    intro r' member
    obtain ⟨r, hr, rfl⟩ := List.mem_map.mp member
    exact ⟨kept r hr d.target (target_mem_fields hr), finite r hr⟩
  obtain ⟨input, member⟩ := List.exists_mem_of_ne_nil d.inputs d.inputs_ne_nil
  obtain ⟨d', built, target, records⟩ :=
    exists_build nonempty sound (List.ne_nil_of_mem (maps input member))
  refine ⟨d', built, ?_, ?_, ordered, ?_⟩
  · intro name member
    rw [d'.inputs_eq, target, records]
    exact maps name member
  · intro name' member
    rw [mem_inputs_iff, target, records] at member
    obtain ⟨⟨r', hr', field⟩, other⟩ := member
    obtain ⟨r, hr, rfl⟩ := List.mem_map.mp hr'
    obtain ⟨name, rfl | input, rfl⟩ := known r hr name' field
    · exact absurd rfl other
    · exact ⟨name, input, rfl⟩
  · rw [target, records, List.forall₂_map_right_iff, List.forall₂_same]
    intro r hr
    exact ⟨(reads r hr d.target (.inl rfl)).symm,
      fun name member => (reads r hr name (.inr member)).symm⟩

/-- To write out the inputs that records do not have makes no difference. -/
theorem alike_filled (d : Dataset) :
    ∃ d', build d.target (d.records.map (Record.filled d.inputs)) = .ok d' ∧ d.Alike id d' := by
  refine exists_alike (s := id) ?_ (fun _ _ _ _ lt => lt) ?_ ?_ ?_ ?_
  · intro name member
    exact ne_target_of_mem_inputs member
  · intro r _ name field
    exact Record.mem_fields_filled.mpr (.inr field)
  · intro r hr name field
    refine ⟨name, ?_, rfl⟩
    rcases Record.mem_fields_filled.mp field with input | field
    · exact .inr input
    · exact mem_fields hr field
  · intro r hr
    refine Record.isFinite_write (d.finite r hr) fun e member => ?_
    obtain ⟨name, -, rfl⟩ := List.mem_map.mp member
    exact Record.isFinite_get (d.finite r hr) name
  · intro r _ name _
    exact Record.get_filled d.inputs r name

/-- To rename the fields makes no difference as long as they remain distinct and the inputs keep
their order. -/
theorem alike_renamed (d : Dataset) {s : String → String}
    (distinct : ∀ name ∈ d.inputs, s name ≠ s d.target)
    (ordered : ∀ a ∈ d.inputs, ∀ b ∈ d.inputs, a < b → s a < s b) :
    ∃ d', build (s d.target) (d.records.map (Record.renamed s)) = .ok d' ∧ d.Alike s d' := by
  refine exists_alike distinct ordered ?_ ?_ ?_ ?_
  · intro r _ name field
    exact Record.mem_fields_renamed.mpr (List.mem_map_of_mem field)
  · intro r hr name' field
    obtain ⟨name, old, rfl⟩ := List.mem_map.mp (Record.mem_fields_renamed.mp field)
    exact ⟨name, mem_fields hr old, rfl⟩
  · intro r hr
    refine Record.isFinite_write (fun _ member => absurd member List.not_mem_nil) fun e member => ?_
    obtain ⟨f, entry, rfl⟩ := List.mem_map.mp member
    exact d.finite r hr f entry
  · intro r hr name known
    refine Record.get_renamed fun other field same => ?_
    rcases mem_fields hr field with rfl | input <;> rcases known with rfl | known
    · rfl
    · exact absurd same.symm (distinct name known)
    · exact absurd same (distinct other input)
    · rcases lt_trichotomy other name with lt | eq | gt
      · exact absurd same (ordered other input name known lt).ne
      · exact eq
      · exact absurd same (ordered name known other input gt).ne'

end Dataset
end SymbolicRegression
