import SymbolicRegression.Proofs.Dataset.Inputs
import SymbolicRegression.Proofs.Record.Writing
import SymbolicRegression.Proofs.Text.ByteOrder

/-!
# Which records form a dataset

Records form a dataset if there are any, each of them has the target and finite values only, and one
of them has another field. Otherwise the first fault is reported: that of the first record that has
one, and of several values in it that are not finite the one whose field has the least bytes.
-/
namespace SymbolicRegression

namespace Record

/-- Whether a record has the target, and finite values only. -/
def IsComplete (target : String) (r : Record) : Prop :=
  target ∈ r.fields ∧ ∀ e ∈ r.entries, e.2.isFinite = true

/-- The fault of the record with the given index. -/
inductive HasFault (target : String) (index : ℕ) (r : Record) : DatasetError → Prop
  | missingTarget (lacks : target ∉ r.fields) :
    HasFault target index r (.missingTarget index target)
  | nonFiniteValue {e : String × Float} (has : target ∈ r.fields) (entry : e ∈ r.entries)
    (infinite : e.2.isFinite = false)
    (least : ∀ other ∈ r.entries, other.2.isFinite = false → other.1 ≠ e.1 →
      bytes e.1 < bytes other.1) : HasFault target index r (.nonFiniteValue index e.1)

/-- The first value that is not finite is the one whose field has the least bytes. -/
theorem find?_infinite_iff {r : Record} {e : String × Float} :
    r.entries.find? (fun e => !e.2.isFinite) = some e ↔ e ∈ r.entries ∧ e.2.isFinite = false ∧
      ∀ other ∈ r.entries, other.2.isFinite = false → other.1 ≠ e.1 →
        bytes e.1 < bytes other.1 := by
  have sorted := r.sorted
  simp only [List.find?_eq_some_iff_append, Bool.not_eq_eq_eq_not, Bool.not_not]
  constructor
  · rintro ⟨infinite, before, after, split, finite⟩
    rw [split] at sorted ⊢
    obtain ⟨-, behind, -⟩ := List.pairwise_append.mp sorted
    refine ⟨by simp, infinite, fun other member bad distinct => ?_⟩
    rcases List.mem_append.mp member with early | late
    · simp [finite other early] at bad
    · rcases List.mem_cons.mp late with rfl | late
      · exact absurd rfl distinct
      · exact lt_iff_bytes_lt.mp ((List.pairwise_cons.mp behind).1 other late)
  · rintro ⟨member, infinite, least⟩
    obtain ⟨before, after, split⟩ := List.append_of_mem member
    refine ⟨infinite, before, after, split, fun other early => ?_⟩
    rw [split] at sorted least
    have lesser := (List.pairwise_append.mp sorted).2.2 other early e List.mem_cons_self
    by_contra bad
    have greater := least other (by simp [early]) (by simpa using bad) lesser.ne
    exact lesser.not_gt (lt_iff_bytes_lt.mpr greater)

end Record

namespace Dataset

variable {target : String} {index : ℕ} {r : Record} {records : List Record} {fault : DatasetError}

theorem checkRecord_eq_ok_iff : checkRecord target index r = .ok () ↔ r.IsComplete target := by
  refine ⟨fun h => (checkRecord_eq_ok h).imp_left Record.contains_iff.mp, fun ⟨has, finite⟩ => ?_⟩
  have none : r.entries.find? (fun e => !e.2.isFinite) = none :=
    List.find?_eq_none.mpr fun e member => by simp [finite e member]
  rw [checkRecord, if_pos (Record.contains_iff.mpr has), none]

theorem checkRecord_eq_error_iff :
    checkRecord target index r = .error fault ↔ r.HasFault target index fault := by
  unfold checkRecord
  by_cases has : target ∈ r.fields
  · rw [if_pos (Record.contains_iff.mpr has)]
    constructor
    · intro failed
      split at failed
      next e found =>
        cases failed
        obtain ⟨entry, infinite, least⟩ := Record.find?_infinite_iff.mp found
        exact .nonFiniteValue has entry infinite least
      next => cases failed
    · rintro (lacks | ⟨-, entry, infinite, least⟩)
      · exact absurd has lacks
      · rw [Record.find?_infinite_iff.mpr ⟨entry, infinite, least⟩]
  · rw [if_neg fun found => has (Record.contains_iff.mp found)]
    constructor
    · intro failed
      cases failed
      exact .missingTarget has
    · rintro (lacks | ⟨present, -⟩)
      · rfl
      · exact absurd present has

theorem checkRecords_eq_ok_iff :
    checkRecords target index records = .ok () ↔ ∀ r ∈ records, r.IsComplete target := by
  induction records generalizing index with
  | nil => simp [checkRecords]
  | cons r rest ih =>
    have first : checkRecord target index r = .ok () ↔ r.IsComplete target := checkRecord_eq_ok_iff
    have others : checkRecords target (index + 1) rest = .ok () ↔ _ := ih
    rw [List.forall_mem_cons, ← first, ← others, checkRecords]
    cases checkRecord target index r <;> simp

/-- The records fail as the first of them does that has a fault. -/
theorem checkRecords_eq_error_iff :
    checkRecords target index records = .error fault ↔ ∃ before r after,
      records = before ++ r :: after ∧ (∀ other ∈ before, other.IsComplete target) ∧
        r.HasFault target (index + before.length) fault := by
  constructor
  · intro failed
    induction records generalizing index with
    | nil => cases failed
    | cons r rest ih =>
      rw [checkRecords] at failed
      split at failed
      next complete =>
        obtain ⟨before, s, after, split, good, bad⟩ := ih failed
        refine ⟨r :: before, s, after, by rw [split, List.cons_append], ?_, ?_⟩
        · exact List.forall_mem_cons.mpr ⟨checkRecord_eq_ok_iff.mp complete, good⟩
        · rwa [List.length_cons, Nat.add_comm before.length, ← Nat.add_assoc]
      next first =>
        cases failed
        exact ⟨[], r, rest, rfl, by simp, checkRecord_eq_error_iff.mp first⟩
  · rintro ⟨before, r, after, rfl, good, bad⟩
    induction before generalizing index with
    | nil =>
      rw [List.length_nil, Nat.add_zero] at bad
      rw [List.nil_append, checkRecords, checkRecord_eq_error_iff.mpr bad]
    | cons s before ih =>
      obtain ⟨complete, others⟩ := List.forall_mem_cons.mp good
      rw [List.cons_append, checkRecords, checkRecord_eq_ok_iff.mpr complete]
      refine ih others ?_
      rwa [List.length_cons, Nat.add_comm before.length, ← Nat.add_assoc] at bad

theorem inputNames_eq_nil_iff :
    inputNames target records = [] ↔ ∀ r ∈ records, ∀ name ∈ r.fields, name = target := by
  rw [List.eq_nil_iff_forall_not_mem]
  simp only [mem_inputNames, not_and, not_not]
  constructor
  · intro alone r member name field
    exact alone name ⟨r, member, field⟩
  · rintro alone name ⟨r, member, field⟩
    exact alone r member name field

theorem build_of_checkRecords (nonempty : records ≠ [])
    (failed : checkRecords target 0 records = .error fault) :
    build target records = .error fault := by
  unfold build
  rw [dif_pos nonempty]
  split
  next e first =>
    rw [failed] at first
    cases first
    rfl
  next passed =>
    rw [failed] at passed
    cases passed

theorem build_of_no_inputs (nonempty : records ≠ [])
    (complete : ∀ r ∈ records, r.IsComplete target) (none : inputNames target records = []) :
    build target records = .error (.noInputs target) := by
  have checked : checkRecords target 0 records = .ok () := checkRecords_eq_ok_iff.mpr complete
  unfold build
  rw [dif_pos nonempty]
  split
  next e failed =>
    rw [checked] at failed
    cases failed
  next => rw [dif_neg (not_not.mpr none)]

/-- Records without a fault form a dataset. -/
theorem exists_build (nonempty : records ≠ []) (complete : ∀ r ∈ records, r.IsComplete target)
    (inputs : inputNames target records ≠ []) :
    ∃ d, build target records = .ok d ∧ d.target = target ∧ d.records = records := by
  have checked : checkRecords target 0 records = .ok () := checkRecords_eq_ok_iff.mpr complete
  unfold build
  rw [dif_pos nonempty]
  split
  next e failed =>
    rw [checked] at failed
    cases failed
  next =>
    rw [dif_pos inputs]
    exact ⟨_, rfl, rfl, rfl⟩

/-- The first fault of records that form no dataset. -/
inductive Refused (target : String) : List Record → DatasetError → Prop
  | empty : Refused target [] .empty
  | record {before after : List Record} {r : Record} {fault : DatasetError}
    (complete : ∀ other ∈ before, other.IsComplete target)
    (first : r.HasFault target before.length fault) : Refused target (before ++ r :: after) fault
  | noInputs {records : List Record} (nonempty : records ≠ [])
    (complete : ∀ r ∈ records, r.IsComplete target)
    (alone : ∀ r ∈ records, ∀ name ∈ r.fields, name = target) :
    Refused target records (.noInputs target)

theorem Refused.build_eq (h : Refused target records fault) :
    build target records = .error fault := by
  cases h with
  | empty => rfl
  | @record before after r fault complete first =>
    have failed : checkRecords target 0 (before ++ r :: after) = .error fault :=
      checkRecords_eq_error_iff.mpr ⟨before, r, after, rfl, complete, by rwa [Nat.zero_add]⟩
    exact build_of_checkRecords (by simp) failed
  | noInputs nonempty complete alone =>
    exact build_of_no_inputs nonempty complete (inputNames_eq_nil_iff.mpr alone)

/-- Records form a dataset, or have a first fault. -/
theorem exists_build_or_refused (target : String) (records : List Record) :
    (records ≠ [] ∧ (∀ r ∈ records, r.IsComplete target) ∧
      ∃ r ∈ records, ∃ name ∈ r.fields, name ≠ target) ∨ ∃ fault, Refused target records fault := by
  rcases eq_or_ne records [] with rfl | nonempty
  · exact .inr ⟨_, .empty⟩
  cases checked : checkRecords target 0 records with
  | error fault =>
    obtain ⟨before, r, after, rfl, complete, first⟩ := checkRecords_eq_error_iff.mp checked
    rw [Nat.zero_add] at first
    exact .inr ⟨fault, .record complete first⟩
  | ok =>
    have complete := checkRecords_eq_ok_iff.mp checked
    by_cases alone : ∀ r ∈ records, ∀ name ∈ r.fields, name = target
    · exact .inr ⟨_, .noInputs nonempty complete alone⟩
    · push Not at alone
      exact .inl ⟨nonempty, complete, alone⟩

theorem exists_build_iff : (∃ d, build target records = .ok d) ↔
    records ≠ [] ∧ (∀ r ∈ records, r.IsComplete target) ∧
      ∃ r ∈ records, ∃ name ∈ r.fields, name ≠ target := by
  constructor
  · rintro ⟨d, built⟩
    rcases exists_build_or_refused target records with formed | ⟨fault, refused⟩
    · exact formed
    · rw [refused.build_eq] at built
      cases built
  · rintro ⟨nonempty, complete, r, member, name, field, other⟩
    obtain ⟨d, built, -⟩ := exists_build nonempty complete fun none =>
      other (inputNames_eq_nil_iff.mp none r member name field)
    exact ⟨d, built⟩

theorem build_eq_error_iff :
    build target records = .error fault ↔ Refused target records fault := by
  refine ⟨fun failed => ?_, Refused.build_eq⟩
  rcases exists_build_or_refused target records with formed | ⟨first, refused⟩
  · obtain ⟨d, built⟩ := exists_build_iff.mpr formed
    rw [built] at failed
    cases failed
  · rw [refused.build_eq] at failed
    cases failed
    exact refused

theorem eq_of_build {d : Dataset} (built : build target records = .ok d) :
    d.target = target ∧ d.records = records := by
  unfold build at built
  split at built
  · split at built
    · cases built
    · split at built
      · cases built
        exact ⟨rfl, rfl⟩
      · cases built
  · cases built

/-- Records form a dataset exactly if there are any, all complete, and one of them has a field
besides the target. Otherwise they are refused for their first fault. The dataset keeps target and
records, and its inputs are the other fields in the order of their bytes. -/
theorem build_wellFormed (target : String) (records : List Record) :
    ((∃ d, build target records = .ok d) ↔
      records ≠ [] ∧ (∀ r ∈ records, r.IsComplete target) ∧
        ∃ r ∈ records, ∃ name ∈ r.fields, name ≠ target) ∧
    (∀ fault, build target records = .error fault ↔ Refused target records fault) ∧
    ∀ d, build target records = .ok d →
      d.target = target ∧ d.records = records ∧
      d.inputs.Pairwise (fun a b => bytes a < bytes b) ∧
      (∀ name, name ∈ d.inputs ↔ (∃ r ∈ records, name ∈ r.fields) ∧ name ≠ target) ∧
      ∀ name, d.isInput name = true ↔ name ∈ d.inputs := by
  refine ⟨exists_build_iff, fun fault => build_eq_error_iff, fun d built => ?_⟩
  obtain ⟨rfl, rfl⟩ := eq_of_build built
  have sorted := d.pairwise_inputs.imp lt_iff_bytes_lt.mp
  exact ⟨rfl, rfl, sorted, fun name => mem_inputs_iff, fun name => isInput_iff⟩

/-- The second record has only one of the inputs, which is ahead of the others. -/
theorem build_wellFormed_sparse :
    ∃ d, build "y" [⟨[("y", 1), ("\uffff", 2), ("𝄞", 3)], by decide⟩,
        ⟨[("x", 0), ("y", 4)], by decide⟩]
      = .ok d ∧ d.inputs.Pairwise (fun a b => bytes a < bytes b) ∧ "x" ∈ d.inputs ∧ "y" ∉ d.inputs ∧
      d.isInput "𝄞" = true := by
  obtain ⟨formed, -, result⟩ := build_wellFormed "y"
    [⟨[("y", 1), ("\uffff", 2), ("𝄞", 3)], by decide⟩, ⟨[("x", 0), ("y", 4)], by decide⟩]
  obtain ⟨d, built⟩ := formed.mpr ⟨by simp, by
    simp only [List.forall_mem_cons, Record.IsComplete, Record.fields]
    decide, ⟨_, List.mem_cons_self, "𝄞", by decide, by decide⟩⟩
  obtain ⟨-, -, sorted, inputs, known⟩ := result d built
  refine ⟨d, built, sorted, (inputs _).mpr ⟨⟨_, .tail _ (.head _), by decide⟩, by decide⟩, ?_, ?_⟩
  · simp [inputs]
  · exact (known _).mpr ((inputs _).mpr ⟨⟨_, .head _, by decide⟩, by decide⟩)

/-- Of the faults of the first record that has any, the value whose field has the least bytes is
reported, also if a later record lacks the target. -/
example : build "y" [⟨[("y", 1)], by decide⟩, ⟨[("x", 0), ("y", 0 / 0), ("z", 1 / 0)], by decide⟩,
    ⟨[], .nil⟩] = .error (.nonFiniteValue 1 "y") := rfl

end Dataset
end SymbolicRegression
