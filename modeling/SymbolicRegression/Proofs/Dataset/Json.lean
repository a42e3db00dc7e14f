import SymbolicRegression.Dataset.Sample
import SymbolicRegression.Proofs.Dataset.Alike
import SymbolicRegression.Proofs.Dataset.Trees

/-!
# Datasets as documents

The reader of datasets takes the target and the records out of a document, and leaves it to the
checks of a dataset whether they go together. So it lets no dataset pass that those checks refuse,
and what has been written of a dataset is read back as it was.
-/
namespace SymbolicRegression

open Json Reader Json.Written

namespace Dataset

/-- Whether a text is a document that holds a target and records. -/
def IsTable (text : String) (target : String) (records : List Record) : Prop :=
  ∃ w : Written, w.IsSpelled text ∧ w.HoldsTable target records

/-- What is read of a text before it is checked is what the document holds. -/
theorem record_run_iff {text target : String} {records : List Record} :
    (Reader.record form slots depthLimit).run text = .ok (target, records) ↔
      IsTable text target records := by
  constructor
  · intro h
    obtain ⟨w, spelled, made⟩ := (reads_record pairs_reads depthLimit).exists_of_run h
    exact ⟨w, spelled, ofWritten_iff.mp made⟩
  · rintro ⟨w, ⟨rest, spelled, blank⟩, holds⟩
    -- three brackets may be open at once: around the fields, the records, and the entries
    have succeeds : Succeeds (Reader.record form slots depthLimit)
        (form.ofWritten (fun _ => writtenSlots) depthLimit) := succeeds_record (pairs_succeeds 124)
    have read := succeeds w _ _ spelled (delimited_of_blank blank)
    rw [show form.ofWritten (fun _ => writtenSlots) depthLimit w = .ok (target, records) from
      ofWritten_iff.mpr holds] at read
    exact run_of_ok read blank

/-- Of a target and records that go together the dataset is read; otherwise the reason why they do
not is given. -/
theorem read_of_table {text target : String} {records : List Record}
    (h : IsTable text target records) : read text = ofParts target records :=
  run_bind_of_ok (record_run_iff.mpr h)

theorem ofParts_eq_ok_iff {target : String} {records : List Record} {d : Dataset} :
    ofParts target records = .ok d ↔ build target records = .ok d := by
  unfold ofParts
  cases build target records with
  | ok d' =>
    constructor <;>
    · intro h
      cases h
      rfl
  | error e =>
    constructor <;>
    · intro h
      cases h

/-- What is read as a dataset is built of the target and the records of the document. -/
theorem exists_table_of_read {text : String} {d : Dataset} (h : read text = .ok d) :
    ∃ target records, IsTable text target records ∧ build target records = .ok d := by
  obtain ⟨⟨target, records⟩, taken, made⟩ := exists_of_run_bind h
  exact ⟨target, records, record_run_iff.mp taken, ofParts_eq_ok_iff.mp made⟩

/-- A dataset is built of its own target and records. -/
theorem build_self (d : Dataset) : build d.target d.records = .ok d := by
  have sound (r : Record) (h : r ∈ d.records) :
      d.target ∈ r.fields ∧ ∀ e ∈ r.entries, e.2.isFinite = true :=
    ⟨Record.contains_iff.mp (d.contains_target r h), d.finite r h⟩
  have inputs : inputNames d.target d.records ≠ [] := d.inputs_eq ▸ d.inputs_ne_nil
  obtain ⟨d', built, target, records⟩ := exists_build d.records_ne_nil sound inputs
  have same : d' = d := by
    have inputs : d'.inputs = d.inputs := by rw [d'.inputs_eq, d.inputs_eq, target, records]
    cases d'
    cases d
    cases target
    cases records
    cases inputs
    rfl
  rw [built, same]

/-- A document that holds the value of a dataset holds its target and its records. -/
theorem holdsTable_of_value {w : Written} {d : Dataset} (h : w.IsLike d.toValue) :
    w.HoldsTable d.target d.records := by
  obtain ⟨ms, depth, rfl, holds⟩ := h
  obtain ⟨members, named, like⟩ := exists_members_of_values holds
  cases like with
  | @cons t _ _ _ isTarget like =>
    cases like with
    | @cons rs _ _ _ areRecords like =>
      cases like
      obtain ⟨name, t⟩ := t
      obtain ⟨name', rs⟩ := rs
      obtain ⟨rfl, text⟩ := isTarget
      obtain ⟨rfl, items, depth', rfl, holds⟩ := areRecords
      have like := forall₂_of_values holds
      rw [List.forall₂_map_right_iff] at like
      have finite : ∀ r ∈ d.records, ∀ e ∈ r.entries, e.2.isFinite = true := d.finite
      have are := ((List.forall₂_and_left _ _).mpr ⟨finite, like.flip⟩).flip.imp
        fun _ _ h => Record.isRecord_of_value h.1 h.2
      exact ⟨t, .list items, text, ⟨items, rfl, are⟩, .inl ⟨_, ⟨ms, rfl, named⟩, rfl, rfl⟩⟩

theorem isPrinted_records (records : List Record) :
    Value.ArePrinted (records.map Record.toValue) := by
  induction records with
  | nil => trivial
  | cons r records ih => exact ⟨r.isPrinted_toValue, ih⟩

theorem isPrinted_toValue (d : Dataset) : d.toValue.IsPrinted :=
  ⟨trivial, isPrinted_records d.records, trivial⟩

theorem nesting_records (records : List Record) :
    Value.nestingItems (records.map Record.toValue) ≤ 1 := by
  induction records with
  | nil => exact Nat.zero_le 1
  | cons r records ih =>
    rw [List.map_cons, Value.nestingItems, r.nesting_toValue]
    exact max_le le_rfl ih

/-- Three brackets are open at once: around the fields, the records, and the entries. -/
theorem nesting_toValue (d : Dataset) : d.toValue.nesting ≤ 3 := by
  have records := nesting_records d.records
  simp only [toValue, Value.nesting, Value.nestingMembers]
  omega

/-- What is written of a dataset holds its target and its records. -/
theorem isTable_compact (d : Dataset) : IsTable d.toValue.compact d.target d.records := by
  have fits : d.toValue.nesting ≤ depthLimit := d.nesting_toValue.trans (by decide)
  have read : Reader.value depthLimit d.toValue.compact.toList = .ok (d.toValue, []) := by
    rw [Value.compact, Value.read_render isBlank_compact d.isPrinted_toValue, Value.within,
      if_pos fits]
  obtain ⟨w, spelled, holds⟩ := exists_of_read (run_of_ok read blank_nil)
  exact ⟨w, spelled, holdsTable_of_value (isLike_of_value holds)⟩

/-- What has been written of a dataset is read back as that dataset. What is read as a dataset is
built of the target and the records that the document holds, so it satisfies all that is required
of a dataset; and target and records that do not go together are refused with the reason why. -/
theorem read_is_gate :
    (∀ d : Dataset, read d.toValue.compact = .ok d) ∧
    (∀ text d, read text = .ok d ↔
      ∃ target records, IsTable text target records ∧ build target records = .ok d) ∧
    (∀ text d, read text = .ok d →
      d.records ≠ [] ∧
        (∀ r ∈ d.records, r.contains d.target = true ∧ ∀ e ∈ r.entries, e.2.isFinite = true) ∧
        d.inputs = inputNames d.target d.records ∧ d.inputs ≠ []) ∧
    ∀ text target records e, IsTable text target records → build target records = .error e →
      (read text).mapError Fault.message = .error e.message := by
  refine ⟨fun d => ?_, fun text d => ⟨exists_table_of_read, ?_⟩, fun text d _ => ?_, ?_⟩
  · rw [read_of_table d.isTable_compact]
    exact ofParts_eq_ok_iff.mpr d.build_self
  · rintro ⟨target, records, table, built⟩
    rw [read_of_table table]
    exact ofParts_eq_ok_iff.mpr built
  · exact ⟨d.records_ne_nil, fun r h => ⟨d.contains_target r h, d.finite r h⟩, d.inputs_eq,
      d.inputs_ne_nil⟩
  · intro text target records e table refused
    rw [read_of_table table, ofParts, refused]
    rfl

def emptyTable : String := "[\"y\",[]]"

theorem read_is_gate_sample :
    read sample.toValue.compact = .ok sample ∧ sample.inputs ≠ [] ∧
      (read emptyTable).mapError Fault.message = .error "dataset has no records" := by
  obtain ⟨back, -, sound, refused⟩ := read_is_gate
  have table : IsTable emptyTable "y" [] :=
    record_run_iff.mp (ok_of_toOption (by decide +kernel))
  exact ⟨back sample, (sound _ sample (back sample)).2.2.2, refused _ _ _ .empty table rfl⟩

end Dataset

end SymbolicRegression
