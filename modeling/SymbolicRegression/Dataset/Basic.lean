import SymbolicRegression.Record.Basic

/-!
# Datasets

A dataset is a table of records with one field designated as the target. Every other field of any
record is an input. The checks that `Dataset.build` makes are kept in the type, so whoever is given
a dataset may rely on them.
-/
namespace SymbolicRegression

/-- Why records do not form a dataset. -/
inductive DatasetError where
  | empty
  | missingTarget (index : Nat) (target : String)
  | nonFiniteValue (index : Nat) (field : String)
  | noInputs (target : String)
deriving DecidableEq

namespace DatasetError

def message : DatasetError → String
  | empty => "dataset has no records"
  | missingTarget index target =>
    "record #" ++ String.ofList (Nat.toDigits 10 index) ++ " does not define target field `" ++
      target ++ "`"
  | nonFiniteValue index field =>
    "record #" ++ String.ofList (Nat.toDigits 10 index) ++ " has non-finite value for field `" ++
      field ++ "`"
  | noInputs target => "dataset has no input fields besides target `" ++ target ++ "`"

end DatasetError

/-- Adds a name to names in increasing order, once. -/
def placeName (name : String) : List String → List String
  | [] => [name]
  | key :: rest =>
    if name < key then name :: key :: rest
    else if name = key then key :: rest
    else key :: placeName name rest

/-- Whether a name is among names in increasing order. The name in the middle tells in which half it
would have to be, so as many turns as there are names are more than enough. -/
def isAmong (name : String) : (turns : Nat) → (names : List String) → Bool
  | 0, _ => false
  | turns + 1, names =>
    match names.drop (names.length / 2) with
    | [] => false
    | middle :: greater =>
      if name < middle then isAmong name turns (names.take (names.length / 2))
      else if name = middle then true
      else isAmong name turns greater

/-- The fields of any record other than the target, in increasing order. -/
def inputNames (target : String) (records : List Record) : List String :=
  ((records.flatMap Record.fields).filter (· ≠ target)).foldl (fun names n => placeName n names) []

/-- A table of records with a target field and at least one input field. -/
structure Dataset where
  target : String
  records : List Record
  /-- The input fields, in increasing order. -/
  inputs : List String
  records_ne_nil : records ≠ []
  contains_target : ∀ r ∈ records, r.contains target = true
  finite : ∀ r ∈ records, ∀ e ∈ r.entries, e.2.isFinite = true
  inputs_eq : inputs = inputNames target records
  inputs_ne_nil : inputs ≠ []

namespace Dataset

/-- Checks one record: it has the target, and then all its values are finite. -/
def checkRecord (target : String) (index : Nat) (r : Record) : Except DatasetError Unit :=
  if r.contains target then
    match r.entries.find? (fun e => !e.2.isFinite) with
    | some e => .error (.nonFiniteValue index e.1)
    | none => .ok ()
  else .error (.missingTarget index target)

/-- Checks records in their order, the first of which has the given index. -/
def checkRecords (target : String) : Nat → List Record → Except DatasetError Unit
  | _, [] => .ok ()
  | index, r :: rest =>
    match checkRecord target index r with
    | .ok _ => checkRecords target (index + 1) rest
    | .error e => .error e

theorem checkRecord_eq_ok {target : String} {index : Nat} {r : Record} {u : Unit}
    (h : checkRecord target index r = .ok u) :
    r.contains target = true ∧ ∀ e ∈ r.entries, e.2.isFinite = true := by
  unfold checkRecord at h
  split at h
  next has =>
    split at h
    · cases h
    next none =>
      refine ⟨has, fun e he => ?_⟩
      simpa using List.find?_eq_none.mp none e he
  · cases h

theorem checkRecords_eq_ok {target : String} {index : Nat} {records : List Record} {u : Unit}
    (h : checkRecords target index records = .ok u) :
    ∀ r ∈ records, r.contains target = true ∧ ∀ e ∈ r.entries, e.2.isFinite = true := by
  induction records generalizing index with
  | nil => simp
  | cons r rest ih =>
    unfold checkRecords at h
    split at h
    next ok =>
      intro s hs
      rcases List.mem_cons.mp hs with rfl | hs
      · exact checkRecord_eq_ok ok
      · exact ih h s hs
    · cases h

/-- The dataset of the given records, unless they have a fault: no record at all, the first fault
of a record, or no input field. -/
def build (target : String) (records : List Record) : Except DatasetError Dataset :=
  if nonempty : records ≠ [] then
    match checked : checkRecords target 0 records with
    | .error e => .error e
    | .ok _ =>
      if inputs : inputNames target records ≠ [] then
        .ok {
          target, records, inputs := inputNames target records
          records_ne_nil := nonempty
          contains_target := fun r h => (checkRecords_eq_ok checked r h).1
          finite := fun r h => (checkRecords_eq_ok checked r h).2
          inputs_eq := rfl
          inputs_ne_nil := inputs }
      else .error (.noInputs target)
  else .error .empty

/-- Whether an expression may refer to a field. -/
def isInput (d : Dataset) (name : String) : Bool := isAmong name d.inputs.length d.inputs

end Dataset
end SymbolicRegression
