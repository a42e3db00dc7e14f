import SymbolicRegression.Dataset.Basic
import SymbolicRegression.Record.Json

/-!
# Datasets in documents

A dataset is an object with the name of the target field and the list of records. What records may
form a dataset is decided when both have been read.
-/
namespace SymbolicRegression.Dataset

open Json

/-- What has been read of a dataset. -/
structure Parts where
  target : Option String
  records : Option (List Record)

/-- The dataset of a target and records, whose faults are faults of the document. -/
def ofParts (target : String) (records : List Record) : Except Fault Dataset :=
  match build target records with
  | .ok d => .ok d
  | .error e => .error (.content (.refused e.message))

def form : Form Parts (String × List Record) where
  kind := "struct RawDataset"
  unknown := .skip
  empty := ⟨none, none⟩
  check parts := do
    let target ← required "target" parts.target
    let records ← required "records" parts.records
    pure (target, records)
  checkShort count _ :=
    .error (.content (.wrongLength count "struct RawDataset with 2 elements"))

def slots (depth : Nat) : List (Slot Reader Parts) :=
  [ .field "target" Parts.target (fun p s => { p with target := some s }) (Reader.text "a string"),
    .field "records" Parts.records (fun p rs => { p with records := some rs })
      (Reader.listOf Record.read depth) ]

/-- A dataset straight from a text. -/
def reader (depth : Nat) : Reader Dataset := do
  let (target, records) ← Reader.record form slots depth
  (ofParts target records : Except Fault Dataset)

def read (text : String) : Except Fault Dataset := (reader depthLimit).run text

/-- A dataset as a value; its inputs follow from the records. -/
def toValue (d : Dataset) : Value :=
  .object [("target", .text d.target), ("records", .list (d.records.map Record.toValue))]

end SymbolicRegression.Dataset
