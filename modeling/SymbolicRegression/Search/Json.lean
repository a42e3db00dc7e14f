import SymbolicRegression.Mutation.Json
import SymbolicRegression.Search.Config

/-!
# Configurations in documents

A configuration names what differs from the standard one, and nothing else.
-/
namespace SymbolicRegression.Search.Config

open Json

structure Parts where
  reportInterval : Option UInt64
  mutation : Option Mutation.Parameters

/-- The configuration with what has been read in place of the standard one. -/
def ofParts (p : Parts) : Config :=
  ⟨p.reportInterval.getD standard.reportInterval, p.mutation.getD standard.mutation⟩

def form : Form Parts Config where
  kind := "struct SolverConfig"
  unknown := .refuse
  empty := ⟨none, none⟩
  check parts := .ok (ofParts parts)
  checkShort _ parts := .ok (ofParts parts)

def slots (depth : Nat) : List (Slot Reader Parts) :=
  [ .field "report_interval" Parts.reportInterval (fun p n => { p with reportInterval := some n })
      (Reader.word64 "u64"),
    .field "mutation" Parts.mutation (fun p m => { p with mutation := some m })
      (Mutation.Parameters.reader depth) ]

def reader (depth : Nat) : Reader Config := Reader.record form slots depth

def read (text : String) : Except Fault Config := (reader depthLimit).run text

/-- A configuration as a value, all of it named. -/
def toValue (c : Config) : Value :=
  .object [("report_interval", .ofWord c.reportInterval), ("mutation", c.mutation.toValue)]

end SymbolicRegression.Search.Config
