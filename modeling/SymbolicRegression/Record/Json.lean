import SymbolicRegression.Json.Fields
import SymbolicRegression.Record.Basic

/-!
# Records in documents

A record is an object of numbers. A name that is written more than once has its last value.
-/
namespace SymbolicRegression.Record

open Json

def toValue (r : Record) : Value := .object (r.entries.map fun e => (e.1, .ofFloat e.2))

def read (depth : Nat) : Reader Record := do
  match ← Reader.peek with
  | none => Reader.fail .endOfValue
  | some '\x7b' =>
    if depth = 0 then Reader.fail .tooDeep
    Reader.advance
    Reader.members (fun r name => do
      Reader.colon
      let x ← Reader.float
      pure (r.set name x)) empty .ok
  | some _ => Reader.mismatch "a map"

end SymbolicRegression.Record
