import SymbolicRegression.Json.Fields
import SymbolicRegression.Operator.Basic

/-!
# Operators in documents

An operator is written as its name, or as an object whose only member has that name and holds
nothing.
-/
namespace SymbolicRegression.Operator

open Json

def name : Operator → String
  | add => "add"
  | subtract => "subtract"
  | multiply => "multiply"
  | divide => "divide"

def ofName (s : String) : Except Fault Operator :=
  match all.find? (fun op => op.name = s) with
  | some op => .ok op
  | none => .error (.content (.unknownVariant s (all.map name)))

def toValue (op : Operator) : Value := .text op.name

/-- Nothing, written `null`. -/
def readNothing : Reader Unit := do
  match ← Reader.peek with
  | none => Reader.fail .endOfValue
  | some 'n' => Reader.word ['n', 'u', 'l', 'l']
  | some _ => Reader.mismatch "unit"

/-- The name of the only member of an object. -/
def readKey : Reader String := do
  match ← Reader.peek with
  | none => Reader.fail .endOfObject
  | some '"' => Reader.quotedText
  | some _ => Reader.fail .keyNotText

/-- An operator straight from a text. -/
def read (depth : Nat) : Reader Operator := do
  match ← Reader.peek with
  | none => Reader.fail .endOfValue
  | some '"' =>
    let s ← Reader.quotedText
    (ofName s : Except Fault Operator)
  | some '\x7b' =>
    if depth = 0 then Reader.fail .tooDeep
    Reader.advance
    let s ← readKey
    let op ← (ofName s : Except Fault Operator)
    Reader.colon
    readNothing
    match ← Reader.peek with
    | some '\x7d' =>
      Reader.advance
      pure op
    | some _ => Reader.fail .expectedValue
    | none => Reader.fail .endOfObject
  | some _ => Reader.fail .expectedValue

/-- An operator from a value held in memory, where an empty object also stands for nothing. -/
def ofValue : Value → Except Fault Operator
  | .text s => ofName s
  | .object [(s, nothing)] => do
    let op ← ofName s
    match nothing with
    | .null | .object [] => .ok op
    | v => v.mismatch "unit"
  | .object _ => .error (.content (.wrongValue .object "map with a single key"))
  | v => v.mismatch "string or map"

end SymbolicRegression.Operator
