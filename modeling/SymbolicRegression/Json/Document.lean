import SymbolicRegression.Json.Numeral
import SymbolicRegression.Json.Text

/-!
# Reading whole values

A value of any shape can be read into memory, or skipped where nobody asked for it. Reading allows
a bounded depth of lists and objects inside one another; skipping allows any depth, and looks at
numbers and texts only as far as their form goes.
-/
namespace SymbolicRegression.Json

/-- How many lists and objects may be open inside one another. -/
def depthLimit : Nat := 127

namespace Reader

/-- A scalar, as far as its first character goes; lists and objects are left to the caller. -/
def scalar (first : Char) : Reader Value := do
  if first = 'n' then
    word ['n', 'u', 'l', 'l']
    pure .null
  else if first = 't' then
    word ['t', 'r', 'u', 'e']
    pure (.boolean true)
  else if first = 'f' then
    word ['f', 'a', 'l', 's', 'e']
    pure (.boolean false)
  else if first = '"' then
    let s ← quotedText
    pure (.text s)
  else if first = '-' ∨ first.isDigit then
    let n ← number
    pure (.number n)
  else fail .expectedValue

/-- Takes back the reversed order in which items were gathered. -/
def gatheredList (items : List Value) : Value := .list items.reverse

/-- Takes back the reversed order in which members were gathered. -/
def gatheredObject (members : List (String × Value)) : Value := .object members.reverse

/-- A value of any shape with at most `depth` lists and objects inside one another. -/
def value (depth : Nat) : Reader Value := do
  match ← peek with
  | none => fail .endOfValue
  | some '[' =>
    match depth with
    | 0 => fail .tooDeep
    | depth + 1 =>
      advance
      let gathered ← items (fun acc => do
        let item ← value depth
        pure (item :: acc)) []
      pure (gatheredList gathered)
  | some '\x7b' =>
    match depth with
    | 0 => fail .tooDeep
    | depth + 1 =>
      advance
      members (fun acc name => do
        colon
        let item ← value depth
        pure ((name, item) :: acc)) [] (fun gathered => .ok (gatheredObject gathered))
  | some c => scalar c

def skipScalar (first : Char) : Reader Unit := do
  if first = 'n' then word ['n', 'u', 'l', 'l']
  else if first = 't' then word ['t', 'r', 'u', 'e']
  else if first = 'f' then word ['f', 'a', 'l', 's', 'e']
  else if first = '"' then skipText
  else if first = '-' ∨ first.isDigit then skipNumber
  else fail .expectedValue

/-- Whether another item of a skipped list follows: a bracket behind a comma is then taken for a
missing item. -/
def moreSkippedItems (first : Bool) : Reader Bool := do
  match ← peek with
  | none => fail .endOfList
  | some c =>
    if c = ']' then pure false
    else if first then pure true
    else if c = ',' then
      advance
      pure true
    else fail .expectedListComma

/-- Whether another member of a skipped object follows: a bracket behind a comma is then taken for
a missing name. -/
def moreSkippedMembers (first : Bool) : Reader Bool := do
  match ← peek with
  | none => fail .endOfObject
  | some c =>
    if c = '\x7d' then pure false
    else if first then
      if c = '"' then pure true else fail .keyNotText
    else if c = ',' then
      advance
      match ← peek with
      | some '"' => pure true
      | some _ => fail .keyNotText
      | none => fail .endOfObject
    else fail .expectedObjectComma

/-- Skips the remaining items of a list with its closing bracket. -/
def skipItems (item : Reader Unit) : Nat → Bool → Reader Unit
  | 0, _ => fail .endOfList
  | steps + 1, first => do
    if ← moreSkippedItems first then
      item
      skipItems item steps false
    else advance

/-- Skips the remaining members of an object with its closing bracket. -/
def skipMembers (item : Reader Unit) : Nat → Bool → Reader Unit
  | 0, _ => fail .endOfObject
  | steps + 1, first => do
    if ← moreSkippedMembers first then
      skipText
      colon
      item
      skipMembers item steps false
    else advance

/-- Skips a value with at most `depth` lists and objects inside one another, each with fewer than
`steps` items. -/
def skipWithin (steps depth : Nat) : Reader Unit := do
  match ← peek with
  | none => fail .endOfValue
  | some '[' =>
    match depth with
    | 0 => fail .tooDeep
    | depth + 1 =>
      advance
      skipItems (skipWithin steps depth) steps true
  | some '\x7b' =>
    match depth with
    | 0 => fail .tooDeep
    | depth + 1 =>
      advance
      skipMembers (skipWithin steps depth) steps true
  | some c => skipScalar c

/-- Skips a value of any depth and length: every level of nesting and every item takes a character
of the text. -/
def skip : Reader Unit := do
  let text ← get
  skipWithin text.length text.length

/-- Stops because the value in front is not of the expected kind. A scalar is read to its end
first, a list or an object is refused at its opening bracket. -/
def mismatch {α : Type} (expected : String) : Reader α := do
  match ← peek with
  | none => fail .expectedValue
  | some '[' => reject (.wrongType .list expected)
  | some '\x7b' => reject (.wrongType .object expected)
  | some c =>
    let v ← scalar c
    reject (.wrongType (.ofValue v) expected)

def text (expected : String) : Reader String := do
  match ← peek with
  | none => fail .endOfValue
  | some '"' => quotedText
  | some _ => mismatch expected

/-- Any number, as the binary64 number nearest to it. -/
def float : Reader Float := do
  match ← peek with
  | none => fail .endOfValue
  | some c =>
    if c = '-' ∨ c.isDigit then
      let n ← number
      pure n.toFloat
    else mismatch "f64"

/-- The word that a number of a document is, where it has to be one. -/
def wordOf (expected : String) : Number → Except Fault UInt64
  | .natural n => .ok n
  | .negative n => .error (.content (.wrongValue (.number (.negative n)) expected))
  | .real x => .error (.content (.wrongType (.number (.real x)) expected))

/-- A whole number of 64 bits without sign. -/
def word64 (expected : String) : Reader UInt64 := do
  match ← peek with
  | none => fail .endOfValue
  | some c =>
    if c = '-' ∨ c.isDigit then
      let n ← number
      (wordOf expected n : Except Fault UInt64)
    else mismatch expected

/-- A list of values that are each read by `item` at the depth that is left. -/
def listOf {α : Type} (item : Nat → Reader α) (depth : Nat) : Reader (List α) := do
  match ← peek with
  | none => fail .endOfValue
  | some '[' =>
    match depth with
    | 0 => fail .tooDeep
    | depth + 1 =>
      advance
      let gathered ← items (fun acc => do
        let a ← item depth
        pure (a :: acc)) []
      pure gathered.reverse
  | some _ => mismatch "a sequence"

end Reader

namespace Value

/-- The value of a whole text, whatever its shape. -/
def read (text : String) : Except Fault Value := (Reader.value depthLimit).run text

/-- Refuses a value that is not of the expected kind. -/
def mismatch {α : Type} (expected : String) (v : Value) : Except Fault α :=
  .error (.content (.wrongType (.ofValue v) expected))

def asText (expected : String) : Value → Except Fault String
  | text s => .ok s
  | v => v.mismatch expected

def asFloat : Value → Except Fault Float
  | number n => .ok n.toFloat
  | v => v.mismatch "f64"

def asWord (expected : String) : Value → Except Fault UInt64
  | number n => Reader.wordOf expected n
  | v => v.mismatch expected

end Value
end SymbolicRegression.Json
