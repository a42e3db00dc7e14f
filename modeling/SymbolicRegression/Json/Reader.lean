import SymbolicRegression.Json.Fault

/-!
# Reading from a text

A reader takes what it needs from the front of a text and leaves the rest, or stops at the first
fault. Lists and objects are read item by item, so a fault in an item hides everything behind it.
-/
namespace SymbolicRegression.Json

/-- A step that consumes the front of a text. -/
abbrev Reader := StateT (List Char) (Except Fault)

/-- The blanks that may stand between tokens. -/
def isBlank (c : Char) : Bool := c = ' ' || c = '\n' || c = '\t' || c = '\r'

namespace Reader

/-- Stops because the grammar is violated. -/
def fail {α : Type} (fault : GrammarFault) : Reader α := throw (.grammar fault)

/-- Stops because of what the document holds. -/
def reject {α : Type} (fault : ContentFault) : Reader α := throw (.content fault)

/-- Skips blanks and shows the character after them without consuming it. -/
def peek : Reader (Option Char) := fun s =>
  let rest := s.dropWhile isBlank
  .ok (rest.head?, rest)

/-- Consumes one character. -/
def advance : Reader Unit := modify List.tail

/-- Consumes exactly the given characters. -/
def word : List Char → Reader Unit
  | [] => pure ()
  | c :: cs => do
    match ← get with
    | [] => fail .endOfValue
    | d :: rest =>
      if d = c then
        set rest
        word cs
      else fail .expectedWord

/-- The colon between the name and the value of a member. -/
def colon : Reader Unit := do
  match ← peek with
  | some ':' => advance
  | some _ => fail .expectedColon
  | none => fail .endOfObject

/-- Whether another item of a list follows; `first` tells that none has been read. The comma
before the item is consumed, a closing bracket is not. -/
def moreItems (first : Bool) : Reader Bool := do
  match ← peek with
  | none => fail .endOfList
  | some c =>
    if c = ']' then pure false
    else if first then pure true
    else if c = ',' then
      advance
      match ← peek with
      | some ']' => fail .trailingComma
      | some _ => pure true
      | none => fail .endOfValue
    else fail .expectedListComma

def closeList : Reader Unit := do
  match ← peek with
  | some ']' => advance
  | some ',' =>
    advance
    match ← peek with
    | some ']' => fail .trailingComma
    | _ => fail .trailingCharacters
  | some _ => fail .trailingCharacters
  | none => fail .endOfList

/-- Whether another member of an object follows; `first` tells that none has been read. The comma
before the member is consumed, and the quote that opens its name is in front then. -/
def moreMembers (first : Bool) : Reader Bool := do
  match ← peek with
  | none => fail .endOfObject
  | some c =>
    if c = '\x7d' then pure false
    else if first then
      if c = '"' then pure true else fail .keyNotText
    else if c = ',' then
      advance
      match ← peek with
      | some '"' => pure true
      | some '\x7d' => fail .trailingComma
      | some _ => fail .keyNotText
      | none => fail .endOfValue
    else fail .expectedObjectComma

def closeObject : Reader Unit := do
  match ← peek with
  | some '\x7d' => advance
  | some ',' => fail .trailingComma
  | some _ => fail .trailingCharacters
  | none => fail .endOfObject

/-- Folds the remaining items of a list up to its closing bracket. Every item consumes text, so as
many steps as there are characters are enough, and without any left the text has ended. -/
def foldItems {σ : Type} (item : σ → Reader σ) : Nat → Bool → σ → Reader σ
  | 0, _, _ => fail .endOfList
  | steps + 1, first, acc => do
    if ← moreItems first then
      let acc ← item acc
      foldItems item steps false acc
    else pure acc

/-- Reads a list whose opening bracket has been consumed, with its closing bracket. -/
def items {σ : Type} (item : σ → Reader σ) (init : σ) : Reader σ := do
  let text ← get
  let result ← foldItems item (text.length + 1) true init
  closeList
  pure result

/-- Nothing but blanks may follow. -/
def finish : Reader Unit := do
  match ← peek with
  | none => pure ()
  | some _ => fail .trailingCharacters

def run {α : Type} (reader : Reader α) (text : String) : Except Fault α := do
  let (value, rest) ← reader text.toList
  let _ ← finish rest
  pure value

end Reader
end SymbolicRegression.Json
