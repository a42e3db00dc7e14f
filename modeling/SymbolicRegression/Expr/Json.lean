import SymbolicRegression.Expr.Basic
import SymbolicRegression.Operator.Json

/-!
# Expressions in documents

A node is an object with a member `type` that names its form, and the fields of that form; or a
list of the name and the fields in order. The name may stand behind the fields it governs, so a
node is first held in memory whole and only then taken apart. Of the nodes below, which are only
ever seen in memory, the form may also be given by its position.
-/
namespace SymbolicRegression.Expr

open Json

namespace Kind

def all : List Kind := [literal, input, binary]

def name : Kind → String
  | literal => "literal"
  | input => "input"
  | binary => "binary"

def ofName (s : String) : Except Fault Kind :=
  match all.find? (fun k => k.name = s) with
  | some k => .ok k
  | none => .error (.content (.unknownVariant s (all.map name)))

/-- The form given by a value held in memory: its name or its position. -/
def ofValue : Value → Except Fault Kind
  | .text s => ofName s
  | .number (.natural n) =>
    match all[n.toNat]? with
    | some k => .ok k
    | none => .error (.content (.wrongValue (.number (.natural n)) "variant index 0 <= i < 3"))
  | v => v.mismatch "variant identifier"

/-- The form straight from a text, where only its name will do. -/
def read : Reader Kind := do
  let s ← Reader.text "variant identifier"
  (ofName s : Except Fault Kind)

end Kind

/-- A value held in memory, together with the expression that it may be. -/
structure Part where
  value : Value
  expr : Except Fault Expr

/-- What has been gathered of a binary node. -/
structure Operands where
  op : Option Operator
  left : Option Expr
  right : Option Expr

def literalForm : Form (Option Float) Expr where
  kind := "struct variant Expr::Literal"
  unknown := .skip
  empty := none
  check value := literal <$> required "value" value
  checkShort count _ :=
    .error (.content (.wrongLength count "struct variant Expr::Literal with 1 element"))

def literalSlots : List (Slot (Held Part) (Option Float)) :=
  [.field "value" id (fun _ x => some x) (fun p => p.value.asFloat)]

def inputForm : Form (Option String) Expr where
  kind := "struct variant Expr::Input"
  unknown := .skip
  empty := none
  check name := input <$> required "name" name
  checkShort count _ :=
    .error (.content (.wrongLength count "struct variant Expr::Input with 1 element"))

def inputSlots : List (Slot (Held Part) (Option String)) :=
  [.field "name" id (fun _ s => some s) (fun p => p.value.asText "a string")]

def binaryForm : Form Operands Expr where
  kind := "struct variant Expr::Binary"
  unknown := .skip
  empty := ⟨none, none, none⟩
  check parts := do
    let op ← required "op" parts.op
    let left ← required "left" parts.left
    let right ← required "right" parts.right
    pure (binary op left right)
  checkShort count _ :=
    .error (.content (.wrongLength count "struct variant Expr::Binary with 3 elements"))

def binarySlots : List (Slot (Held Part) Operands) :=
  [ .field "op" Operands.op (fun acc op => { acc with op := some op })
      (fun p => Operator.ofValue p.value),
    .field "left" Operands.left (fun acc e => { acc with left := some e }) Part.expr,
    .field "right" Operands.right (fun acc e => { acc with right := some e }) Part.expr ]

/-- The node of a form with the given members. -/
def assemble (members : List (String × Part)) : Kind → Except Fault Expr
  | .literal => literalForm.ofMembers literalSlots members
  | .input => inputForm.ofMembers inputSlots members
  | .binary => binaryForm.ofMembers binarySlots members

/-- The node of a form with the given fields in order. -/
def assembleList (items : List Part) : Kind → Except Fault Expr
  | .literal => literalForm.ofItems literalSlots items
  | .input => inputForm.ofItems inputSlots items
  | .binary => binaryForm.ofItems binarySlots items

/-- The form and the other members of a node held in memory, gathered in reverse. -/
def separate : Option Kind × List (String × Part) → List (String × Part) →
    Except Fault (Option Kind × List (String × Part))
  | acc, [] => .ok acc
  | (kind, others), (name, part) :: members =>
    if name = "type" then
      match kind with
      | some _ => .error (.content (.duplicateField name))
      | none => do
        let k ← Kind.ofValue part.value
        separate (some k, others) members
    else separate (kind, (name, part) :: others) members

/-- The node of members gathered in reverse. -/
def ofGathered (gathered : Option Kind × List (String × Part)) : Except Fault Expr := do
  let kind ← required "type" gathered.1
  assemble gathered.2.reverse kind

/-- The node of an object held in memory. -/
def ofMembers (members : List (String × Part)) : Except Fault Expr := do
  let gathered ← separate (none, []) members
  ofGathered gathered

/-- The node of a list held in memory. -/
def ofItems : List Part → Except Fault Expr
  | [] => .error (.content (.missingField "type"))
  | part :: parts => do
    let kind ← Kind.ofValue part.value
    assembleList parts kind

mutual

/-- The expression that a value held in memory is. -/
def ofValue : Value → Except Fault Expr
  | .object members => ofMembers (memberParts members)
  | .list items => ofItems (itemParts items)
  | v => v.mismatch "internally tagged enum Expr"

/-- The items of a list, each with the expression that it may be. -/
def itemParts : List Value → List Part
  | [] => []
  | v :: vs => ⟨v, ofValue v⟩ :: itemParts vs

/-- The members of an object, each with the expression that it may be. -/
def memberParts : List (String × Value) → List (String × Part)
  | [] => []
  | (name, v) :: members => (name, ⟨v, ofValue v⟩) :: memberParts members

end

/-- An expression straight from a text. -/
def reader (depth : Nat) : Reader Expr := do
  match ← Reader.peek with
  | none => Reader.fail .endOfValue
  | some '[' =>
    match depth with
    | 0 => Reader.fail .tooDeep
    | depth + 1 =>
      Reader.advance
      if ← Reader.moreItems true then
        let kind ← Kind.read
        let text ← get
        let items ← Reader.foldItems (fun acc => do
          let item ← Reader.value depth
          pure (item :: acc)) (text.length + 1) false []
        Reader.closeList
        (assembleList (itemParts items.reverse) kind : Except Fault Expr)
      else Reader.reject (.missingField "type")
  | some '\x7b' =>
    match depth with
    | 0 => Reader.fail .tooDeep
    | depth + 1 =>
      Reader.advance
      Reader.members (fun (acc : Option Kind × List (String × Value)) name => do
        if name = "type" then
          match acc.1 with
          | some _ => Reader.reject (.duplicateField name)
          | none =>
            Reader.colon
            let kind ← Kind.read
            pure (some kind, acc.2)
        else
          Reader.colon
          let item ← Reader.value depth
          pure (acc.1, (name, item) :: acc.2)) (none, [])
        (fun acc => ofGathered (acc.1, memberParts acc.2))
  | some _ => Reader.mismatch "internally tagged enum Expr"

def read (text : String) : Except Fault Expr := (reader depthLimit).run text

def toValue : Expr → Value
  | literal value => .object [("type", .text Kind.literal.name), ("value", .ofFloat value)]
  | input name => .object [("type", .text Kind.input.name), ("name", .text name)]
  | binary op left right =>
    .object [("type", .text Kind.binary.name), ("op", op.toValue), ("left", left.toValue),
      ("right", right.toValue)]

end SymbolicRegression.Expr
