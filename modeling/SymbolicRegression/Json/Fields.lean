import SymbolicRegression.Json.Document

/-!
# Reading records

A record is written as an object with named members, or as a list of its fields in their fixed
order. Its fields are described once, by slots, for two ways of reading: straight from a text, and
from a value already held in memory.
-/
namespace SymbolicRegression.Json

/-- A field of a record that is being gathered in `σ`, and how its value is read. -/
structure Slot (m : Type → Type) (σ : Type) where
  name : String
  /-- Whether the field has been read already. -/
  filled : σ → Bool
  /-- Reads the value of the field. -/
  read : σ → m σ

/-- The slot of a field kept as an optional part of what is gathered. -/
def Slot.field {m : Type → Type} {σ α : Type} [Functor m] (name : String) (get : σ → Option α)
    (put : σ → α → σ) (value : m α) : Slot m σ :=
  ⟨name, fun acc => (get acc).isSome, fun acc => put acc <$> value⟩

/-- What happens to a member that is no field of the record. -/
inductive Unknown where
  | skip
  | refuse
deriving DecidableEq

/-- How a record of type `α` is put together from gathered fields. -/
structure Form (σ α : Type) where
  /-- The kind of record, as messages name it. -/
  kind : String
  unknown : Unknown
  /-- Before any field has been read. -/
  empty : σ
  /-- Puts the record together at the end of an object. -/
  check : σ → Except Fault α
  /-- Puts the record together at the end of a list with too few items. -/
  checkShort : Nat → σ → Except Fault α

/-- A field that has to be there. -/
def required {α : Type} (name : String) : Option α → Except Fault α
  | some a => .ok a
  | none => .error (.content (.missingField name))

namespace Reader

/-- Reads the member `name` from its colon on into its slot. -/
def intoSlot {σ : Type} (unknown : Unknown) (slots : List (Slot Reader σ)) (acc : σ)
    (name : String) : Reader σ :=
  match slots.find? (fun slot => slot.name = name) with
  | some slot =>
    if slot.filled acc then reject (.duplicateField name)
    else do
      colon
      slot.read acc
  | none =>
    match unknown with
    | .skip => do
      colon
      skip
      pure acc
    | .refuse => reject (.unknownField name (slots.map Slot.name))

/-- Reads the items of a list into the slots in their order. -/
def intoSlots {σ α : Type} (form : Form σ α) : List (Slot Reader σ) → Nat → σ → Reader α
  | [], _, acc => (form.check acc : Except Fault α)
  | slot :: slots, count, acc => do
    if ← moreItems (count = 0) then
      let acc ← slot.read acc
      intoSlots form slots (count + 1) acc
    else (form.checkShort count acc : Except Fault α)

/-- A record in either form; the slots read their values at the depth that is left. -/
def record {σ α : Type} (form : Form σ α) (slots : Nat → List (Slot Reader σ)) (depth : Nat) :
    Reader α := do
  match ← peek with
  | none => fail .endOfValue
  | some '[' =>
    match depth with
    | 0 => fail .tooDeep
    | depth + 1 =>
      advance
      let result ← intoSlots form (slots depth) 0 form.empty
      closeList
      pure result
  | some '\x7b' =>
    match depth with
    | 0 => fail .tooDeep
    | depth + 1 =>
      advance
      members (intoSlot form.unknown (slots depth)) form.empty form.check
  | some _ => mismatch form.kind

end Reader

/-- Reading from a value held in memory in the form `V`. -/
abbrev Held (V : Type) := ReaderT V (Except Fault)

namespace Form

variable {V σ α : Type}

/-- Reads the member `name`, held in memory, into its slot. -/
def intoSlot (unknown : Unknown) (slots : List (Slot (Held V) σ)) (acc : σ) (name : String)
    (value : V) : Except Fault σ :=
  match slots.find? (fun slot => slot.name = name) with
  | some slot =>
    if slot.filled acc then .error (.content (.duplicateField name)) else slot.read acc value
  | none =>
    match unknown with
    | .skip => .ok acc
    | .refuse => .error (.content (.unknownField name (slots.map Slot.name)))

/-- Gathers the members of an object held in memory. -/
def gather (unknown : Unknown) (slots : List (Slot (Held V) σ)) :
    σ → List (String × V) → Except Fault σ
  | acc, [] => .ok acc
  | acc, (name, value) :: members => do
    let acc ← intoSlot unknown slots acc name value
    gather unknown slots acc members

/-- A record from the members of an object held in memory. -/
def ofMembers (form : Form σ α) (slots : List (Slot (Held V) σ)) (members : List (String × V)) :
    Except Fault α := do
  let acc ← gather form.unknown slots form.empty members
  form.check acc

/-- Gathers the items of a list held in memory, `count` of which have been gathered before. -/
def ofItemsFrom (form : Form σ α) : List (Slot (Held V) σ) → Nat → σ → List V → Except Fault α
  | [], _, acc, [] => form.check acc
  | [], count, _, items => .error (.content (.wrongLength (count + items.length) form.kind))
  | _ :: _, count, acc, [] => form.checkShort count acc
  | slot :: slots, count, acc, item :: items => do
    let acc ← slot.read acc item
    ofItemsFrom form slots (count + 1) acc items

/-- A record from the items of a list held in memory. -/
def ofItems (form : Form σ α) (slots : List (Slot (Held V) σ)) (items : List V) :
    Except Fault α :=
  ofItemsFrom form slots 0 form.empty items

/-- A record from a value held in memory, in either form. -/
def ofValue (form : Form σ α) (slots : List (Slot (Held Value) σ)) : Value → Except Fault α
  | .object members => form.ofMembers slots members
  | .list items => form.ofItems slots items
  | v => v.mismatch form.kind

end Form
end SymbolicRegression.Json
