import SymbolicRegression.Formula.Json
import SymbolicRegression.Instant.Printer
import SymbolicRegression.Instant.Reader

/-!
# Saved formulas

The record of a finished search, and the documents from which a formula can be taken up again: such
a record, a formula alone, or an expression alone.
-/
namespace SymbolicRegression

open Json

/-- The result of a finished search. -/
structure SavedFormula where
  solvedAt : Instant
  seed : UInt64
  generations : UInt64
  successes : UInt64
  fitness : Float
  size : UInt64
  formula : Formula
deriving DecidableEq

namespace SavedFormula

structure Parts where
  solvedAt : Option Instant
  seed : Option UInt64
  generations : Option UInt64
  successes : Option UInt64
  fitness : Option Float
  size : Option UInt64
  formula : Option Formula

def form : Form Parts SavedFormula where
  kind := "struct SolvedFormula"
  unknown := .skip
  empty := ⟨none, none, none, none, none, none, none⟩
  check parts := do
    let solvedAt ← required "solved_at" parts.solvedAt
    let seed ← required "seed" parts.seed
    let generations ← required "generations" parts.generations
    let successes ← required "successes" parts.successes
    let fitness ← required "fitness" parts.fitness
    let size ← required "size" parts.size
    let formula ← required "formula" parts.formula
    pure { solvedAt, seed, generations, successes, fitness, size, formula }
  checkShort count _ :=
    .error (.content (.wrongLength count "struct SolvedFormula with 7 elements"))

def slots {m : Type → Type} [Functor m] (instant : m Instant) (word : String → m UInt64)
    (float : m Float) (formula : m Formula) : List (Slot m Parts) :=
  [ .field "solved_at" Parts.solvedAt (fun p t => { p with solvedAt := some t }) instant,
    .field "seed" Parts.seed (fun p n => { p with seed := some n }) (word "u64"),
    .field "generations" Parts.generations (fun p n => { p with generations := some n })
      (word "u64"),
    .field "successes" Parts.successes (fun p n => { p with successes := some n }) (word "u64"),
    .field "fitness" Parts.fitness (fun p x => { p with fitness := some x }) float,
    .field "size" Parts.size (fun p n => { p with size := some n }) (word "usize"),
    .field "formula" Parts.formula (fun p f => { p with formula := some f }) formula ]

/-- The kind of text that an instant is. -/
def instantKind : String := "an RFC 3339 formatted date and time string"

def instantOf (s : String) : Except Fault Instant :=
  match Instant.ofText? s with
  | some t => .ok t
  | none => .error (.content (.wrongValue (.text s) instantKind))

def readInstant : Reader Instant := do
  let s ← Reader.text instantKind
  (instantOf s : Except Fault Instant)

def instantOfValue (v : Value) : Except Fault Instant := do
  let s ← v.asText instantKind
  instantOf s

/-- A result straight from a text. -/
def reader (depth : Nat) : Reader SavedFormula :=
  Reader.record form
    (fun depth => slots readInstant Reader.word64 Reader.float (Formula.reader depth)) depth

def read (text : String) : Except Fault SavedFormula := (reader depthLimit).run text

def ofValue (v : Value) : Except Fault SavedFormula :=
  form.ofValue (slots instantOfValue Value.asWord Value.asFloat Formula.ofValue) v

def toValue (s : SavedFormula) : Value :=
  .object
    [ ("solved_at", .text s.solvedAt.render),
      ("seed", .ofWord s.seed),
      ("generations", .ofWord s.generations),
      ("successes", .ofWord s.successes),
      ("fitness", .ofFloat s.fitness),
      ("size", .ofWord s.size),
      ("formula", s.formula.toValue) ]

end SavedFormula

/-- What a document that holds a formula may be. -/
inductive FormulaDocument where
  | saved (result : SavedFormula)
  | formula (formula : Formula)
  | expr (expr : Expr)
deriving DecidableEq

namespace FormulaDocument

def toFormula : FormulaDocument → Formula
  | saved result => result.formula
  | formula f => f
  | expr e => ⟨e⟩

/-- The first form that fits a value held in memory. -/
def ofValue (v : Value) : Except Fault FormulaDocument :=
  match SavedFormula.ofValue v with
  | .ok result => .ok (saved result)
  | .error _ =>
    match Formula.ofValue v with
    | .ok f => .ok (formula f)
    | .error _ =>
      match Expr.ofValue v with
      | .ok e => .ok (expr e)
      | .error _ => .error (.content (.noVariant "FormulaFile"))

/-- A document straight from a text. -/
def reader (depth : Nat) : Reader FormulaDocument := do
  let v ← Reader.value depth
  (ofValue v : Except Fault FormulaDocument)

def read (text : String) : Except Fault FormulaDocument := (reader depthLimit).run text

end FormulaDocument
end SymbolicRegression
