import SymbolicRegression.Json.Fields
import SymbolicRegression.Mutation.Parameters

/-!
# Parameters in documents

Parameters are an object that names those which differ from the standard ones, and no others, or a
list of the first few in order.
-/
namespace SymbolicRegression.Mutation.Parameters

open Json

structure Parts where
  wrap : Option Float
  change : Option Float
  changeOperator : Option Float
  regenerate : Option Float
  collapse : Option Float
  maxDelta : Option Float
  literalWeight : Option Float
  inputWeight : Option Float
  binaryWeight : Option Float
  maxDepth : Option UInt64

/-- The parameters with what has been read in place of the standard ones. -/
def ofParts (p : Parts) : Parameters where
  wrap := p.wrap.getD standard.wrap
  change := p.change.getD standard.change
  changeOperator := p.changeOperator.getD standard.changeOperator
  regenerate := p.regenerate.getD standard.regenerate
  collapse := p.collapse.getD standard.collapse
  maxDelta := p.maxDelta.getD standard.maxDelta
  literalWeight := p.literalWeight.getD standard.literalWeight
  inputWeight := p.inputWeight.getD standard.inputWeight
  binaryWeight := p.binaryWeight.getD standard.binaryWeight
  maxDepth := p.maxDepth.getD standard.maxDepth

def form : Form Parts Parameters where
  kind := "struct MutationParams"
  unknown := .refuse
  empty := ⟨none, none, none, none, none, none, none, none, none, none⟩
  check parts := .ok (ofParts parts)
  checkShort _ parts := .ok (ofParts parts)

def floatSlot (parameter : Parameter) (get : Parts → Option Float)
    (put : Parts → Float → Parts) : Slot Reader Parts :=
  .field parameter.name get put Reader.float

/-- The parameters in their order. -/
def slots : List (Slot Reader Parts) :=
  [ floatSlot .wrap Parts.wrap (fun p x => { p with wrap := some x }),
    floatSlot .change Parts.change (fun p x => { p with change := some x }),
    floatSlot .changeOperator Parts.changeOperator (fun p x => { p with changeOperator := some x }),
    floatSlot .regenerate Parts.regenerate (fun p x => { p with regenerate := some x }),
    floatSlot .collapse Parts.collapse (fun p x => { p with collapse := some x }),
    floatSlot .maxDelta Parts.maxDelta (fun p x => { p with maxDelta := some x }),
    floatSlot .literalWeight Parts.literalWeight (fun p x => { p with literalWeight := some x }),
    floatSlot .inputWeight Parts.inputWeight (fun p x => { p with inputWeight := some x }),
    floatSlot .binaryWeight Parts.binaryWeight (fun p x => { p with binaryWeight := some x }),
    .field Parameter.maxDepth.name Parts.maxDepth (fun p n => { p with maxDepth := some n })
      (Reader.word64 "usize") ]

def reader (depth : Nat) : Reader Parameters := Reader.record form (fun _ => slots) depth

def read (text : String) : Except Fault Parameters := (reader depthLimit).run text

/-- Parameters as a value, all of them named. -/
def toValue (p : Parameters) : Value :=
  .object
    [ (Parameter.wrap.name, .ofFloat p.wrap),
      (Parameter.change.name, .ofFloat p.change),
      (Parameter.changeOperator.name, .ofFloat p.changeOperator),
      (Parameter.regenerate.name, .ofFloat p.regenerate),
      (Parameter.collapse.name, .ofFloat p.collapse),
      (Parameter.maxDelta.name, .ofFloat p.maxDelta),
      (Parameter.literalWeight.name, .ofFloat p.literalWeight),
      (Parameter.inputWeight.name, .ofFloat p.inputWeight),
      (Parameter.binaryWeight.name, .ofFloat p.binaryWeight),
      (Parameter.maxDepth.name, .ofWord p.maxDepth) ]

end SymbolicRegression.Mutation.Parameters
