import SymbolicRegression.Decimal.Style

/-!
# Parameters of mutation

The chances and ranges that drive the random mutation of expressions, their defaults, and the
conditions under which they make sense.
-/
namespace SymbolicRegression.Mutation

inductive Parameter where
  | wrap
  | change
  | changeOperator
  | regenerate
  | collapse
  | maxDelta
  | literalWeight
  | inputWeight
  | binaryWeight
  | maxDepth
deriving DecidableEq

/-- The name of a parameter in configurations and messages. -/
def Parameter.name : Parameter → String
  | wrap => "p_add"
  | change => "p_change"
  | changeOperator => "p_change_op"
  | regenerate => "p_change_type"
  | collapse => "p_take_child"
  | maxDelta => "max_delta"
  | literalWeight => "weight_literal"
  | inputWeight => "weight_input"
  | binaryWeight => "weight_binary"
  | maxDepth => "max_generate_depth"

/-- The chances and ranges that drive mutation. -/
structure Parameters where
  /-- The chance of wrapping a mutated node into a new binary node. -/
  wrap : Float
  /-- The chance of changing the value of a literal or the field of an input. -/
  change : Float
  /-- The chance of drawing a new operator for a binary node. -/
  changeOperator : Float
  /-- The chance of replacing a child, or a whole formula, by a fresh tree. -/
  regenerate : Float
  /-- The chance of replacing a binary node by one of its children. -/
  collapse : Float
  /-- The bound of what is added to a literal. -/
  maxDelta : Float
  /-- The weight of literals in fresh trees. -/
  literalWeight : Float
  /-- The weight of inputs in fresh trees. -/
  inputWeight : Float
  /-- The weight of binary nodes in fresh trees. -/
  binaryWeight : Float
  /-- The depth from which on the weight of binary nodes in fresh trees does not count. -/
  maxDepth : UInt64
deriving DecidableEq

/-- Why parameters make no sense. -/
inductive ParameterError where
  | chance (parameter : Parameter) (value : Float)
  | maxDelta (value : Float)
  | weight (parameter : Parameter) (value : Float)
  | noLeafWeight
deriving DecidableEq

def ParameterError.message : ParameterError → String
  | chance parameter value =>
    "probability `" ++ parameter.name ++ "` must be within [0, 1], got " ++ Decimal.plain value
  | maxDelta value => "`max_delta` must be positive and finite, got " ++ Decimal.plain value
  | weight parameter value =>
    "weight `" ++ parameter.name ++ "` must be non-negative and finite, got " ++
      Decimal.plain value
  | noLeafWeight => "`weight_literal` and `weight_input` must not both be zero"

namespace Parameters

/-- The parameters where nothing else is said. -/
def standard : Parameters where
  wrap := 0.02
  change := 0.05
  changeOperator := 0.01
  regenerate := 0.01
  collapse := 0.01
  maxDelta := 100.0
  literalWeight := 0.40
  inputWeight := 0.50
  binaryWeight := 0.10
  maxDepth := 8

def chances (p : Parameters) : List (Parameter × Float) :=
  [ (.wrap, p.wrap), (.change, p.change), (.changeOperator, p.changeOperator),
    (.regenerate, p.regenerate), (.collapse, p.collapse) ]

def weights (p : Parameters) : List (Parameter × Float) :=
  [ (.literalWeight, p.literalWeight), (.inputWeight, p.inputWeight),
    (.binaryWeight, p.binaryWeight) ]

/-- The weight of all leaves in fresh trees. -/
def leafWeight (p : Parameters) : Float := p.literalWeight + p.inputWeight

def isChance (x : Float) : Bool := 0.0 ≤ x && x ≤ 1.0

/-- Whether a number is a weight. -/
def isWeight (x : Float) : Bool := x.isFinite && !(x < 0.0)

/-- Checks the parameters in their order; then a leaf must be able to come up. -/
def validate (p : Parameters) : Except ParameterError Unit :=
  match p.chances.find? (fun c => !isChance c.2) with
  | some (parameter, value) => .error (.chance parameter value)
  | none =>
    if !p.maxDelta.isFinite || p.maxDelta ≤ 0.0 then .error (.maxDelta p.maxDelta)
    else
      match p.weights.find? (fun w => !isWeight w.2) with
      | some (parameter, value) => .error (.weight parameter value)
      | none => if p.leafWeight ≤ 0.0 then .error .noLeafWeight else .ok ()

end Parameters
end SymbolicRegression.Mutation
