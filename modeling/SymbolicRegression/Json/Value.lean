/-!
# JSON values

The tree of a JSON document. Members of an object keep their order and their repetitions, since a
reader may care about both. Whole numbers that fit a 64-bit word stay whole; every other number is
the binary64 number nearest to it.
-/
namespace SymbolicRegression.Json

/-- A number of a document. -/
inductive Number where
  /-- A whole number without a sign. -/
  | natural (n : UInt64)
  /-- The whole number `-magnitude`, where `0 < magnitude ≤ 2 ^ 63`. -/
  | negative (magnitude : UInt64)
  /-- Any other number. -/
  | real (x : Float)
deriving DecidableEq

namespace Number

/-- The binary64 number nearest to a number of a document. -/
def toFloat : Number → Float
  | natural n => n.toFloat
  | negative n => -n.toFloat
  | real x => x

end Number

inductive Value where
  | null
  | boolean (b : Bool)
  | number (n : Number)
  | text (s : String)
  | list (items : List Value)
  | object (members : List (String × Value))

namespace Value

/-- A binary64 number as a value: JSON has no numeral for what is not finite. -/
def ofFloat (x : Float) : Value := if x.isFinite then number (.real x) else null

def ofWord (n : UInt64) : Value := number (.natural n)

end Value
end SymbolicRegression.Json
