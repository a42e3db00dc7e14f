import SymbolicRegression.Decimal.Shortest

/-!
# Styles of writing a number

A style fixes what the shortest digits leave open: where ties go, which magnitudes are written
without an exponent, and whether a whole number keeps a fraction part.
-/
namespace SymbolicRegression.Decimal

/-- The decisions of a number format. -/
structure Style where
  /-- Where an exact tie between two shortest decimals goes. -/
  tie : Tie
  /-- Least and greatest power of ten of the first digit that is written without an exponent;
  without bounds every number is. -/
  positional : Option (Int × Int)
  /-- Whether a whole number is still written with a point and a zero. -/
  fraction : Bool

namespace Style

/-- Plain numbers never have an exponent, and whole numbers no point. -/
def plain : Style := ⟨.up, none, false⟩

/-- Numbers of a JSON document have an exponent below `10 ^ -5` and from `10 ^ 16` on, and
otherwise always a point. -/
def json : Style := ⟨.even, some (-5, 15), true⟩

/-- Whether a number whose first digit stands for `10 ^ e` is written without an exponent. -/
def isPositional (style : Style) (e : Int) : Bool :=
  match style.positional with
  | none => true
  | some (least, greatest) => least ≤ e && e ≤ greatest

/-- Digits with the point put where the exponent says. -/
def placePoint (style : Style) (digits : List Char) (exponent : Int) : List Char :=
  if 0 ≤ exponent then
    digits ++ List.replicate exponent.toNat '0' ++ if style.fraction then ['.', '0'] else []
  else
    let places := exponent.natAbs
    if places < digits.length then
      digits.take (digits.length - places) ++ '.' :: digits.drop (digits.length - places)
    else
      '0' :: '.' :: (List.replicate (places - digits.length) '0' ++ digits)

/-- One digit, the others after a point, and a signed exponent. -/
def scientific (digits : List Char) (e : Int) : List Char :=
  let mantissa :=
    match digits with
    | first :: second :: rest => first :: '.' :: second :: rest
    | short => short
  mantissa ++ 'e' :: (if e < 0 then '-' else '+') :: Nat.toDigits 10 e.natAbs

def decimal (style : Style) (d : Decimal) : List Char :=
  if style.isPositional d.magnitude then style.placePoint d.digits d.exponent
  else scientific d.digits d.magnitude

/-- The sign of a number that is not positive. -/
def sign : Float.Model.UnpackedFloat.Sign → List Char
  | .positive => []
  | .negative => ['-']

/-- A binary64 number in this style: its sign, also of a zero, and its shortest digits. What is
not a number has no sign. -/
def chars (style : Style) (x : Float) : List Char :=
  match x.toModel.unpack with
  | .notANumber => ['N', 'a', 'N']
  | .infinity s => sign s ++ ['i', 'n', 'f']
  | .zero s => sign s ++ style.decimal ⟨0, 0⟩
  | .finite s m q _ => sign s ++ style.decimal (shortest style.tie x.abs (ofBinary m q))

end Style

def plain (x : Float) : String := String.ofList (Style.plain.chars x)

end SymbolicRegression.Decimal
