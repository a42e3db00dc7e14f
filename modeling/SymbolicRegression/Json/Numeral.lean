import SymbolicRegression.Json.Reader

/-!
# Reading numerals

A numeral is a whole part without needless zeros, an optional fraction and an optional exponent.
Without the latter two it is a whole number if a signed or unsigned 64-bit word holds it; any other
numeral denotes the nearest binary64 number, which has to be finite. Only so many digits of a
numeral are looked at as can matter; what is behind them is taken to be something.
-/
namespace SymbolicRegression.Json

/-- The whole number that a row of digits denotes. -/
def natOfDigits (digits : List Char) : Nat :=
  digits.foldl (fun n c => n * 10 + (c.toNat - 48)) 0

/-- The parts of a numeral, without its sign. -/
structure Numeral where
  whole : List Char
  fraction : List Char
  /-- The exponent, if one is written. -/
  exponent : Option Int

namespace Numeral

/-- The digits of the fraction without the zeros at its end. -/
def fractionDigits (n : Numeral) : List Char := (n.fraction.reverse.dropWhile (· = '0')).reverse

/-- The digits without zeros in front, and without those at the end of the fraction. -/
def significantDigits (n : Numeral) : List Char :=
  (n.whole ++ n.fractionDigits).dropWhile (· = '0')

/-- The number of digits that are looked at. A number halfway between two neighbouring binary64
numbers has no more of them. -/
def digitLimit : Nat := 768

/-- The decimal of digits, the last of which counts units of `10 ^ exponent`. Digits behind the
limit, be they zeros, are taken to be something: a one stands for them. -/
def limited (digits : List Char) (exponent : Int) : Decimal :=
  if digits.length ≤ digitLimit then ⟨natOfDigits digits, exponent⟩
  else
    ⟨natOfDigits (digits.take digitLimit) * 10 + 1,
      exponent + (digits.length - digitLimit - 1 : Nat)⟩

/-- The magnitude as a decimal. -/
def toDecimal (n : Numeral) : Decimal :=
  limited n.significantDigits (n.exponent.getD 0 - n.fractionDigits.length)

/-- Whether neither a fraction nor an exponent is written. -/
def isWhole (n : Numeral) : Bool := n.fraction.isEmpty && n.exponent.isNone

/-- The whole part, if an unsigned 64-bit word holds it. It has no needless zeros, and no such word
has more than twenty digits, so a longer row need not be computed. -/
def magnitude (n : Numeral) : Option UInt64 :=
  if 20 < n.whole.length then none
  else
    let m := natOfDigits n.whole
    if m < UInt64.size then some (.ofNat m) else none

/-- The number that a numeral denotes as a binary64 number. -/
def toReal (isNegative : Bool) (n : Numeral) : Except GrammarFault Number :=
  let x := n.toDecimal.toFloat
  if x.isFinite then .ok (.real (if isNegative then -x else x)) else .error .numberRange

def toNumber (isNegative : Bool) (n : Numeral) : Except GrammarFault Number :=
  match n.isWhole, n.magnitude with
  | true, some m =>
    if !isNegative then .ok (.natural m)
    else if 0 < m ∧ 2 * m.toNat ≤ UInt64.size then .ok (.negative m)
    else n.toReal isNegative
  | _, _ => n.toReal isNegative

end Numeral

namespace Reader

def digits : Reader (List Char) := fun s =>
  .ok (s.takeWhile Char.isDigit, s.dropWhile Char.isDigit)

/-- The next character, without skipping blanks or consuming it. -/
def front : Reader (Option Char) := fun s => .ok (s.head?, s)

/-- The whole part of a numeral; `ended` is the fault of a text that ends before it. -/
def wholePart (ended : GrammarFault) : Reader (List Char) := do
  match ← front with
  | none => fail ended
  | some '0' =>
    advance
    match ← front with
    | some c => if c.isDigit then fail .badNumber else pure ['0']
    | none => pure ['0']
  | some c => if c.isDigit then digits else fail .badNumber

/-- The fraction of a numeral from its point on, if there is one. -/
def fractionPart (ended : GrammarFault) : Reader (List Char) := do
  match ← front with
  | some '.' =>
    advance
    match ← digits with
    | [] =>
      match ← front with
      | none => fail ended
      | some _ => fail .badNumber
    | ds => pure ds
  | _ => pure []

/-- The exponent of a numeral from its letter on, if there is one. -/
def exponentPart (ended : GrammarFault) : Reader (Option Int) := do
  match ← front with
  | none => pure none
  | some c =>
    if c = 'e' ∨ c = 'E' then
      advance
      let sign ← front
      if sign = some '+' ∨ sign = some '-' then advance
      match ← digits with
      | [] =>
        match ← front with
        | none => fail ended
        | some _ => fail .badNumber
      | ds =>
        let n := natOfDigits ds
        pure (some (if sign = some '-' then -(n : Int) else n))
    else pure none

/-- The parts of a numeral behind its sign. -/
def numeral (ended : GrammarFault) : Reader Numeral := do
  let whole ← wholePart ended
  let fraction ← fractionPart ended
  let exponent ← exponentPart ended
  pure ⟨whole, fraction, exponent⟩

/-- A number, its sign or first digit being in front. -/
def number : Reader Number := do
  let isNegative := (← front) = some '-'
  if isNegative then advance
  let n ← numeral .endOfValue
  match n.toNumber isNegative with
  | .ok number => pure number
  | .error fault => fail fault

/-- Skips a number without asking whether it is in range. A numeral that ends too early is then no
different from a malformed one. -/
def skipNumber : Reader Unit := do
  if (← front) = some '-' then advance
  let _ ← numeral .badNumber
  pure ()

end Reader
end SymbolicRegression.Json
