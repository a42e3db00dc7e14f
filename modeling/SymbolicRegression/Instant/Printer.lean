import SymbolicRegression.Instant.Calendar

/-!
# Writing instants

An instant is written in universal time, with no more groups of three fraction digits than it
needs. Years of other than four digits have a sign.
-/
namespace SymbolicRegression.Instant

/-- A number with zeros in front up to a width. -/
def padded (width n : Nat) : List Char :=
  let digits := Nat.toDigits 10 n
  List.replicate (width - digits.length) '0' ++ digits

def yearChars (year : Int) : List Char :=
  if 0 ≤ year ∧ year ≤ 9999 then padded 4 year.toNat
  else (if year < 0 then '-' else '+') :: padded 4 year.natAbs

def fractionChars (nanosecond : Nat) : List Char :=
  if nanosecond = 0 then []
  else if nanosecond % 1000000 = 0 then '.' :: padded 3 (nanosecond / 1000000)
  else if nanosecond % 1000 = 0 then '.' :: padded 6 (nanosecond / 1000)
  else '.' :: padded 9 nanosecond

def chars (i : Instant) : List Char :=
  let date := Date.ofDays (i.second / 86400)
  let ofDay := (i.second % 86400).toNat
  let leap := i.nanosecond / 1000000000
  yearChars date.year ++ '-' :: (padded 2 date.month ++ '-' :: (padded 2 date.day ++ 'T' ::
    (padded 2 (ofDay / 3600) ++ ':' :: (padded 2 (ofDay / 60 % 60) ++ ':' ::
      (padded 2 (ofDay % 60 + leap) ++ (fractionChars (i.nanosecond % 1000000000) ++ ['Z']))))))

def render (i : Instant) : String := String.ofList i.chars

end SymbolicRegression.Instant
