import SymbolicRegression.Instant.Calendar
import SymbolicRegression.Text.Blank

/-!
# Reading instants

An instant is read from a date, a time of day and its distance from universal time. Blanks may
stand between the parts, and leading zeros be left out, except in the distance. The date has to
exist, and the instant to lie within the years that can be told apart.
-/
namespace SymbolicRegression.Instant

/-- A step that consumes the front of a text, or fails. -/
abbrev Scan := StateT (List Char) Option

namespace Scan

def blanks : Scan Unit := modify (List.dropWhile isBlankChar)

/-- Consumes one given character. -/
def exactly (c : Char) : Scan Unit := fun s =>
  match s with
  | d :: rest => if d = c then some ((), rest) else none
  | [] => none

/-- The number that a row of digits denotes. -/
def natOf (digits : List Char) : Nat := digits.foldl (fun n c => n * 10 + (c.toNat - 48)) 0

/-- At least one digit and at most so many; without a bound, all there are. -/
def digits (most : Option Nat) : Scan (List Char) := fun s =>
  let all := s.takeWhile Char.isDigit
  let taken := match most with
    | some n => all.take n
    | none => all
  if taken.isEmpty then none else some (taken, s.drop taken.length)

/-- A number without sign of at most so many digits, behind blanks. -/
def number (most : Nat) : Scan Nat := do
  blanks
  let ds ← digits (some most)
  pure (natOf ds)

/-- A year: four digits, or any number of them behind a sign. -/
def year : Scan Int := do
  blanks
  match ← get with
  | '-' :: rest =>
    set rest
    let ds ← digits none
    pure (-(natOf ds : Int))
  | '+' :: rest =>
    set rest
    let ds ← digits none
    pure (natOf ds)
  | _ =>
    let ds ← digits (some 4)
    pure (natOf ds)

/-- A separator behind blanks. -/
def separator (c : Char) : Scan Unit := do
  blanks
  exactly c

def date : Scan Date := do
  let year ← year
  separator '-'
  let month ← number 2
  separator '-'
  let day ← number 2
  let date : Date := ⟨year, month, day⟩
  if date.isValid then pure date else failure

/-- The nanoseconds of a fraction, of which the first nine digits count. -/
def fraction : Scan Nat := do
  match ← get with
  | '.' :: rest =>
    set rest
    let ds ← digits none
    let counted := ds.take 9
    pure (natOf counted * Nat.pow 10 (9 - counted.length))
  | _ => pure 0

/-- A time of day in seconds and nanoseconds; the second sixty is a leap second. -/
def timeOfDay : Scan (Nat × Nat) := do
  let hour ← number 2
  separator ':'
  let minute ← number 2
  separator ':'
  let second ← number 2
  let nanosecond ← fraction
  if hour < 24 ∧ minute < 60 ∧ second ≤ 60 then
    if second = 60 then pure (hour * 3600 + minute * 60 + 59, nanosecond + 1000000000)
    else pure (hour * 3600 + minute * 60 + second, nanosecond)
  else failure

def twoDigits : Scan Nat := fun s =>
  match s with
  | a :: b :: rest => if a.isDigit && b.isDigit then some (natOf [a, b], rest) else none
  | _ => none

/-- Hours and minutes in seconds. -/
def distance : Scan Nat := do
  let hours ← twoDigits
  modify (List.dropWhile fun c => c = ':' || isBlankChar c)
  let minutes ← twoDigits
  if hours < 24 ∧ minutes < 60 then pure (hours * 3600 + minutes * 60) else failure

/-- How many seconds a local time is ahead of universal time. -/
def offset : Scan Int := do
  match ← get with
  | c :: rest =>
    if ((c :: rest).take 3).map Char.toUpper = ['U', 'T', 'C'] then
      set (rest.drop 2)
      pure 0
    else
      set rest
      if c = 'Z' ∨ c = 'z' then pure 0
      else if c = '+' then
        let d ← distance
        pure d
      else if c = '-' ∨ c.toNat = 0x2212 then
        let d ← distance
        pure (-(d : Int))
      else failure
  | [] => failure

/-- Whether a day lies within the years that can be told apart. -/
def inRange (days : Int) : Bool :=
  (Date.mk (-262143) 1 1).toDays ≤ days && days ≤ (Date.mk 262142 12 31).toDays

/-- An instant, with blanks around it. -/
def instant : Scan Instant := do
  let date ← date
  match ← get with
  | c :: rest => if c = 'T' ∨ c = 't' ∨ c = ' ' then set rest else failure
  | [] => failure
  let (ofDay, nanosecond) ← timeOfDay
  blanks
  let ahead ← offset
  blanks
  let second := date.toDays * 86400 + ofDay - ahead
  if inRange date.toDays ∧ inRange (second / 86400) then pure ⟨second, nanosecond⟩ else failure

end Scan

/-- The instant that a whole text denotes. -/
def ofText? (text : String) : Option Instant :=
  match Scan.instant text.toList with
  | some (i, []) => some i
  | _ => none

end SymbolicRegression.Instant
