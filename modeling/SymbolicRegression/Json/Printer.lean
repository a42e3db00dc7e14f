import SymbolicRegression.Decimal.Style
import SymbolicRegression.Json.Value

/-!
# Writing JSON

A value is written member by member in the order it holds them. The spacing decides about line
breaks and indentation only; everything else is common to the compact and the indented form.
-/
namespace SymbolicRegression.Json

/-- Blank text between the tokens of a document. -/
structure Spacing where
  /-- What stands before an item, and before the closing bracket, at a depth of nesting. -/
  line : Nat → List Char
  /-- What stands between a colon and the value after it. -/
  gap : List Char

namespace Spacing

/-- No blanks at all. -/
def compact : Spacing := ⟨fun _ => [], []⟩

/-- Every item on a line of its own, indented by two blanks for each level. -/
def indented : Spacing := ⟨fun depth => '\n' :: List.replicate (2 * depth) ' ', [' ']⟩

end Spacing

def hexDigit (n : Nat) : Char := Nat.digitChar n

/-- A character inside quotes: quotes, backslashes and characters below the space are escaped. -/
def escaped (c : Char) : List Char :=
  if c = '"' then ['\\', '"']
  else if c = '\\' then ['\\', '\\']
  else if c = '\x08' then ['\\', 'b']
  else if c = '\x0c' then ['\\', 'f']
  else if c = '\n' then ['\\', 'n']
  else if c = '\r' then ['\\', 'r']
  else if c = '\t' then ['\\', 't']
  else if c.toNat < 32 then ['\\', 'u', '0', '0', hexDigit (c.toNat / 16), hexDigit (c.toNat % 16)]
  else [c]

/-- A text in quotes, in front of what follows it. -/
def quoted (s : String) (rest : List Char) : List Char :=
  '"' :: (s.toList.flatMap escaped ++ '"' :: rest)

namespace Number

def chars : Number → List Char
  | natural n => Nat.toDigits 10 n.toNat
  | negative n => '-' :: Nat.toDigits 10 n.toNat
  | real x => if x.isFinite then Decimal.Style.json.chars x else ['n', 'u', 'l', 'l']

end Number

namespace Value

mutual

/-- The text of a value at a depth of nesting, in front of what follows it. -/
def put (sp : Spacing) (depth : Nat) : Value → List Char → List Char
  | null, rest => 'n' :: 'u' :: 'l' :: 'l' :: rest
  | boolean true, rest => 't' :: 'r' :: 'u' :: 'e' :: rest
  | boolean false, rest => 'f' :: 'a' :: 'l' :: 's' :: 'e' :: rest
  | number n, rest => n.chars ++ rest
  | text s, rest => quoted s rest
  | list [], rest => '[' :: ']' :: rest
  | list (item :: items), rest =>
    '[' :: (sp.line (depth + 1) ++ put sp (depth + 1) item
      (putItems sp (depth + 1) items (sp.line depth ++ ']' :: rest)))
  | object [], rest => '\x7b' :: '\x7d' :: rest
  | object ((name, value) :: members), rest =>
    '\x7b' :: (sp.line (depth + 1) ++ quoted name (':' :: (sp.gap ++ put sp (depth + 1) value
      (putMembers sp (depth + 1) members (sp.line depth ++ '\x7d' :: rest)))))

/-- The items after the first one, in front of what follows them. -/
def putItems (sp : Spacing) (depth : Nat) : List Value → List Char → List Char
  | [], rest => rest
  | item :: items, rest =>
    ',' :: (sp.line depth ++ put sp depth item (putItems sp depth items rest))

/-- The members after the first one, in front of what follows them. -/
def putMembers (sp : Spacing) (depth : Nat) : List (String × Value) → List Char → List Char
  | [], rest => rest
  | (name, value) :: members, rest =>
    ',' :: (sp.line depth ++ quoted name (':' :: (sp.gap ++ put sp depth value
      (putMembers sp depth members rest))))

end

/-- The text of a document with the given spacing. -/
def render (sp : Spacing) (v : Value) : String := String.ofList (v.put sp 0 [])

/-- The text of a document without blanks. -/
def compact (v : Value) : String := v.render .compact

/-- The text of a document with one item a line. -/
def indented (v : Value) : String := v.render .indented

end Value
end SymbolicRegression.Json
