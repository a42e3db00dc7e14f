import SymbolicRegression.Decimal.Style
import SymbolicRegression.Json.Value
import SymbolicRegression.Text.Hidden

/-!
# Why a document cannot be read

A document is refused either because it breaks the grammar of JSON or because what it holds is not
what was asked for. The wording of every reason stands here.
-/
namespace SymbolicRegression.Json

/-- A violation of the grammar. -/
inductive GrammarFault where
  | endOfList
  | endOfObject
  | endOfText
  | endOfValue
  | expectedColon
  | expectedListComma
  | expectedObjectComma
  | expectedWord
  | expectedValue
  | badEscape
  | badNumber
  | numberRange
  | controlCharacter
  | keyNotText
  | loneSurrogate
  | brokenSurrogate
  | trailingComma
  | trailingCharacters
  | tooDeep
deriving DecidableEq

namespace GrammarFault

/-- Whether the text merely ended too early. -/
def isEnd : GrammarFault → Bool
  | endOfList | endOfObject | endOfText | endOfValue => true
  | _ => false

def message : GrammarFault → String
  | endOfList => "EOF while parsing a list"
  | endOfObject => "EOF while parsing an object"
  | endOfText => "EOF while parsing a string"
  | endOfValue => "EOF while parsing a value"
  | expectedColon => "expected `:`"
  | expectedListComma => "expected `,` or `]`"
  | expectedObjectComma => "expected `,` or `\x7d`"
  | expectedWord => "expected ident"
  | expectedValue => "expected value"
  | badEscape => "invalid escape"
  | badNumber => "invalid number"
  | numberRange => "number out of range"
  | controlCharacter => "control character (\\u0000-\\u001F) found while parsing a string"
  | keyNotText => "key must be a string"
  | loneSurrogate => "lone leading surrogate in hex escape"
  | brokenSurrogate => "unexpected end of hex escape"
  | trailingComma => "trailing comma"
  | trailingCharacters => "trailing characters"
  | tooDeep => "recursion limit exceeded"

end GrammarFault

/-- What stands in a document where something else was expected. -/
inductive Found where
  | null
  | boolean (b : Bool)
  | number (n : Number)
  | text (s : String)
  | list
  | object

namespace Found

def ofValue : Value → Found
  | .null => null
  | .boolean b => boolean b
  | .number n => number n
  | .text s => text s
  | .list _ => list
  | .object _ => object

/-- A character of a quoted text in a message; one that does not show stands there by its number. -/
def messageChar (c : Char) : String :=
  if c = '"' then "\\\""
  else if c = '\\' then "\\\\"
  else if c = '\n' then "\\n"
  else if c = '\r' then "\\r"
  else if c = '\t' then "\\t"
  else if c.toNat = 0 then "\\0"
  else if isHiddenChar c then
    "\\u\x7b" ++ String.ofList (Nat.toDigits 16 c.toNat) ++ "\x7d"
  else String.singleton c

def message : Found → String
  | null => "null"
  | boolean b => "boolean `" ++ (if b then "true" else "false") ++ "`"
  | number (.natural n) => "integer `" ++ String.ofList (Nat.toDigits 10 n.toNat) ++ "`"
  | number (.negative n) => "integer `-" ++ String.ofList (Nat.toDigits 10 n.toNat) ++ "`"
  | number (.real x) => "floating point `" ++ String.ofList (Decimal.Style.json.chars x) ++ "`"
  | text s => "string \"" ++ String.join (s.toList.map messageChar) ++ "\""
  | list => "sequence"
  | object => "map"

end Found

/-- A well-formed document that does not hold what was asked for. -/
inductive ContentFault where
  | missingField (name : String)
  | duplicateField (name : String)
  | unknownField (name : String) (expected : List String)
  | unknownVariant (name : String) (expected : List String)
  /-- None of the forms that a document may take fits. -/
  | noVariant (kind : String)
  /-- The values were read but do not go together. -/
  | refused (reason : String)
  | wrongType (found : Found) (expected : String)
  | wrongValue (found : Found) (expected : String)
  | wrongLength (length : Nat) (expected : String)

namespace ContentFault

/-- The names that would have been right. -/
def alternatives : List String → String
  | [] => "there are no fields"
  | [a] => "expected `" ++ a ++ "`"
  | [a, b] => "expected `" ++ a ++ "` or `" ++ b ++ "`"
  | names => "expected one of " ++ ", ".intercalate (names.map fun n => "`" ++ n ++ "`")

def message : ContentFault → String
  | missingField name => "missing field `" ++ name ++ "`"
  | duplicateField name => "duplicate field `" ++ name ++ "`"
  | unknownField name expected => "unknown field `" ++ name ++ "`, " ++ alternatives expected
  | unknownVariant name expected => "unknown variant `" ++ name ++ "`, " ++ alternatives expected
  | noVariant kind => "data did not match any variant of untagged enum " ++ kind
  | refused reason => reason
  | wrongType found expected => "invalid type: " ++ found.message ++ ", expected " ++ expected
  | wrongValue found expected => "invalid value: " ++ found.message ++ ", expected " ++ expected
  | wrongLength length expected =>
    "invalid length " ++ String.ofList (Nat.toDigits 10 length) ++ ", expected " ++ expected

end ContentFault

/-- Why a document cannot be read. -/
inductive Fault where
  | grammar (fault : GrammarFault)
  | content (fault : ContentFault)

namespace Fault

def message : Fault → String
  | grammar fault => fault.message
  | content fault => fault.message

end Fault
end SymbolicRegression.Json
