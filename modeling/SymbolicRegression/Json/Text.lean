import SymbolicRegression.Json.Reader

/-!
# Reading quoted text

A quoted text ends at the first quote that is not escaped. Characters outside the basic plane may
be written as two escapes, the halves of a surrogate pair; half a pair on its own denotes no
character. Text that is skipped is not decoded, so there half a pair goes unnoticed.
-/
namespace SymbolicRegression.Json

/-- The value of a hexadecimal digit in either case. -/
def hexValue? (c : Char) : Option Nat :=
  if '0' ≤ c ∧ c ≤ '9' then some (c.toNat - 48)
  else if 'a' ≤ c ∧ c ≤ 'f' then some (c.toNat - 87)
  else if 'A' ≤ c ∧ c ≤ 'F' then some (c.toNat - 55)
  else none

def hexUnit? (a b c d : Char) : Option Nat := do
  let a ← hexValue? a
  let b ← hexValue? b
  let c ← hexValue? c
  let d ← hexValue? d
  pure (((a * 16 + b) * 16 + c) * 16 + d)

def byteLength (s : List Char) : Nat := (String.ofList s).utf8ByteSize

/-- Four bytes are looked at before they are found not to be digits: with fewer left, the text has
ended inside the escape. -/
def unitFault (rest : List Char) : GrammarFault :=
  if byteLength rest < 4 then .endOfText else .badEscape

/-- What a one-letter escape stands for. -/
def escapeChar? (c : Char) : Option Char :=
  if c = '"' ∨ c = '\\' ∨ c = '/' then some c
  else if c = 'b' then some '\x08'
  else if c = 'f' then some '\x0c'
  else if c = 'n' then some '\n'
  else if c = 'r' then some '\r'
  else if c = 't' then some '\t'
  else none

/-- Whether a 16-bit unit is the first half of a surrogate pair. -/
def isLeading (n : Nat) : Bool := 0xD800 ≤ n && n ≤ 0xDBFF

/-- Whether a 16-bit unit is the second half of a surrogate pair. -/
def isTrailing (n : Nat) : Bool := 0xDC00 ≤ n && n ≤ 0xDFFF

/-- The character of a surrogate pair. -/
def pairChar (n m : Nat) : Char := Char.ofNat ((n - 0xD800) * 1024 + (m - 0xDC00) + 0x10000)

/-- Why the second half of a surrogate pair is not there. -/
def pairFault : List Char → GrammarFault
  | [] => .endOfText
  | '\\' :: [] => .endOfText
  | '\\' :: 'u' :: rest => unitFault rest
  | _ => .brokenSurrogate

/-- The characters up to the closing quote, and the text behind it. -/
def decode : List Char → Except GrammarFault (List Char × List Char)
  | [] => .error .endOfText
  | '"' :: rest => .ok ([], rest)
  | '\\' :: 'u' :: a :: b :: c :: d :: rest =>
    match hexUnit? a b c d with
    | none => .error (unitFault (a :: b :: c :: d :: rest))
    | some n =>
      if isTrailing n then .error .loneSurrogate
      else if isLeading n then
        match rest with
        | '\\' :: 'u' :: e :: f :: g :: h :: rest =>
          match hexUnit? e f g h with
          | none => .error (unitFault (e :: f :: g :: h :: rest))
          | some m =>
            if isTrailing m then do
              let (cs, rest) ← decode rest
              .ok (pairChar n m :: cs, rest)
            else .error .loneSurrogate
        | rest => .error (pairFault rest)
      else do
        let (cs, rest) ← decode rest
        .ok (Char.ofNat n :: cs, rest)
  | '\\' :: 'u' :: rest => .error (unitFault rest)
  | '\\' :: c :: rest =>
    match escapeChar? c with
    | none => .error .badEscape
    | some e => do
      let (cs, rest) ← decode rest
      .ok (e :: cs, rest)
  | ['\\'] => .error .endOfText
  | c :: rest =>
    if c.toNat < 32 then .error .controlCharacter
    else do
      let (cs, rest) ← decode rest
      .ok (c :: cs, rest)

/-- The text behind the closing quote, where escapes are only checked for their form. -/
def skipQuoted : List Char → Except GrammarFault (List Char)
  | [] => .error .endOfText
  | '"' :: rest => .ok rest
  | '\\' :: 'u' :: a :: b :: c :: d :: rest =>
    match hexUnit? a b c d with
    | none => .error (unitFault (a :: b :: c :: d :: rest))
    | some _ => skipQuoted rest
  | '\\' :: 'u' :: rest => .error (unitFault rest)
  | '\\' :: c :: rest =>
    match escapeChar? c with
    | none => .error .badEscape
    | some _ => skipQuoted rest
  | ['\\'] => .error .endOfText
  | c :: rest => if c.toNat < 32 then .error .controlCharacter else skipQuoted rest

namespace Reader

/-- A quoted text, its opening quote being in front. -/
def quotedText : Reader String := fun s =>
  match decode s.tail with
  | .ok (cs, rest) => .ok (String.ofList cs, rest)
  | .error fault => .error (.grammar fault)

/-- Skips a quoted text, its opening quote being in front. -/
def skipText : Reader Unit := fun s =>
  match skipQuoted s.tail with
  | .ok rest => .ok ((), rest)
  | .error fault => .error (.grammar fault)

/-- Folds the remaining members of an object up to its closing bracket. The step gets the name of
the member and reads from the colon on. -/
def foldMembers {σ : Type} (member : σ → String → Reader σ) : Nat → Bool → σ → Reader σ
  | 0, _, _ => fail .endOfObject
  | steps + 1, first, acc => do
    if ← moreMembers first then
      let name ← quotedText
      let acc ← member acc name
      foldMembers member steps false acc
    else pure acc

/-- Reads an object whose opening bracket has been consumed, with its closing bracket. What has
been gathered is checked before the bracket is consumed. -/
def members {σ α : Type} (member : σ → String → Reader σ) (init : σ)
    (check : σ → Except Fault α) : Reader α := do
  let text ← get
  let gathered ← foldMembers member (text.length + 1) true init
  let result ← (check gathered : Except Fault α)
  closeObject
  pure result

end Reader
end SymbolicRegression.Json
