import Mathlib.Tactic
import SymbolicRegression.Json.Printer
import SymbolicRegression.Json.Text
import SymbolicRegression.Proofs.Json.Reading

/-!
# Quoted text reads back

Whatever characters a text has, what is written between quotes is decoded to the same characters.
-/
namespace SymbolicRegression.Json

theorem hexValue?_hexDigit {n : ℕ} (h : n < 16) : hexValue? (hexDigit n) = some n := by
  interval_cases n <;> rfl

/-- An escape with four digits below the space is decoded to its character. -/
theorem decode_unit {c : Char} (h : c.toNat < 32) (rest : List Char) :
    decode ('\\' :: 'u' :: '0' :: '0' :: hexDigit (c.toNat / 16) :: hexDigit (c.toNat % 16) :: rest)
      = (decode rest).map fun r => (c :: r.1, r.2) := by
  have unit : hexUnit? '0' '0' (hexDigit (c.toNat / 16)) (hexDigit (c.toNat % 16))
      = some c.toNat := by
    have high := hexValue?_hexDigit (n := c.toNat / 16) (by omega)
    have low := hexValue?_hexDigit (n := c.toNat % 16) (by omega)
    have zero : hexValue? '0' = some 0 := rfl
    unfold hexUnit?
    rw [high, low, zero]
    change some (((0 * 16 + 0) * 16 + c.toNat / 16) * 16 + c.toNat % 16) = _
    congr 1
    omega
  have trailing : isTrailing c.toNat = false := by
    rw [isTrailing, decide_eq_false (by omega), Bool.false_and]
  have leading : isLeading c.toNat = false := by
    rw [isLeading, decide_eq_false (by omega), Bool.false_and]
  have itself : Char.ofNat c.toNat = c := Char.ofNat_toNat c
  rw [decode]
  simp only [unit, trailing, leading, itself, Bool.false_eq_true, if_false]
  cases decode rest <;> rfl

/-- An escape of one letter is decoded to its character. -/
theorem decode_letter {letter c : Char} (h : escapeChar? letter = some c) (rest : List Char) :
    decode ('\\' :: letter :: rest) = (decode rest).map fun r => (c :: r.1, r.2) := by
  have notUnit : letter ≠ 'u' := by
    rintro rfl
    cases h
  rw [decode.eq_def]
  split <;> simp_all
  · cases decode rest <;> rfl
  next none _ eq => exact absurd eq.2.symm (none _ _ eq.1.symm)

/-- A character that needs no escape is decoded to itself. -/
theorem decode_plain {c : Char} (quote : c ≠ '"') (backslash : c ≠ '\\') (h : ¬c.toNat < 32)
    (rest : List Char) : decode (c :: rest) = (decode rest).map fun r => (c :: r.1, r.2) := by
  rw [decode.eq_def]
  split <;> simp_all
  next same =>
    obtain ⟨rfl, rfl⟩ := same
    rw [if_neg (by omega)]
    cases decode rest <;> rfl

/-- What is written for a character is decoded to it. -/
theorem decode_escaped (c : Char) (rest : List Char) :
    decode (escaped c ++ rest) = (decode rest).map fun r => (c :: r.1, r.2) := by
  unfold escaped
  split_ifs with quote backslash b f n r t control
  · exact decode_letter (by rw [quote]; rfl) rest
  · exact decode_letter (by rw [backslash]; rfl) rest
  · exact decode_letter (by rw [b]; rfl) rest
  · exact decode_letter (by rw [f]; rfl) rest
  · exact decode_letter (by rw [n]; rfl) rest
  · exact decode_letter (by rw [r]; rfl) rest
  · exact decode_letter (by rw [t]; rfl) rest
  · exact decode_unit control rest
  · exact decode_plain quote backslash control rest

/-- A row of characters between quotes is decoded to itself. -/
theorem decode_flatMap_escaped (cs rest : List Char) :
    decode (cs.flatMap escaped ++ '"' :: rest) = .ok (cs, rest) := by
  induction cs with
  | nil => rfl
  | cons c cs ih =>
    rw [List.flatMap_cons, List.append_assoc, decode_escaped, ih]
    rfl

/-- A quoted text is read back. -/
theorem Reader.quotedText_quoted (s : String) (rest : List Char) :
    Reader.quotedText (quoted s rest) = .ok (s, rest) := by
  unfold Reader.quotedText quoted
  simp only [List.tail_cons, decode_flatMap_escaped, String.ofList_toList]

end SymbolicRegression.Json
