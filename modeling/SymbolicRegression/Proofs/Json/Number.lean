import SymbolicRegression.Json.Printer
import SymbolicRegression.Proofs.Decimal.Style

/-!
# Numbers read back

A number of a document is read back as it was written: whole numbers as whole numbers, and a finite
binary64 number bit by bit, with the sign of a zero.
-/
namespace SymbolicRegression.Json

open Decimal Numeral Binary64 Float.Model Float.Model.UnpackedFloat

/-- The sign in front of a numeral. -/
def signChars (isNegative : Bool) : List Char := if isNegative then ['-'] else []

namespace Reader

theorem head_chars {n : Numeral} (h : n.IsWritten) :
    ∃ c cs, n.chars = c :: cs ∧ c.isDigit = true := by
  rcases h.whole with zero | ⟨c, cs, shape, -, digits⟩
  · exact ⟨'0', _, by rw [Numeral.chars, zero]; rfl, rfl⟩
  · exact ⟨c, _, by rw [Numeral.chars, shape]; rfl, digits c List.mem_cons_self⟩

/-- A numeral with its sign is read as the number that it denotes. -/
theorem number_append {isNegative : Bool} {n : Numeral} {number_ : Number} {rest : List Char}
    (h : n.IsWritten) (hrest : Delimited rest) (denotes : n.toNumber isNegative = .ok number_) :
    number (signChars isNegative ++ (n.chars ++ rest)) = .ok (number_, rest) := by
  have read : numeral .endOfValue (n.chars ++ rest) = .ok (n, rest) := numeral_append h hrest
  cases isNegative with
  | true =>
    unfold number
    refine (bind_of_ok (front_cons '-' _)).trans ?_
    refine (bind_of_ok (advance_run '-' _)).trans ?_
    refine (bind_of_ok read).trans ?_
    simp only [decide_true, denotes]
    rfl
  | false =>
    obtain ⟨c, cs, shape, digit⟩ := head_chars h
    have unsigned : c ≠ '-' := by
      rintro rfl
      cases digit
    change number (n.chars ++ rest) = _
    rw [shape, List.cons_append] at read ⊢
    unfold number
    refine (bind_of_ok (front_cons c _)).trans ?_
    have sign : ¬some c = some '-' := by simp [unsigned]
    simp only [sign, decide_false, if_false]
    refine (bind_of_ok read).trans ?_
    simp only [denotes]
    rfl

end Reader

namespace Number

/-- Whether a number is one that documents hold: a whole number with a sign is not zero and has a
magnitude of 63 bits or the one next to them, and any other number is finite. -/
def IsPrinted : Number → Prop
  | natural _ => True
  | negative n => 0 < n ∧ 2 * n.toNat ≤ UInt64.size
  | real x => x.isFinite = true

/-- The numeral of a whole number. -/
def wholeNumeral (n : UInt64) : Numeral := ⟨Nat.toDigits 10 n.toNat, [], none⟩

theorem chars_wholeNumeral (n : UInt64) : (wholeNumeral n).chars = Nat.toDigits 10 n.toNat := by
  simp [wholeNumeral, Numeral.chars, fractionChars, exponentChars]

theorem isWritten_wholeNumeral (n : UInt64) : (wholeNumeral n).IsWritten := by
  refine ⟨?_, fun c hc => by cases hc⟩
  rcases Nat.eq_zero_or_pos n.toNat with zero | pos
  · exact .inl (by rw [wholeNumeral, zero]; rfl)
  · obtain ⟨c, cs, shape, first⟩ := exists_first_digit pos
    refine .inr ⟨c, cs, shape, first, ?_⟩
    rw [← shape]
    exact allDigits_toDigits _

theorem magnitude_wholeNumeral (n : UInt64) : (wholeNumeral n).magnitude = some n := by
  have bound := n.toNat_lt
  have length : ¬20 < (Nat.toDigits 10 n.toNat).length := by
    rw [not_lt, Nat.length_toDigits_le_iff (by norm_num) (by norm_num)]
    exact bound.trans (by norm_num)
  unfold Numeral.magnitude wholeNumeral
  simp only [length, if_false, natOfDigits_toDigits, bound, if_true]
  rw [UInt64.ofNat_toNat]

theorem toNumber_wholeNumeral (n : UInt64) :
    (wholeNumeral n).toNumber false = .ok (natural n) := by
  have whole : (wholeNumeral n).isWhole = true := rfl
  simp [toNumber, whole, magnitude_wholeNumeral]

theorem toNumber_wholeNumeral_negative {n : UInt64} (h : 0 < n ∧ 2 * n.toNat ≤ UInt64.size) :
    (wholeNumeral n).toNumber true = .ok (negative n) := by
  have whole : (wholeNumeral n).isWhole = true := rfl
  unfold toNumber
  rw [whole, magnitude_wholeNumeral]
  simp only [Bool.not_true, Bool.false_eq_true, if_false]
  rw [if_pos h]

theorem toNumber_of_not_whole {n : Numeral} (h : n.isWhole = false) (isNegative : Bool) :
    n.toNumber isNegative = n.toReal isNegative := by
  unfold toNumber
  rw [h]

/-- The digits that a finite number is written with. -/
def writtenDecimal (x : Float) : Decimal :=
  match x.toModel.unpack with
  | .finite _ m q _ => shortest Style.json.tie x.abs (ofBinary m q)
  | _ => ⟨0, 0⟩

/-- Whether a number has a negative sign. -/
def isSigned (x : Float) : Bool :=
  match x.toModel.unpack with
  | .finite .negative .. | .zero .negative => true
  | _ => false

/-- What is written of a finite number denotes its magnitude. -/
theorem writtenDecimal_spec {x : Float} (h : x.isFinite = true) :
    IsWritable (writtenDecimal x) ∧ (writtenDecimal x).coefficient < 10 ^ digitLimit ∧
      (writtenDecimal x).toFloat.isFinite = true ∧
      (if isSigned x then -(writtenDecimal x).toFloat else (writtenDecimal x).toFloat) = x := by
  have proper := isProper_unpack h
  unfold writtenDecimal isSigned
  cases hx : x.toModel.unpack with
  | infinity s => exact (hx ▸ proper : IsProper (.infinity s)).elim
  | notANumber => exact (hx ▸ proper : IsProper .notANumber).elim
  | zero s =>
    have zero : (⟨0, 0⟩ : Decimal).toFloat = 0.0 := toFloat_of_coefficient_eq_zero rfl
    refine ⟨.inr rfl, by norm_num [digitLimit], by rw [zero]; rfl, ?_⟩
    simp only [zero]
    apply eq_of_unpack_eq
    rw [hx]
    cases s <;> rfl
  | finite s m q hm =>
    obtain ⟨c, hq⟩ := canonical_of_unpack hx
    have positive : x.abs.toModel.unpack = .finite .positive m q hm := by
      rw [unpack_abs, hx]
      rfl
    obtain ⟨denotes, bound⟩ := shortest_spec Style.json.tie (toFloat_ofBinary positive)
    have few := coefficient_ofBinary_lt c hq
    refine ⟨.inl ?_, ?_, ?_, ?_⟩
    · rw [Nat.pos_iff_ne_zero]
      intro zero
      have : (0.0 : Float) = x.abs := (toFloat_of_coefficient_eq_zero zero).symm.trans denotes
      rw [← this, unpack_zero] at positive
      cases positive
    · have more : expansionDigits < digitLimit := by norm_num [expansionDigits, digitLimit]
      exact (bound.trans (Nat.succ_le_of_lt few)).trans_lt
        (Nat.pow_lt_pow_right (by norm_num) more)
    · rw [denotes, isFinite_iff, positive]
      exact ⟨c, hq⟩
    · rw [denotes]
      apply eq_of_unpack_eq
      cases s with
      | positive => rw [if_neg (by simp), positive, hx]
      | negative =>
        rw [if_pos rfl, unpack_neg, positive, hx]
        rfl

theorem chars_real {x : Float} (h : x.isFinite = true) :
    (real x).chars = signChars (isSigned x) ++ (documentNumeral (writtenDecimal x)).chars := by
  have proper := isProper_unpack h
  rw [← decimal_eq_chars, Number.chars, if_pos h]
  unfold Style.chars writtenDecimal isSigned
  cases hx : x.toModel.unpack with
  | infinity s => exact (hx ▸ proper : IsProper (.infinity s)).elim
  | notANumber => exact (hx ▸ proper : IsProper .notANumber).elim
  | zero s => cases s <;> rfl
  | finite s m q hm => cases s <;> rfl

theorem toNumber_real {x : Float} (h : x.isFinite = true) :
    (documentNumeral (writtenDecimal x)).toNumber (isSigned x) = .ok (real x) := by
  obtain ⟨writable, small, finite, back⟩ := writtenDecimal_spec h
  rw [toNumber_of_not_whole (isWhole_documentNumeral _), toReal,
    toFloat_documentNumeral writable small, if_pos finite, back]

/-- A number of a document is read back as it was written. -/
theorem number_chars {n : Number} (h : n.IsPrinted) {rest : List Char} (hrest : Delimited rest) :
    Reader.number (n.chars ++ rest) = .ok (n, rest) := by
  cases n with
  | natural n =>
    have read := Reader.number_append (isWritten_wholeNumeral n) hrest (toNumber_wholeNumeral n)
    rwa [chars_wholeNumeral] at read
  | negative n =>
    have read := Reader.number_append (isWritten_wholeNumeral n) hrest
      (toNumber_wholeNumeral_negative h)
    rwa [chars_wholeNumeral] at read
  | real x =>
    have written := isWritten_documentNumeral (writtenDecimal_spec h).1
    have read := Reader.number_append written hrest (toNumber_real h)
    rwa [← List.append_assoc, ← chars_real h] at read

/-- A number starts with its sign or with a digit. -/
theorem head_number_chars {n : Number} (h : n.IsPrinted) :
    ∃ c cs, n.chars = c :: cs ∧ (c = '-' ∨ c.isDigit = true) := by
  cases n with
  | natural n =>
    obtain ⟨c, cs, shape, digit⟩ := Reader.head_chars (isWritten_wholeNumeral n)
    rw [chars_wholeNumeral] at shape
    exact ⟨c, cs, shape, .inr digit⟩
  | negative n => exact ⟨'-', _, rfl, .inl rfl⟩
  | real x =>
    obtain ⟨c, cs, shape, digit⟩ :=
      Reader.head_chars (isWritten_documentNumeral (writtenDecimal_spec h).1)
    rw [chars_real h, shape]
    cases isSigned x with
    | true => exact ⟨'-', _, rfl, .inl rfl⟩
    | false => exact ⟨c, cs, rfl, .inr digit⟩

end Number
end SymbolicRegression.Json
