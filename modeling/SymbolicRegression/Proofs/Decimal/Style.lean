import SymbolicRegression.Decimal.Style
import SymbolicRegression.Proofs.Decimal.Shortest
import SymbolicRegression.Proofs.Json.Numeral

/-!
# The numerals of the document style

A decimal in the style of JSON documents is a numeral with the value of the decimal. It always has
a fraction or an exponent, so it is never taken for a whole number.
-/
namespace SymbolicRegression.Json

open Decimal Numeral

/-- The numeral of digits with the point put where the exponent says. -/
def positionalNumeral (digits : List Char) (exponent : ℤ) : Numeral :=
  if 0 ≤ exponent then ⟨digits ++ List.replicate exponent.toNat '0', ['0'], none⟩
  else if exponent.natAbs < digits.length then
    ⟨digits.take (digits.length - exponent.natAbs), digits.drop (digits.length - exponent.natAbs),
      none⟩
  else ⟨['0'], List.replicate (exponent.natAbs - digits.length) '0' ++ digits, none⟩

/-- The numeral of one digit, the others behind the point, and an exponent. -/
def scientificNumeral (digits : List Char) (e : ℤ) : Numeral :=
  ⟨digits.take 1, digits.drop 1, some e⟩

/-- The numeral that a decimal is written as. -/
def documentNumeral (d : Decimal) : Numeral :=
  if Style.json.isPositional d.magnitude then positionalNumeral d.digits d.exponent
  else scientificNumeral d.digits d.magnitude

theorem fractionChars_of_ne_nil {ds : List Char} (h : ds ≠ []) : fractionChars ds = '.' :: ds := by
  cases ds with
  | nil => exact absurd rfl h
  | cons d ds => rfl

theorem placePoint_eq {digits : List Char} (h : digits ≠ []) (exponent : ℤ) :
    Style.json.placePoint digits exponent = (positionalNumeral digits exponent).chars := by
  unfold Style.placePoint positionalNumeral
  simp only
  split_ifs with nonneg inside
  · simp [Numeral.chars, fractionChars, exponentChars]
  · exact absurd rfl inside
  · have behind : digits.drop (digits.length - exponent.natAbs) ≠ [] := by
      rw [ne_eq, List.drop_eq_nil_iff]
      omega
    simp [Numeral.chars, fractionChars_of_ne_nil behind, exponentChars]
  · have behind : List.replicate (exponent.natAbs - digits.length) '0' ++ digits ≠ [] := by simp [h]
    simp [Numeral.chars, fractionChars_of_ne_nil behind, exponentChars]

theorem scientific_eq (digits : List Char) (e : ℤ) :
    Style.scientific digits e = (scientificNumeral digits e).chars := by
  match digits with
  | [] => rfl
  | [a] => rfl
  | a :: b :: rest => simp [Style.scientific, scientificNumeral, Numeral.chars, fractionChars,
      exponentChars]

/-- The text of a decimal is the text of its numeral. -/
theorem decimal_eq_chars (d : Decimal) : Style.json.decimal d = (documentNumeral d).chars := by
  unfold Style.decimal documentNumeral
  split_ifs
  · exact placePoint_eq Nat.toDigits_ne_nil _
  · exact scientific_eq _ _

/-- The digits of a positive number do not start with a zero. -/
theorem exists_first_digit {n : ℕ} (h : 0 < n) :
    ∃ c cs, Nat.toDigits 10 n = c :: cs ∧ c ≠ '0' := by
  induction n using Nat.strong_induction_on with
  | h n ih =>
    rw [Nat.toDigits_eq_if (by norm_num)]
    split_ifs with small
    · refine ⟨n.digitChar, [], rfl, ?_⟩
      interval_cases n <;> decide
    · obtain ⟨c, cs, shape, first⟩ := ih (n / 10) (by omega) (by omega)
      exact ⟨c, cs ++ [(n % 10).digitChar], by rw [shape, List.cons_append], first⟩

/-- A decimal that can be written: the digits of its coefficient do not start with a zero, or it is
a plain zero. -/
def IsWritable (d : Decimal) : Prop := 0 < d.coefficient ∨ d = ⟨0, 0⟩

theorem isWritten_positional {d : Decimal} (h : IsWritable d) :
    (positionalNumeral d.digits d.exponent).IsWritten := by
  have all := allDigits_toDigits d.coefficient
  rcases h with pos | rfl
  · obtain ⟨c, cs, shape, first⟩ := exists_first_digit pos
    unfold positionalNumeral Decimal.digits
    rw [shape] at all ⊢
    split_ifs with nonneg inside
    · exact ⟨.inr ⟨c, _, rfl, first, all.append (allDigits_zeros _)⟩, allDigits_zeros 1⟩
    · obtain ⟨k, hk⟩ : ∃ k, (c :: cs).length - d.exponent.natAbs = k + 1 :=
        ⟨(c :: cs).length - d.exponent.natAbs - 1, by omega⟩
      refine ⟨.inr ⟨c, cs.take k, ?_, first, ?_⟩, fun x hx => all x (List.mem_of_mem_drop hx)⟩
      · simp only [hk, List.take_succ_cons]
      · intro x hx
        exact all x (List.mem_of_mem_take (i := k + 1) (by rwa [List.take_succ_cons]))
    · exact ⟨.inl rfl, (allDigits_zeros _).append all⟩
  · exact ⟨.inl rfl, allDigits_zeros 1⟩

theorem isWritten_scientific {d : Decimal} (pos : 0 < d.coefficient) (e : ℤ) :
    (scientificNumeral d.digits e).IsWritten := by
  have all := allDigits_toDigits d.coefficient
  obtain ⟨c, cs, shape, first⟩ := exists_first_digit pos
  unfold scientificNumeral Decimal.digits
  rw [shape] at all ⊢
  exact ⟨.inr ⟨c, [], rfl, first, fun x hx => all x (List.mem_of_mem_take (i := 1) hx)⟩,
    fun x hx => all x (List.mem_of_mem_drop (i := 1) hx)⟩

theorem natOfDigits_digits (d : Decimal) : natOfDigits d.digits = d.coefficient :=
  natOfDigits_toDigits _

@[simp] theorem natOfDigits_zero : natOfDigits ['0'] = 0 := rfl

/-- The whole number behind all digits of a numeral. -/
def Numeral.row (n : Numeral) : ℕ := natOfDigits (n.whole ++ n.fraction)

theorem row_positional_of_nonneg {d : Decimal} (h : 0 ≤ d.exponent) :
    (positionalNumeral d.digits d.exponent).row = d.coefficient * 10 ^ d.exponent.toNat * 10 := by
  rw [positionalNumeral, if_pos h, Numeral.row, natOfDigits_append, natOfDigits_append,
    natOfDigits_zeros, natOfDigits_digits, List.length_replicate]
  rfl

theorem row_positional_of_neg {d : Decimal} (h : ¬0 ≤ d.exponent) :
    (positionalNumeral d.digits d.exponent).row = d.coefficient := by
  rw [positionalNumeral, if_neg h, Numeral.row]
  split_ifs
  · rw [List.take_append_drop, natOfDigits_digits]
  · rw [natOfDigits_append, natOfDigits_append, natOfDigits_zeros, natOfDigits_zero,
      natOfDigits_digits]
    omega

theorem row_scientific (d : Decimal) (e : ℤ) :
    (scientificNumeral d.digits e).row = d.coefficient := by
  rw [scientificNumeral, Numeral.row, List.take_append_drop, natOfDigits_digits]

theorem value_positional (d : Decimal) :
    (positionalNumeral d.digits d.exponent).value = d.value := by
  rw [Numeral.value]
  change ((Numeral.row _ : ℕ) : ℚ) * _ = _
  unfold Decimal.value
  by_cases nonneg : 0 ≤ d.exponent
  · have power : (10 : ℚ) ^ d.exponent = 10 ^ d.exponent.toNat := by
      rw [← zpow_natCast, Int.toNat_of_nonneg nonneg]
    rw [row_positional_of_nonneg nonneg, power, positionalNumeral, if_pos nonneg]
    push_cast
    simp
  · have places : ((positionalNumeral d.digits d.exponent).fraction.length : ℤ)
        = d.exponent.natAbs := by
      rw [positionalNumeral, if_neg nonneg]
      split_ifs
      · rw [List.length_drop]
        omega
      · rw [List.length_append, List.length_replicate]
        omega
    have none_ : (positionalNumeral d.digits d.exponent).exponent = none := by
      rw [positionalNumeral, if_neg nonneg]
      split_ifs <;> rfl
    have exponent : (0 : ℤ) - d.exponent.natAbs = d.exponent := by omega
    rw [row_positional_of_neg nonneg, none_, places, Option.getD_none, exponent]

theorem value_scientific (d : Decimal) :
    (scientificNumeral d.digits d.magnitude).value = d.value := by
  have positive : 0 < d.digits.length := Nat.length_toDigits_pos
  have exponent : d.magnitude - ((d.digits.drop 1).length : ℤ) = d.exponent := by
    rw [List.length_drop, Decimal.magnitude]
    omega
  rw [Numeral.value]
  change ((Numeral.row _ : ℕ) : ℚ) * _ = _
  rw [row_scientific, scientificNumeral, Option.getD_some, exponent, Decimal.value]

theorem value_documentNumeral (d : Decimal) : (documentNumeral d).value = d.value := by
  unfold documentNumeral
  split_ifs
  · exact value_positional d
  · exact value_scientific d

theorem coefficient_lt (d : Decimal) : d.coefficient < 10 ^ d.digits.length :=
  (Nat.length_toDigits_le_iff (by norm_num) Nat.length_toDigits_pos).mp le_rfl

/-- No numeral of a document has more digits than are looked at, if the decimal has not. -/
theorem row_documentNumeral_lt {d : Decimal} (h : d.coefficient < 10 ^ digitLimit) :
    (documentNumeral d).row < 10 ^ digitLimit := by
  unfold documentNumeral
  split_ifs with positional
  · by_cases nonneg : 0 ≤ d.exponent
    · have greatest : d.magnitude ≤ 15 := by
        have both : -5 ≤ d.magnitude ∧ d.magnitude ≤ 15 := by
          simpa [Style.isPositional, Style.json] using positional
        exact both.2
      have length : d.digits.length + d.exponent.toNat + 1 ≤ digitLimit := by
        unfold Decimal.magnitude at greatest
        unfold digitLimit
        omega
      rw [row_positional_of_nonneg nonneg]
      calc d.coefficient * 10 ^ d.exponent.toNat * 10
          < 10 ^ d.digits.length * 10 ^ d.exponent.toNat * 10 := by
            have := coefficient_lt d
            gcongr
        _ = 10 ^ (d.digits.length + d.exponent.toNat + 1) := by
            rw [pow_succ, pow_add]
        _ ≤ 10 ^ digitLimit := Nat.pow_le_pow_right (by norm_num) length
    · rwa [row_positional_of_neg nonneg]
  · rwa [row_scientific]

theorem isWritten_documentNumeral {d : Decimal} (h : IsWritable d) :
    (documentNumeral d).IsWritten := by
  unfold documentNumeral
  split_ifs with positional
  · exact isWritten_positional h
  · rcases h with pos | rfl
    · exact isWritten_scientific pos _
    · exact absurd rfl positional

/-- A numeral of a document has a fraction or an exponent. -/
theorem isWhole_documentNumeral (d : Decimal) : (documentNumeral d).isWhole = false := by
  have positive : 0 < d.digits.length := Nat.length_toDigits_pos
  unfold documentNumeral
  split_ifs
  · unfold positionalNumeral
    split_ifs with nonneg inside
    · rfl
    · simp [Numeral.isWhole]
      omega
    · have : d.digits ≠ [] := List.length_pos_iff.mp positive
      simp [Numeral.isWhole, this]
  · simp [scientificNumeral, Numeral.isWhole]

/-- A decimal that is written and read back denotes the same number. -/
theorem toFloat_documentNumeral {d : Decimal} (h : IsWritable d)
    (small : d.coefficient < 10 ^ digitLimit) :
    (documentNumeral d).toDecimal.toFloat = d.toFloat := by
  have read := value_toDecimal (isWritten_documentNumeral h) (row_documentNumeral_lt small)
  exact toFloat_congr (read.trans (value_documentNumeral d))

end SymbolicRegression.Json
