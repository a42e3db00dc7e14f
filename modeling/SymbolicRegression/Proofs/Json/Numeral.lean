import SymbolicRegression.Proofs.Json.Digits
import SymbolicRegression.Proofs.Json.Reading

/-!
# Numerals read back

A numeral that is written in its parts is read back in the same parts, if what follows it does not
belong to a numeral. The decimal that is made of the parts has their value as long as there are not
more digits than are looked at.
-/
namespace SymbolicRegression.Json

/-- Whether a text does not go on with a digit. -/
def NoDigit (rest : List Char) : Prop := ∀ c ∈ rest.head?, c.isDigit = false

/-- Whether a text does not go on with anything that belongs to a numeral. -/
def Delimited (rest : List Char) : Prop :=
  ∀ c ∈ rest.head?, c.isDigit = false ∧ c ≠ '.' ∧ c ≠ 'e' ∧ c ≠ 'E'

theorem Delimited.noDigit {rest : List Char} (h : Delimited rest) : NoDigit rest :=
  fun c hc => (h c hc).1

theorem delimited_nil : Delimited [] := by simp [Delimited]

theorem delimited_cons {c : Char} (h : c.isDigit = false ∧ c ≠ '.' ∧ c ≠ 'e' ∧ c ≠ 'E')
    (rest : List Char) : Delimited (c :: rest) := by
  intro d hd
  cases hd
  exact h

theorem noDigit_cons {c : Char} (h : c.isDigit = false) (rest : List Char) :
    NoDigit (c :: rest) := by
  intro d hd
  cases hd
  exact h

namespace Reader

theorem front_cons (c : Char) (s : List Char) : front (c :: s) = .ok (some c, c :: s) := rfl

theorem digits_append {ds rest : List Char} (h : AllDigits ds) (hrest : NoDigit rest) :
    digits (ds ++ rest) = .ok (ds, rest) := by
  unfold digits
  rw [List.takeWhile_append_of_pos h, List.dropWhile_append_of_pos h]
  cases rest with
  | nil => simp
  | cons c rest =>
    have hc : c.isDigit = false := hrest c rfl
    simp [hc]

end Reader

namespace Numeral

/-- The whole parts that can be written: a single zero, or digits that do not start with one. -/
def IsWholePart (ds : List Char) : Prop :=
  ds = ['0'] ∨ ∃ c cs, ds = c :: cs ∧ c ≠ '0' ∧ AllDigits (c :: cs)

/-- A fraction with its point, if there is one. -/
def fractionChars : List Char → List Char
  | [] => []
  | d :: ds => '.' :: d :: ds

/-- An exponent with its letter and sign, if there is one. -/
def exponentChars : Option ℤ → List Char
  | none => []
  | some e => 'e' :: (if e < 0 then '-' else '+') :: Nat.toDigits 10 e.natAbs

/-- The text of a numeral. -/
def chars (n : Numeral) : List Char :=
  n.whole ++ (fractionChars n.fraction ++ exponentChars n.exponent)

/-- Whether the parts of a numeral can be written. -/
structure IsWritten (n : Numeral) : Prop where
  whole : IsWholePart n.whole
  fraction : AllDigits n.fraction

theorem IsWholePart.allDigits {ds : List Char} (h : IsWholePart ds) : AllDigits ds := by
  rcases h with rfl | ⟨c, cs, rfl, -, digits⟩
  · exact allDigits_zeros 1
  · exact digits

end Numeral

namespace Reader

open Numeral

theorem wholePart_append {ended : GrammarFault} {ds rest : List Char} (h : IsWholePart ds)
    (hrest : NoDigit rest) : wholePart ended (ds ++ rest) = .ok (ds, rest) := by
  rcases h with rfl | ⟨c, cs, rfl, hc, digits_⟩
  · cases rest with
    | nil => rfl
    | cons d rest =>
      have hd : d.isDigit = false := hrest d rfl
      change (if d.isDigit = true then (fail .badNumber : Reader (List Char)) else pure ['0'])
        (d :: rest) = _
      rw [if_neg (by simp [hd])]
      rfl
  · have digit : c.isDigit = true := digits_ c List.mem_cons_self
    have front_ : front (c :: cs ++ rest) = .ok (some c, c :: cs ++ rest) := rfl
    unfold wholePart
    rw [bind_of_ok front_]
    trans (if c.isDigit = true then digits else fail .badNumber) (c :: cs ++ rest)
    · apply congrFun
      split
      next h => cases h
      next h => exact absurd (Option.some.inj h) hc
      next h =>
        cases h
        rfl
    · rw [if_pos digit]
      exact digits_append digits_ hrest

theorem fractionPart_append {ended : GrammarFault} {ds rest : List Char} (h : AllDigits ds)
    (hrest : NoDigit rest) (point : rest.head? ≠ some '.') :
    fractionPart ended (fractionChars ds ++ rest) = .ok (ds, rest) := by
  cases ds with
  | nil =>
    have front_ : front (fractionChars [] ++ rest) = .ok (rest.head?, rest) := rfl
    unfold fractionPart
    rw [bind_of_ok front_]
    trans (pure [] : Reader (List Char)) rest
    · apply congrFun
      split
      next h => exact absurd h point
      next => rfl
    · rfl
  | cons d ds =>
    have front_ : front (fractionChars (d :: ds) ++ rest)
        = .ok (some '.', fractionChars (d :: ds) ++ rest) := rfl
    have read := digits_append h hrest
    unfold fractionPart
    rw [bind_of_ok front_]
    refine (bind_of_ok (advance_run '.' (d :: ds ++ rest))).trans ?_
    exact bind_of_ok read

theorem exponentPart_signed {ended : GrammarFault} {sign d : Char} {ds rest : List Char}
    (hsign : sign = '+' ∨ sign = '-') (read : digits (d :: ds ++ rest) = .ok (d :: ds, rest)) :
    exponentPart ended ('e' :: sign :: (d :: ds ++ rest))
      = .ok (some (if sign = '-' then -(natOfDigits (d :: ds) : ℤ) else natOfDigits (d :: ds)),
          rest) := by
  unfold exponentPart
  refine (bind_of_ok (front_cons 'e' _)).trans ?_
  simp only [true_or, if_true]
  refine (bind_of_ok (advance_run 'e' _)).trans ?_
  refine (bind_of_ok (front_cons sign _)).trans ?_
  rw [if_pos (by simpa using hsign)]
  refine (bind_of_ok (advance_run sign _)).trans ?_
  refine (bind_of_ok read).trans ?_
  simp only [Option.some.injEq]
  rfl

theorem exponentPart_append {ended : GrammarFault} (e : Option ℤ) {rest : List Char}
    (hrest : Delimited rest) :
    exponentPart ended (exponentChars e ++ rest) = .ok (e, rest) := by
  cases e with
  | none =>
    have front_ : front (exponentChars none ++ rest) = .ok (rest.head?, rest) := rfl
    unfold exponentPart
    rw [bind_of_ok front_]
    cases rest with
    | nil => rfl
    | cons c rest =>
      obtain ⟨-, -, small, large⟩ := hrest c rfl
      simp only [List.head?_cons]
      rw [if_neg (by simp [small, large])]
      rfl
  | some e =>
    obtain ⟨d, ds, shape⟩ := List.exists_cons_of_ne_nil
      (Nat.toDigits_ne_nil (n := e.natAbs) (b := 10))
    have read := digits_append (allDigits_toDigits e.natAbs) hrest.noDigit
    have value : natOfDigits (d :: ds) = e.natAbs := by rw [← shape, natOfDigits_toDigits]
    have text : exponentChars (some e)
        = 'e' :: (if e < 0 then '-' else '+') :: d :: ds := by
      rw [← shape]
      rfl
    rw [shape] at read
    rw [text]
    refine (exponentPart_signed (by split <;> simp) read).trans ?_
    rw [value]
    by_cases negative : e < 0
    · rw [if_pos (by rw [if_pos negative])]
      congr 3
      omega
    · rw [if_neg (by rw [if_neg negative]; decide)]
      congr 3
      omega

theorem delimited_exponentChars {e : Option ℤ} {rest : List Char} (h : Delimited rest) :
    NoDigit (exponentChars e ++ rest) ∧ (exponentChars e ++ rest).head? ≠ some '.' := by
  cases e with
  | none => exact ⟨h.noDigit, fun point => (h '.' point).2.1 rfl⟩
  | some e => exact ⟨noDigit_cons rfl _, by simp [exponentChars]⟩

theorem noDigit_fractionChars {ds : List Char} {rest : List Char} (h : NoDigit rest) :
    NoDigit (fractionChars ds ++ rest) := by
  cases ds with
  | nil => exact h
  | cons d ds => exact noDigit_cons rfl _

/-- A written numeral is read back. -/
theorem numeral_append {ended : GrammarFault} {n : Numeral} {rest : List Char} (h : n.IsWritten)
    (hrest : Delimited rest) : numeral ended (n.chars ++ rest) = .ok (n, rest) := by
  obtain ⟨behind, point⟩ := delimited_exponentChars (e := n.exponent) hrest
  unfold numeral Numeral.chars
  rw [List.append_assoc, List.append_assoc]
  refine (bind_of_ok (wholePart_append h.whole (noDigit_fractionChars behind))).trans ?_
  refine (bind_of_ok (fractionPart_append h.fraction behind point)).trans ?_
  exact bind_of_ok (exponentPart_append n.exponent hrest)

end Reader

namespace Numeral

/-- The rational number that a numeral stands for. -/
def value (n : Numeral) : ℚ :=
  natOfDigits (n.whole ++ n.fraction) * 10 ^ (n.exponent.getD 0 - n.fraction.length)

/-- Zeros at the end of a fraction do not change the value. -/
theorem value_eq (n : Numeral) : n.value = natOfDigits (n.whole ++ n.fractionDigits)
    * 10 ^ (n.exponent.getD 0 - n.fractionDigits.length) ∧
    natOfDigits (n.whole ++ n.fractionDigits) ≤ natOfDigits (n.whole ++ n.fraction) := by
  obtain ⟨k, split⟩ := exists_trailing_zeros n.fraction
  have digits : natOfDigits (n.whole ++ n.fraction)
      = natOfDigits (n.whole ++ n.fractionDigits) * 10 ^ k := by
    rw [split, ← List.append_assoc, natOfDigits_append, natOfDigits_zeros, List.length_replicate,
      Nat.add_zero]
    rfl
  have length : n.fraction.length = n.fractionDigits.length + k := by
    rw [split, List.length_append, List.length_replicate]
    rfl
  refine ⟨?_, ?_⟩
  · have exponent : n.exponent.getD 0 - (n.fractionDigits.length : ℤ)
        = n.exponent.getD 0 - n.fraction.length + k := by
      rw [length]
      push_cast
      ring
    rw [value, digits, exponent, zpow_add₀ (by norm_num), zpow_natCast]
    push_cast
    ring
  · rw [digits]
    exact Nat.le_mul_of_pos_right _ (by positivity)

/-- The decimal of a numeral has its value, if there are not too many digits. -/
theorem value_toDecimal {n : Numeral} (h : n.IsWritten)
    (small : natOfDigits (n.whole ++ n.fraction) < 10 ^ digitLimit) :
    n.toDecimal.value = n.value := by
  obtain ⟨value_, le⟩ := n.value_eq
  have digits : AllDigits (n.whole ++ n.fractionDigits) := by
    refine h.whole.allDigits.append fun c hc => h.fraction c ?_
    obtain ⟨k, split⟩ := exists_trailing_zeros n.fraction
    rw [split]
    exact List.mem_append_left _ hc
  have length : n.significantDigits.length ≤ digitLimit :=
    length_significant_le digits (le.trans_lt small)
  rw [toDecimal, limited, if_pos length, value_, Decimal.value, significantDigits,
    natOfDigits_dropWhile_zero]

end Numeral
end SymbolicRegression.Json
