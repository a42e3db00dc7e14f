import SymbolicRegression.Decimal.Basic
import SymbolicRegression.Proofs.Binary64.Quotient

/-!
# The binary64 number of a decimal

A positive decimal denotes the binary64 number nearest to its value, so decimals of the same value
denote the same number. Whole powers of ten are multiplied, others divided by; powers so large or so
small that the result is clear are not computed.
-/
namespace SymbolicRegression.Decimal

open Binary64 Float.Model Float.Model.UnpackedFloat

/-- The rational number that a decimal is. -/
def value (d : Decimal) : ℚ := d.coefficient * 10 ^ d.exponent

theorem value_pos {d : Decimal} (h : 0 < d.coefficient) : 0 < d.value := by
  unfold value
  positivity

theorem mul_eq_rounded {m n : ℕ} (hm : 0 < m <<< 53) (hn : 0 < n) :
    UnpackedFloat.mul .binary64 (.finite .positive (m <<< 53) (-53) hm)
        (.finite .positive n 0 hn) = rounded .positive (m * n) := by
  have denotes := denotes_exact (m <<< 53 * n) (-53)
  have positive : 0 < m := by
    rw [Nat.shiftLeft_eq] at hm
    exact Nat.pos_of_mul_pos_right hm
  have product : (((m <<< 53 * n : ℕ) : ℚ)) * 2 ^ (-53 : ℤ) = m * n := by
    rw [Nat.shiftLeft_eq]
    push_cast
    norm_num
    ring
  rw [product] at denotes
  have finer : -53 ≤ quantum ((m : ℚ) * n) := by
    have one : (1 : ℚ) ≤ m * n := by exact_mod_cast Nat.mul_pos positive hn
    have : 0 ≤ Int.log 2 ((m : ℚ) * n) := by
      rw [← Int.zpow_le_iff_le_log (by norm_num) (by linarith), zpow_zero]
      exact one
    unfold quantum
    omega
  exact roundWithAccuracy_eq (Nat.mul_pos hm hn) denotes finer

theorem shiftLeft_pos {m : ℕ} (hm : 0 < m) : 0 < m <<< 53 := by
  rw [Nat.shiftLeft_eq]
  positivity

/-- The bound beyond which powers of ten are not computed. -/
theorem two_pow_exponentBits : (2 : ℤ) ^ Format.binary64.exponentBits = 2048 := rfl

theorem ofScientific_of_nonneg {m : ℕ} {e : ℤ} (hm : 0 < m) (he : 0 ≤ e) (small : e ≤ 2048) :
    UnpackedFloat.ofScientific .binary64 m e = rounded .positive (m * 10 ^ e) := by
  have power : (10 : ℚ) ^ e = (10 ^ e.toNat : ℕ) := by
    rw [Nat.cast_pow, Nat.cast_ofNat, ← zpow_natCast, Int.toNat_of_nonneg he]
  rw [power, ← mul_eq_rounded (shiftLeft_pos hm) (by positivity)]
  unfold UnpackedFloat.ofScientific
  rw [dif_neg hm.ne', two_pow_exponentBits, if_neg (by omega), if_neg (by omega), if_pos he]
  rfl

theorem ofScientific_of_neg {m : ℕ} {e : ℤ} (hm : 0 < m) (he : e < 0)
    (large : -(2048 + (m.log2 : ℤ)) ≤ e) :
    UnpackedFloat.ofScientific .binary64 m e = rounded .positive (m * 10 ^ e) := by
  have power : (m : ℚ) * 10 ^ e = m / (10 ^ (-e).toNat : ℕ) := by
    have negated : e = -((-e).toNat : ℤ) := by omega
    rw [Nat.cast_pow, Nat.cast_ofNat, ← zpow_natCast, div_eq_mul_inv, ← zpow_neg, ← negated]
  have quotient := div_eq_rounded hm (by positivity : 0 < 10 ^ (-e).toNat) .positive .positive 0 0
  rw [zpow_zero, mul_one, mul_one] at quotient
  rw [power, ← show Sign.positive / Sign.positive = .positive from rfl, ← quotient]
  unfold UnpackedFloat.ofScientific
  rw [dif_neg hm.ne', two_pow_exponentBits, if_neg (by omega), if_neg (by omega),
    if_neg (by omega)]

/-- A power of ten that is not computed since the result is infinite. -/
theorem near_of_large {m : ℕ} {e : ℤ} (hm : 0 < m) (he : 2048 < e) :
    near .positive (m * 10 ^ e) = .ofModel (.pack (.infinity .positive)) := by
  have one : (1 : ℚ) ≤ m := by exact_mod_cast hm
  have beyond : overflow ≤ m * 10 ^ e := by
    calc overflow ≤ (2 : ℚ) ^ e := zpow_le_zpow_right₀ (by norm_num) (by omega)
      _ ≤ 10 ^ e := zpow_le_zpow_left₀ (by omega) (by norm_num) (by norm_num)
      _ ≤ m * 10 ^ e := le_mul_of_one_le_left (by positivity) one
  have itself : nearest overflow = overflow := by
    have := nearest_eq_self (k := 1) (p := 1024) (by norm_num) (by norm_num) (by norm_num)
    rwa [Nat.cast_one, one_mul] at this
  have rounds : overflow ≤ nearest (m * 10 ^ e) :=
    itself.ge.trans (nearest_mono (two_zpow_pos _) beyond)
  apply eq_of_unpack_eq
  rw [unpack_near_of_overflow_le .positive ((two_zpow_pos _).trans_le beyond) rounds]
  exact (unpack_packedInfinity .positive).symm

/-- A power of ten that is not computed since the result is zero. -/
theorem near_of_small {m : ℕ} {e : ℤ} (hm : 0 < m) (he : e < -(2048 + (m.log2 : ℤ))) :
    near .positive (m * 10 ^ e) = .ofModel (.pack (.zero .positive)) := by
  have positive : (0 : ℚ) < m * 10 ^ e := by positivity
  have magnitude : (m : ℚ) ≤ 2 ^ ((m.log2 : ℤ) + 1) := by
    have := (Nat.lt_log2_self (n := m)).le
    exact_mod_cast this
  have power : (10 : ℚ) ^ e ≤ 2 ^ e := by
    have negated : e = -((-e).toNat : ℤ) := by omega
    rw [negated, zpow_neg, zpow_neg, zpow_natCast, zpow_natCast]
    gcongr
    norm_num
  have tiny : (m : ℚ) * 10 ^ e < 2 ^ (-1075 : ℤ) := by
    calc (m : ℚ) * 10 ^ e ≤ 2 ^ ((m.log2 : ℤ) + 1) * 2 ^ e := by gcongr
      _ = 2 ^ ((m.log2 : ℤ) + 1 + e) := (two_zpow_add _ _).symm
      _ < 2 ^ (-1075 : ℤ) := zpow_lt_zpow_right₀ (by norm_num) (by omega)
  have least : quantum ((m : ℚ) * 10 ^ e) = -1074 := by
    have : Int.log 2 ((m : ℚ) * 10 ^ e) < -1075 := by
      rw [← Int.lt_zpow_iff_log_lt (by norm_num) positive, Nat.cast_ofNat]
      exact tiny
    unfold quantum
    omega
  have half : scaled ((m : ℚ) * 10 ^ e) < 1 / 2 := by
    have double : (2 : ℚ) ^ (-1074 : ℤ) = 2 * 2 ^ (-1075 : ℤ) := by
      rw [show (-1074 : ℤ) = 1 + -1075 by norm_num, two_zpow_add, zpow_one]
    rw [scaled, least, div_lt_iff₀ (two_zpow_pos _), double]
    linarith
  have none : significand ((m : ℚ) * 10 ^ e) = 0 :=
    roundEven_of_lt (n := 0) (by simpa using scaled_nonneg positive.le) (by simpa using half)
  rw [near, rounded, dif_pos none]

/-- A decimal denotes the number nearest to its value. -/
theorem toFloat_eq_near {d : Decimal} (h : 0 < d.coefficient) :
    d.toFloat = near .positive d.value := by
  change Float.ofModel (.pack (UnpackedFloat.ofScientific .binary64 d.coefficient d.exponent)) = _
  unfold value
  rcases lt_or_ge 2048 d.exponent with large | bounded
  · rw [near_of_large h large, UnpackedFloat.ofScientific, dif_neg h.ne', two_pow_exponentBits,
      if_pos large]
  rcases le_or_gt 0 d.exponent with nonneg | negative
  · rw [ofScientific_of_nonneg h nonneg bounded, near]
  rcases lt_or_ge d.exponent (-(2048 + (d.coefficient.log2 : ℤ))) with small | moderate
  · rw [near_of_small h small, UnpackedFloat.ofScientific, dif_neg h.ne', two_pow_exponentBits,
      if_neg (by omega), if_pos small]
  · rw [ofScientific_of_neg h negative moderate, near]

theorem toFloat_of_coefficient_eq_zero {d : Decimal} (h : d.coefficient = 0) :
    d.toFloat = 0.0 := by
  change Float.ofModel (.pack (UnpackedFloat.ofScientific .binary64 d.coefficient d.exponent)) = _
  rw [h]
  rfl

/-- Decimals of the same value denote the same number. -/
theorem toFloat_congr {c d : Decimal} (h : c.value = d.value) : c.toFloat = d.toFloat := by
  rcases Nat.eq_zero_or_pos c.coefficient with zero | pos
  · have : d.coefficient = 0 := by
      by_contra ne
      have := value_pos (Nat.pos_of_ne_zero ne)
      rw [← h, value, zero] at this
      simp at this
    rw [toFloat_of_coefficient_eq_zero zero, toFloat_of_coefficient_eq_zero this]
  · have : 0 < d.coefficient := by
      by_contra ne
      have := value_pos pos
      rw [h, value, Nat.eq_zero_of_not_pos ne] at this
      simp at this
    rw [toFloat_eq_near pos, toFloat_eq_near this, h]

end SymbolicRegression.Decimal
