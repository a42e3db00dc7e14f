import SymbolicRegression.Proofs.Binary64.Nearest

/-!
# Rounding by bits

Operations on numbers hand their exact results to rounding as a significand, an exponent, and two
bits that say how far the exact result lies above the significand. Rounding shifts the significand
to its target exponent. The result is the nearest number of the exact result.
-/
namespace SymbolicRegression.Binary64

open Float.Model Float.Model.UnpackedFloat

/-- Whether a number lies where a significand and the bits behind it say. -/
def Locates (em : ExtendedMantissa) (y : ℚ) : Prop :=
  match em.accuracy with
  | .exact => y = em.mantissa
  | .inexact .lt => em.mantissa < y ∧ y < em.mantissa + 1 / 2
  | .inexact .eq => y = em.mantissa + 1 / 2
  | .inexact .gt => em.mantissa + 1 / 2 < y ∧ y < em.mantissa + 1

theorem Locates.bounds {em : ExtendedMantissa} {y : ℚ} (h : Locates em y) :
    em.mantissa ≤ y ∧ y < em.mantissa + 1 := by
  unfold Locates at h
  split at h
  · constructor <;> linarith
  · constructor <;> linarith [h.1, h.2]
  · constructor <;> linarith
  · constructor <;> linarith [h.1, h.2]

theorem Locates.roundedMantissa_eq {em : ExtendedMantissa} {y : ℚ} (h : Locates em y) :
    em.roundedMantissa = roundEven y := by
  unfold ExtendedMantissa.roundedMantissa
  unfold Locates at h
  split at h
  next => rw [h, roundEven_natCast, ‹em.accuracy = _›]; rfl
  next => rw [roundEven_of_lt h.1.le h.2, ‹em.accuracy = _›]; rfl
  next => rw [roundEven_of_eq h, ‹em.accuracy = _›]; rfl
  next => rw [roundEven_of_gt h.1 h.2, ‹em.accuracy = _›]; rfl

/-- A shift by one bit halves the number and keeps track of where it lies. -/
theorem Locates.shiftRightOne {em : ExtendedMantissa} {y : ℚ} (h : Locates em y) :
    Locates em.shiftRightOne (y / 2) := by
  obtain ⟨m, r, s⟩ := em
  have parity := Nat.mod_two_eq_zero_or_one m
  have split : (m : ℚ) = 2 * (m / 2 : ℕ) + (m % 2 : ℕ) := by
    exact_mod_cast (Nat.div_add_mod m 2).symm
  rcases parity with even | odd
  · rw [even] at split
    cases r <;> cases s <;>
      simp_all [Locates, ExtendedMantissa.accuracy, ExtendedMantissa.shiftRightOne] <;>
      first | linarith | (constructor <;> linarith)
  · rw [odd] at split
    cases r <;> cases s <;>
      simp_all [Locates, ExtendedMantissa.accuracy, ExtendedMantissa.shiftRightOne] <;>
      first | linarith | (constructor <;> linarith)

theorem Locates.shiftRight {em : ExtendedMantissa} {y : ℚ} (h : Locates em y) (n : ℕ) :
    Locates (em >>> n) (y / 2 ^ n) := by
  change Locates (n.repeat ExtendedMantissa.shiftRightOne em) _
  induction n with
  | zero => simpa [Nat.repeat] using h
  | succ n ih =>
    rw [Nat.repeat, pow_succ, ← div_div]
    exact ih.shiftRightOne

/-- A rounded magnitude with a sign, before its exponent is checked. -/
def rounded (s : Sign) (x : ℚ) : UnpackedFloat :=
  if h : significand x = 0 then .zero s
  else if significand x < 2 ^ 53 then .finite s (significand x) (quantum x) (Nat.pos_of_ne_zero h)
  else .finite s (2 ^ 52) (quantum x + 1) (by decide)

/-- The exact result that a significand and an exponent with two more bits belong to. -/
def Denotes (m : ℕ) (e : ℤ) (accuracy : Accuracy) (x : ℚ) : Prop :=
  Locates (.ofMantissaAndAccuracy m accuracy) (x / 2 ^ e)

@[simp] theorem mantissa_ofMantissaAndAccuracy (m : ℕ) (accuracy : Accuracy) :
    (ExtendedMantissa.ofMantissaAndAccuracy m accuracy).mantissa = m := by
  unfold ExtendedMantissa.ofMantissaAndAccuracy
  split <;> rfl

theorem denotes_exact (m : ℕ) (e : ℤ) : Denotes m e .exact (m * 2 ^ e) := by
  have := two_zpow_pos e
  simp only [Denotes, Locates, ExtendedMantissa.ofMantissaAndAccuracy, ExtendedMantissa.accuracy]
  field_simp

theorem Denotes.log_eq {m : ℕ} {e : ℤ} {accuracy : Accuracy} {x : ℚ} (hm : 0 < m)
    (h : Denotes m e accuracy x) : Int.log 2 x = m.log2 + e := by
  have pos := two_zpow_pos e
  obtain ⟨low, high⟩ := h.bounds
  rw [mantissa_ofMantissaAndAccuracy, le_div_iff₀ pos] at low
  rw [mantissa_ofMantissaAndAccuracy, div_lt_iff₀ pos] at high
  have hx : 0 < x := lt_of_lt_of_le (by positivity) low
  have lower : (2 : ℚ) ^ (m.log2 : ℤ) ≤ m := by exact_mod_cast Nat.log2_self_le hm.ne'
  have upper : (m : ℚ) + 1 ≤ 2 ^ ((m.log2 : ℤ) + 1) := by exact_mod_cast Nat.lt_log2_self
  apply le_antisymm
  · rw [← Int.lt_add_one_iff, ← Int.lt_zpow_iff_log_lt (by norm_num) hx, Nat.cast_ofNat,
      add_right_comm, two_zpow_add]
    calc x < (m + 1) * 2 ^ e := high
      _ ≤ _ := by gcongr
  · rw [← Int.zpow_le_iff_le_log (by norm_num) hx, Nat.cast_ofNat, two_zpow_add]
    calc _ ≤ (m : ℚ) * 2 ^ e := by gcongr
      _ ≤ x := low

theorem shiftToTargetExponent_of_lt {k : ℕ} {q : ℤ} (hk : k < 2 ^ 53) (hq : -1074 ≤ q) :
    shiftToTargetExponent .binary64 k q .exact = (⟨k, false, false⟩, q) := by
  have log : k.log2 ≤ 52 := by
    by_cases zero : k = 0
    · simp [zero]
    · have := (Nat.log2_lt zero).mpr hk
      omega
  have amount : (Format.binary64.targetExponent (totalExponent k q) - q).toNat = 0 := by
    rw [targetExponent_eq, totalExponent]
    omega
  simp only [shiftToTargetExponent, shiftToExponent, amount]
  simp [ExtendedMantissa.ofMantissaAndAccuracy, HShiftRight.hShiftRight, Nat.repeat]

theorem shiftToTargetExponent_two_pow {q : ℤ} (hq : -1074 ≤ q) :
    shiftToTargetExponent .binary64 (2 ^ 53) q .exact = (⟨2 ^ 52, false, false⟩, q + 1) := by
  have amount : (Format.binary64.targetExponent (totalExponent (2 ^ 53) q) - q).toNat = 1 := by
    rw [targetExponent_eq, totalExponent, Nat.log2_two_pow]
    omega
  simp only [shiftToTargetExponent, shiftToExponent, amount]
  simp [ExtendedMantissa.ofMantissaAndAccuracy, HShiftRight.hShiftRight, Nat.repeat,
    ExtendedMantissa.shiftRightOne]

/-- Rounding gives the nearest number, if it starts from a finer exponent and aims at the exponent
of the exact result. -/
theorem roundWithAccuracy_of_target {s : Sign} {m : ℕ} {e : ℤ} {accuracy : Accuracy} {x : ℚ}
    (target : Format.binary64.targetExponent (totalExponent m e) = quantum x)
    (h : Denotes m e accuracy x) (he : e ≤ quantum x) :
    roundWithAccuracy .binary64 s m e accuracy = rounded s x := by
  have least : -1074 ≤ quantum x := le_max_right _ _
  obtain ⟨n, hn⟩ := Int.eq_ofNat_of_zero_le (sub_nonneg.mpr he)
  have exponent : e + n = quantum x := by omega
  have located : Locates (ExtendedMantissa.ofMantissaAndAccuracy m accuracy >>> n) (scaled x) := by
    have := Locates.shiftRight h n
    rwa [div_div, ← zpow_natCast, ← two_zpow_add, exponent] at this
  have first : shiftToTargetExponent .binary64 m e accuracy
      = (ExtendedMantissa.ofMantissaAndAccuracy m accuracy >>> n, quantum x) := by
    simp only [shiftToTargetExponent, shiftToExponent, target, hn]
    simp [exponent]
  have rounds : (ExtendedMantissa.ofMantissaAndAccuracy m accuracy >>> n).roundedMantissa
      = significand x := located.roundedMantissa_eq
  unfold roundWithAccuracy rounded
  simp only [first, rounds]
  by_cases small : significand x < 2 ^ 53
  · simp only [shiftToTargetExponent_of_lt small least, small, if_true]
  · have top : significand x = 2 ^ 53 := by
      have := significand_le x
      omega
    simp only [top, shiftToTargetExponent_two_pow least]
    simp

/-- Some bits of a result tell its magnitude, and with it the exponent to aim at. -/
theorem roundWithAccuracy_eq {s : Sign} {m : ℕ} {e : ℤ} {accuracy : Accuracy} {x : ℚ} (hm : 0 < m)
    (h : Denotes m e accuracy x) (he : e ≤ quantum x) :
    roundWithAccuracy .binary64 s m e accuracy = rounded s x := by
  refine roundWithAccuracy_of_target ?_ h he
  rw [targetExponent_eq, totalExponent, quantum, h.log_eq hm]
  congr 1
  ring

/-- A result without any whole bits at the least exponent, or below it, is rounded there. -/
theorem roundWithAccuracy_zero {s : Sign} {e : ℤ} {accuracy : Accuracy} {x : ℚ} (hx : 0 < x)
    (he : e ≤ -1074) (h : Denotes 0 e accuracy x) :
    roundWithAccuracy .binary64 s 0 e accuracy = rounded s x := by
  have small : x < 2 ^ e := by
    have high := h.bounds.2
    rwa [mantissa_ofMantissaAndAccuracy, Nat.cast_zero, zero_add,
      div_lt_one (two_zpow_pos _)] at high
  have least : quantum x = -1074 := by
    have : Int.log 2 x < e := by
      rw [← Int.lt_zpow_iff_log_lt (by norm_num) hx, Nat.cast_ofNat]
      exact small
    unfold quantum
    omega
  refine roundWithAccuracy_of_target ?_ h (by omega)
  rw [targetExponent_eq, totalExponent, Nat.log2_zero, least]
  omega

end SymbolicRegression.Binary64
