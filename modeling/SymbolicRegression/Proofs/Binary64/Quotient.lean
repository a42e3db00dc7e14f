import SymbolicRegression.Proofs.Binary64.Magnitude

/-!
# Quotients

A quotient of numbers that are not zero is computed to enough bits, with a note on what is left
over, and rounded once. So no quotient by a divisor of magnitude one or more has a greater
magnitude than its dividend, and no such quotient is beyond the finite numbers.
-/
namespace SymbolicRegression.Binary64

open Float.Model Float.Model.UnpackedFloat

/-- The remainder of a division tells where the quotient lies. -/
theorem denotes_quotient {m n : ℕ} (hn : 0 < n) (e : ℤ) :
    Denotes (m / n) e (accuracyOfFraction (m % n) n) ((m : ℚ) / n * 2 ^ e) := by
  have pos := two_zpow_pos e
  have lt := Nat.mod_lt m hn
  have hn' : (0 : ℚ) < n := by exact_mod_cast hn
  have split : (m : ℚ) / n = (m / n : ℕ) + (m % n : ℕ) / n := by
    have : (m : ℚ) = n * (m / n : ℕ) + (m % n : ℕ) := by exact_mod_cast (Nat.div_add_mod m n).symm
    field_simp
    linarith
  have part_lt : ((m % n : ℕ) : ℚ) / n < 1 := by
    rw [div_lt_one hn']
    exact_mod_cast lt
  unfold Denotes
  rw [mul_div_assoc, div_self pos.ne', mul_one, split]
  unfold accuracyOfFraction
  by_cases zero : m % n = 0
  · simp [zero, Locates, ExtendedMantissa.ofMantissaAndAccuracy, ExtendedMantissa.accuracy]
  have part_pos : (0 : ℚ) < (m % n : ℕ) / n := by
    have : (0 : ℚ) < (m % n : ℕ) := by exact_mod_cast Nat.pos_of_ne_zero zero
    positivity
  rw [if_neg zero]
  rcases lt_trichotomy (2 * (m % n)) n with below | half | above
  · have below' : (2 : ℚ) * (m % n : ℕ) < n := by exact_mod_cast below
    have : ((m % n : ℕ) : ℚ) / n < 1 / 2 := by
      rw [div_lt_div_iff₀ hn' (by norm_num)]
      linarith
    rw [compare_lt_iff_lt.mpr below]
    change ((m / n : ℕ) : ℚ) < _ ∧ _ < ((m / n : ℕ) : ℚ) + 1 / 2
    constructor <;> linarith
  · have half' : (2 : ℚ) * (m % n : ℕ) = n := by exact_mod_cast half
    have : ((m % n : ℕ) : ℚ) / n = 1 / 2 := by
      rw [div_eq_div_iff hn'.ne' (by norm_num)]
      linarith
    rw [compare_eq_iff_eq.mpr half, this]
    rfl
  · have above' : (n : ℚ) < 2 * (m % n : ℕ) := by exact_mod_cast above
    have : 1 / 2 < ((m % n : ℕ) : ℚ) / n := by
      rw [div_lt_div_iff₀ (by norm_num) hn']
      linarith
    rw [compare_gt_iff_gt.mpr above]
    change ((m / n : ℕ) : ℚ) + 1 / 2 < _ ∧ _ < ((m / n : ℕ) : ℚ) + 1
    constructor <;> linarith

/-- The magnitude of a quotient, up to a factor of two. -/
theorem log_quotient {m n : ℕ} (hm : 0 < m) (hn : 0 < n) (p q : ℤ) :
    (m.log2 : ℤ) + p - (n.log2 + q) - 1 ≤ Int.log 2 ((m : ℚ) * 2 ^ p / (n * 2 ^ q)) := by
  have scale := two_zpow_pos q
  have divisor : (0 : ℚ) < n * 2 ^ q := by positivity
  have positive : (0 : ℚ) < (m : ℚ) * 2 ^ p / (n * 2 ^ q) := by positivity
  have low : (2 : ℚ) ^ (m.log2 : ℤ) ≤ m := by exact_mod_cast Nat.log2_self_le hm.ne'
  have high : (n : ℚ) ≤ 2 ^ ((n.log2 : ℤ) + 1) := by
    have := (Nat.lt_log2_self (n := n)).le
    exact_mod_cast this
  rw [← Int.zpow_le_iff_le_log (by norm_num) positive, Nat.cast_ofNat, le_div_iff₀ divisor]
  calc (2 : ℚ) ^ ((m.log2 : ℤ) + p - (n.log2 + q) - 1) * (n * 2 ^ q)
      ≤ 2 ^ ((m.log2 : ℤ) + p - (n.log2 + q) - 1) * (2 ^ ((n.log2 : ℤ) + 1) * 2 ^ q) := by gcongr
    _ = 2 ^ (m.log2 : ℤ) * 2 ^ p := by
        rw [← two_zpow_add, ← two_zpow_add, ← two_zpow_add]
        congr 1
        ring
    _ ≤ m * 2 ^ p := by gcongr

/-- The exponent of a quotient before it is rounded. -/
def quotientExponent (m : ℕ) (p : ℤ) (n : ℕ) (q : ℤ) : ℤ :=
  min (p - q) (max ((m.log2 : ℤ) + p - (n.log2 + q) - 53) (-1074))

/-- The number of bits by which a dividend is extended. -/
def quotientShift (m : ℕ) (p : ℤ) (n : ℕ) (q : ℤ) : ℕ :=
  (p - q - quotientExponent m p n q).toNat

theorem divCore_eq (m : ℕ) (p : ℤ) (n : ℕ) (q : ℤ) :
    divCore .binary64 m p n q =
      (m <<< quotientShift m p n q / n, quotientExponent m p n q,
        accuracyOfFraction (m <<< quotientShift m p n q % n) n) := by
  have exponent : min (p - q)
      (Format.binary64.targetExponent (totalExponent m p - totalExponent n q))
      = quotientExponent m p n q := by
    rw [targetExponent_eq, totalExponent, totalExponent, quotientExponent]
    congr 2
    ring
  simp only [divCore, exponent, quotientShift]

theorem denotes_divCore {m n : ℕ} (hn : 0 < n) (p q : ℤ) :
    Denotes (m <<< quotientShift m p n q / n) (quotientExponent m p n q)
      (accuracyOfFraction (m <<< quotientShift m p n q % n) n)
      ((m : ℚ) * 2 ^ p / (n * 2 ^ q)) := by
  have quotient := denotes_quotient (m := m <<< quotientShift m p n q) hn (quotientExponent m p n q)
  have exponent : p = (quotientShift m p n q : ℤ) + quotientExponent m p n q + q := by
    have : quotientExponent m p n q ≤ p - q := min_le_left _ _
    unfold quotientShift
    omega
  have same : ((m <<< quotientShift m p n q : ℕ) : ℚ) / n * 2 ^ quotientExponent m p n q
      = m * 2 ^ p / (n * 2 ^ q) := by
    have scale := two_zpow_pos q
    have shifted : (2 : ℚ) ^ p
        = 2 ^ quotientShift m p n q * 2 ^ quotientExponent m p n q * 2 ^ q := by
      conv_lhs => rw [exponent]
      rw [two_zpow_add, two_zpow_add, zpow_natCast]
    rw [Nat.shiftLeft_eq, shifted]
    push_cast
    field_simp
  rwa [same] at quotient

/-- Only below the least exponent the quotient may have no whole bits. -/
theorem quotientExponent_le_of_eq_zero {m n : ℕ} (hm : 0 < m) (hn : 0 < n) {p q : ℤ}
    (none : m <<< quotientShift m p n q / n = 0) : quotientExponent m p n q ≤ -1074 := by
  by_contra! large
  have enough : n < m <<< quotientShift m p n q := by
    have shift : n.log2 + 1 ≤ m.log2 + quotientShift m p n q := by
      unfold quotientShift quotientExponent at *
      omega
    calc n < 2 ^ (n.log2 + 1) := Nat.lt_log2_self
      _ ≤ 2 ^ (m.log2 + quotientShift m p n q) := Nat.pow_le_pow_right (by norm_num) shift
      _ = 2 ^ m.log2 * 2 ^ quotientShift m p n q := pow_add _ _ _
      _ ≤ m * 2 ^ quotientShift m p n q := Nat.mul_le_mul_right _ (Nat.log2_self_le hm.ne')
      _ = m <<< quotientShift m p n q := (Nat.shiftLeft_eq _ _).symm
  have := Nat.div_pos enough.le hn
  omega

/-- A quotient of numbers that are not zero is rounded once. -/
theorem div_eq_rounded {m n : ℕ} (hm : 0 < m) (hn : 0 < n) (s t : Sign) (p q : ℤ) :
    UnpackedFloat.div .binary64 (.finite s m p hm) (.finite t n q hn)
      = rounded (s / t) ((m : ℚ) * 2 ^ p / (n * 2 ^ q)) := by
  have positive : (0 : ℚ) < (m : ℚ) * 2 ^ p / (n * 2 ^ q) := by positivity
  have denotes := denotes_divCore (m := m) hn p q
  have finer : quotientExponent m p n q ≤ quantum ((m : ℚ) * 2 ^ p / (n * 2 ^ q)) := by
    have := log_quotient hm hn p q
    unfold quantum quotientExponent
    omega
  change roundWithAccuracy .binary64 (s / t) (divCore .binary64 m p n q).1
    (divCore .binary64 m p n q).2.1 (divCore .binary64 m p n q).2.2 = _
  rw [divCore_eq]
  simp only
  rcases Nat.eq_zero_or_pos (m <<< quotientShift m p n q / n) with none | some_
  · have least := quotientExponent_le_of_eq_zero hm hn none
    rw [none] at denotes ⊢
    exact roundWithAccuracy_zero positive least denotes
  · exact roundWithAccuracy_eq some_ denotes finer

theorem div_eq_near {x y : Float} {s t : Sign} {m n : ℕ} {p q : ℤ} {hm : 0 < m} {hn : 0 < n}
    (hx : x.toModel.unpack = .finite s m p hm) (hy : y.toModel.unpack = .finite t n q hn) :
    x / y = near (s / t) ((m : ℚ) * 2 ^ p / (n * 2 ^ q)) := by
  change Float.ofModel (.pack (UnpackedFloat.div .binary64 x.toModel.unpack y.toModel.unpack)) = _
  rw [hx, hy, div_eq_rounded]
  rfl

theorem abs_signed (s : Sign) {x : ℚ} (hx : 0 ≤ x) : |signed s x| = x := by
  cases s with
  | positive => exact abs_of_nonneg hx
  | negative => rw [signed, abs_neg, abs_of_nonneg hx]

/-- No divisor of magnitude one or more makes a quotient larger than its dividend. -/
theorem div_spec {x y : Float} (hx : x.isFinite = true) (hy : y.isFinite = true)
    (large : 1 ≤ |toRat y|) : (x / y).isFinite = true ∧ |toRat (x / y)| ≤ |toRat x| := by
  obtain ⟨t, n, q, hn, uy⟩ : ∃ t n q, ∃ hn : 0 < n, y.toModel.unpack = .finite t n q hn := by
    have proper := isProper_unpack hy
    cases other : y.toModel.unpack with
    | notANumber => exact (other ▸ proper : IsProper .notANumber).elim
    | infinity t => exact (other ▸ proper : IsProper (.infinity t)).elim
    | zero t =>
      rw [toRat, other] at large
      norm_num [value] at large
    | finite t n q hn => exact ⟨t, n, q, hn, rfl⟩
  have proper := isProper_unpack hx
  cases ux : x.toModel.unpack with
  | notANumber => exact (ux ▸ proper : IsProper .notANumber).elim
  | infinity s => exact (ux ▸ proper : IsProper (.infinity s)).elim
  | zero s =>
    have quotient : x / y = .ofModel (.pack (.zero (s / t))) := by
      change Float.ofModel (.pack (UnpackedFloat.div .binary64 x.toModel.unpack
        y.toModel.unpack)) = _
      rw [ux, uy]
      rfl
    have kept : IsProper (.zero (s / t)) := trivial
    rw [quotient, toRat_ofModel_pack kept]
    exact ⟨isFinite_of_isProper kept, abs_zero.trans_le (abs_nonneg _)⟩
  | finite s m p hm =>
    have dividend := abs_toRat_of_unpack ux
    have divisor := abs_toRat_of_unpack uy
    rw [div_eq_near ux uy, dividend]
    rw [divisor] at large
    have scale := two_zpow_pos p
    have whole : (0 : ℚ) < m * 2 ^ p := by positivity
    have part : (0 : ℚ) < (m : ℚ) * 2 ^ p / (n * 2 ^ q) := by positivity
    have c := canonical_of_unpack ux
    have smaller : nearest ((m : ℚ) * 2 ^ p / (n * 2 ^ q)) ≤ m * 2 ^ p := by
      calc nearest ((m : ℚ) * 2 ^ p / (n * 2 ^ q)) ≤ nearest (m * 2 ^ p) :=
            nearest_mono part (div_le_self whole.le large)
        _ = m * 2 ^ p := nearest_eq_self hm c.1.lt c.1.least
    have fits := smaller.trans_lt ((lt_overflow_iff c.1).mpr c.2)
    refine ⟨isFinite_near _ part fits, ?_⟩
    rwa [toRat_near _ part fits, abs_signed _ (nearest_nonneg _)]

end SymbolicRegression.Binary64
