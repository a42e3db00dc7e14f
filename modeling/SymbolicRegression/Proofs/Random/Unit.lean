import SymbolicRegression.Proofs.Binary64.Sum
import SymbolicRegression.Random.Draw

/-!
# Numbers drawn between zero and a bound

A wide word gives a multiple of `2 ^ -52` below one, exactly. That part of a positive bound is
rounded once. The result stays below the bound unless the bound is so small that its last bits are
coarser than the part that is missing.
-/
namespace SymbolicRegression.Draw

open Binary64 Float.Model Float.Model.UnpackedFloat

/-- The number of units of `2 ^ -52` that a wide word stands for. -/
def units (v : UInt64) : ℕ := (v >>> 12).toNat

/-- What a wide word draws between zero and a bound. -/
def scaledTo (bound : Float) (v : UInt64) : Float := unit v * (bound - 0.0) + 0.0

theorem units_lt (v : UInt64) : units v < 2 ^ 52 := by
  have := v.toNat_lt
  unfold units
  rw [UInt64.toNat_shiftRight, Nat.shiftRight_eq_div_pow]
  simp only [UInt64.reduceToNat, Nat.reduceMod]
  omega

theorem unpack_step : (2.220446049250313e-16 : Float).toModel.unpack
    = .finite .positive (2 ^ 52) (-104) (Nat.two_pow_pos 52) := by
  have bits : (2.220446049250313e-16 : Float) = Float.ofBits 0x3CB0000000000000 := by
    decide
  rw [bits]
  rfl

theorem toRat_step : toRat 2.220446049250313e-16 = 2 ^ (-52 : ℤ) := by
  rw [toRat, unpack_step, value_positive]
  norm_num

theorem unit_eq_zero {v : UInt64} (h : units v = 0) : unit v = 0.0 := by
  have zero : v >>> 12 = 0 := UInt64.toNat_inj.mp h
  unfold unit
  rw [zero]
  decide

theorem toRat_toFloat {n : UInt64} (pos : 0 < n.toNat) (h : n.toNat < 2 ^ 53) :
    toRat n.toFloat = n.toNat := by
  have exact_ := nearest_eq_self (p := 0) pos h (by norm_num)
  have fits := nearest_lt_overflow (p := 0) pos h (by norm_num) (by norm_num [maxExponent])
  rw [zpow_zero, mul_one] at exact_ fits
  rw [toFloat_eq_near pos, toRat_near _ (by positivity) fits, signed, exact_]

/-- A part of a unit is exact. -/
theorem toRat_unit (v : UInt64) : toRat (unit v) = units v * 2 ^ (-52 : ℤ) := by
  rcases Nat.eq_zero_or_pos (units v) with zero | pos
  · rw [unit_eq_zero zero, zero, toRat_zero]
    simp
  · have lt : units v < 2 ^ 53 := (units_lt v).trans (by norm_num)
    have word : toRat (v >>> 12).toFloat = units v := toRat_toFloat pos lt
    have word_pos : 0 < toRat (v >>> 12).toFloat := by
      rw [word]
      exact_mod_cast pos
    have step_pos : 0 < toRat 2.220446049250313e-16 := by
      rw [toRat_step]
      positivity
    have exact_ := nearest_eq_self (p := -52) pos lt (by norm_num)
    have fits := nearest_lt_overflow (p := -52) pos lt (by norm_num) (by norm_num [maxExponent])
    unfold unit
    rw [mul_eq_near_of_pos word_pos step_pos, word, toRat_step,
      toRat_near _ (by positivity) fits, signed, exact_]

theorem unit_part_lt (v : UInt64) {w : ℚ} (hw : 0 < w) : units v * 2 ^ (-52 : ℤ) * w < w := by
  have lt : (units v : ℚ) < 2 ^ (52 : ℤ) := by exact_mod_cast units_lt v
  have : (units v : ℚ) * 2 ^ (-52 : ℤ) < 1 := by
    rwa [zpow_neg, ← div_eq_mul_inv, div_lt_one (two_zpow_pos 52)]
  exact mul_lt_of_lt_one_left hw this

/-- A part of a positive bound is rounded once. -/
theorem unit_mul_spec {bound : Float} (h : 0 < toRat bound) (v : UInt64) :
    (unit v * bound).isFinite = true ∧
      toRat (unit v * bound) = nearest (units v * 2 ^ (-52 : ℤ) * toRat bound) := by
  rcases Nat.eq_zero_or_pos (units v) with zero | pos
  · obtain ⟨m, q, hm, hx, -⟩ := unpack_of_pos h
    have product : (0.0 : Float) * bound = 0.0 := by
      change Float.ofModel (.pack (UnpackedFloat.mul .binary64 (0.0 : Float).toModel.unpack
        bound.toModel.unpack)) = _
      rw [hx]
      rfl
    rw [unit_eq_zero zero, product, zero, toRat_zero, Nat.cast_zero, zero_mul, zero_mul,
      nearest_zero]
    exact ⟨rfl, rfl⟩
  · have part_pos : 0 < toRat (unit v) := by
      rw [toRat_unit]
      positivity
    have exact_pos : 0 < units v * 2 ^ (-52 : ℤ) * toRat bound := by positivity
    have fits : nearest (units v * 2 ^ (-52 : ℤ) * toRat bound) < overflow :=
      calc _ ≤ nearest (toRat bound) := nearest_mono exact_pos (unit_part_lt v h).le
        _ = toRat bound := nearest_toRat h
        _ < overflow := toRat_lt_overflow h
    rw [mul_eq_near_of_pos part_pos h, toRat_unit]
    exact ⟨isFinite_near _ exact_pos fits, toRat_near _ exact_pos fits⟩

/-- What is drawn between zero and a positive bound is the rounded part of the bound. -/
theorem scaledTo_spec {bound : Float} (h : 0 < toRat bound) (v : UInt64) :
    (scaledTo bound v).isFinite = true ∧
      toRat (scaledTo bound v) = nearest (units v * 2 ^ (-52 : ℤ) * toRat bound) := by
  obtain ⟨finite, part⟩ := unit_mul_spec h v
  obtain ⟨sum_finite, sum⟩ := add_zero_spec finite
  unfold scaledTo
  rw [sub_zero, sum, part]
  exact ⟨sum_finite, rfl⟩

/-- The greatest part of a unit that a wide word stands for. -/
def greatestPart : ℚ := (2 ^ 52 - 1 : ℕ) * 2 ^ (-52 : ℤ)

theorem part_le_greatest (v : UInt64) : units v * 2 ^ (-52 : ℤ) ≤ greatestPart := by
  have le : units v ≤ 2 ^ 52 - 1 := by
    have := units_lt v
    omega
  have le : (units v : ℚ) ≤ (2 ^ 52 - 1 : ℕ) := by exact_mod_cast le
  unfold greatestPart
  gcongr

theorem greatestPart_mul (y : ℚ) : greatestPart * y = y - y / 2 ^ 52 := by
  unfold greatestPart
  norm_num
  ring

theorem greatestPart_mul_lt {y : ℚ} (hy : 0 < y) : greatestPart * y < y := by
  have : 0 < y / 2 ^ 52 := by positivity
  rw [greatestPart_mul]
  linarith

/-- A bound of which no part is rounded up to the whole. -/
def coarsest : ℚ := 2 ^ (-1023 : ℤ)

theorem coarsest_eq : coarsest = 2 ^ 51 * 2 ^ (-1074 : ℤ) := by
  rw [coarsest, show (-1023 : ℤ) = 51 + -1074 by norm_num, two_zpow_add]
  norm_cast

/-- Where all 53 bits are in use, the greatest part lies a whole quantum below the bound. -/
theorem nearest_greatest_lt_of_normal {m : ℕ} {q : ℤ} (c : IsCanonical m q) (top : 2 ^ 52 ≤ m) :
    nearest (greatestPart * (m * 2 ^ q)) < m * 2 ^ q := by
  have pos := two_zpow_pos q
  have top' : (2 : ℚ) ^ 52 ≤ m := by exact_mod_cast top
  have below : greatestPart * (m * 2 ^ q) ≤ (m - 1 : ℕ) * 2 ^ q := by
    have unit_le : (1 : ℚ) ≤ m / 2 ^ 52 := by rwa [le_div_iff₀ (by norm_num), one_mul]
    rw [← mul_assoc, greatestPart_mul, Nat.cast_sub (by omega)]
    push_cast
    gcongr
  have positive : 0 < greatestPart * (m * 2 ^ q) := by
    rw [greatestPart_mul]
    have : (0 : ℚ) < m * 2 ^ q := by positivity
    linarith
  calc nearest (greatestPart * (m * 2 ^ q)) ≤ nearest ((m - 1 : ℕ) * 2 ^ q) :=
        nearest_mono positive below
    _ = (m - 1 : ℕ) * 2 ^ q := nearest_eq_self (by omega) (by have := c.lt; omega) c.least
    _ < m * 2 ^ q := by
        have : ((m - 1 : ℕ) : ℚ) < m := by exact_mod_cast (by omega : m - 1 < m)
        gcongr

/-- At the least exponent, a part is rounded to a multiple of `2 ^ -1074`. -/
theorem nearest_greatest_of_least {m : ℕ} (hm : 0 < m) (c : IsCanonical m (-1074)) :
    nearest (greatestPart * (m * 2 ^ (-1074 : ℤ)))
      = roundEven (greatestPart * m) * 2 ^ (-1074 : ℤ) := by
  have pos := two_zpow_pos (-1074)
  have whole : (0 : ℚ) < m * 2 ^ (-1074 : ℤ) := by positivity
  have positive : 0 < greatestPart * (m * 2 ^ (-1074 : ℤ)) := by
    rw [greatestPart_mul]
    linarith
  have quantum_part : quantum (greatestPart * (m * 2 ^ (-1074 : ℤ))) = -1074 := by
    have le := quantum_mono positive (greatestPart_mul_lt whole).le
    have least : -1074 ≤ quantum (greatestPart * (m * 2 ^ (-1074 : ℤ))) := le_max_right _ _
    rw [quantum_eq hm c] at le
    omega
  rw [nearest, significand, scaled, quantum_part, ← mul_assoc, mul_div_assoc, div_self pos.ne',
    mul_one]

/-- Beyond the coarsest bound, the greatest part stays below the bound. -/
theorem nearest_greatest_lt {m : ℕ} {q : ℤ} (c : IsCanonical m q)
    (h : coarsest < m * 2 ^ q) : nearest (greatestPart * (m * 2 ^ q)) < m * 2 ^ q := by
  by_cases top : 2 ^ 52 ≤ m
  · exact nearest_greatest_lt_of_normal c top
  · obtain rfl := c.normal.resolve_left top
    have pos := two_zpow_pos (-1074)
    have half : (2 : ℚ) ^ 51 < m := by
      rw [coarsest_eq] at h
      exact lt_of_mul_lt_mul_right h pos.le
    have hm : 2 ^ 51 < m := by exact_mod_cast half
    have small : (m : ℚ) < 2 ^ 52 := by exact_mod_cast not_le.mp top
    have down : roundEven (greatestPart * m) = m - 1 := by
      have lost : (1 : ℚ) / 2 < m / 2 ^ 52 ∧ m / 2 ^ 52 < (1 : ℚ) := by
        constructor
        · rw [lt_div_iff₀ (by norm_num)]
          linarith
        · rwa [div_lt_one (by norm_num)]
      apply roundEven_of_lt <;>
      · rw [greatestPart_mul, Nat.cast_sub (by omega)]
        push_cast
        linarith [lost.1, lost.2]
    rw [nearest_greatest_of_least (by omega) c, down]
    have : ((m - 1 : ℕ) : ℚ) < m := by exact_mod_cast (by omega : m - 1 < m)
    gcongr

/-- Up to the coarsest bound, the greatest part is rounded to the bound. -/
theorem nearest_greatest_eq {m : ℕ} {q : ℤ} (hm : 0 < m) (c : IsCanonical m q)
    (h : m * 2 ^ q ≤ coarsest) : nearest (greatestPart * (m * 2 ^ q)) = m * 2 ^ q := by
  have least : q = -1074 := by
    by_contra ne
    have top : (2 : ℚ) ^ (52 : ℤ) ≤ m := by exact_mod_cast c.normal.resolve_right ne
    have : coarsest < m * 2 ^ q := by
      have := c.least
      calc coarsest < 2 ^ (52 + q) := zpow_lt_zpow_right₀ (by norm_num) (by omega)
        _ = 2 ^ (52 : ℤ) * 2 ^ q := two_zpow_add _ _
        _ ≤ m * 2 ^ q := by gcongr
    linarith
  subst least
  have half : (m : ℚ) ≤ 2 ^ 51 := by
    rw [coarsest_eq] at h
    exact le_of_mul_le_mul_right h (two_zpow_pos _)
  have lost : (m : ℚ) / 2 ^ 52 ≤ 1 / 2 := by
    rw [div_le_iff₀ (by norm_num)]
    linarith
  have some_lost : (0 : ℚ) < m / 2 ^ 52 := by positivity
  have before : ((m - 1 : ℕ) : ℚ) = m - 1 := by
    rw [Nat.cast_sub hm, Nat.cast_one]
  have up : roundEven (greatestPart * m) = m := by
    rw [greatestPart_mul]
    rcases lost.lt_or_eq with lt | tie
    · have := roundEven_of_gt (y := m - m / 2 ^ 52) (n := m - 1) (by linarith) (by linarith)
      omega
    · -- an exact tie goes to the bound, whose significand `2 ^ 51` is even
      have even : (m : ℚ) = 2 ^ 51 := by
        rw [div_eq_iff (by norm_num)] at tie
        linarith
      have even : m = 2 ^ 51 := by exact_mod_cast even
      rw [roundEven_of_eq (y := m - m / 2 ^ 52) (n := m - 1) (by linarith), even]
      norm_num
  rw [nearest_greatest_of_least hm c, up]

/-- Beyond the coarsest bound, every number drawn is below the bound. -/
theorem scaledTo_lt {bound : Float} (h : coarsest < toRat bound) (v : UInt64) :
    scaledTo bound v < bound := by
  have pos : 0 < toRat bound := (two_zpow_pos _).trans h
  obtain ⟨finite, eq⟩ := scaledTo_spec pos v
  obtain ⟨m, q, hm, hx, whole⟩ := unpack_of_pos pos
  rw [lt_iff finite (isFinite_of_pos pos), eq]
  rcases Nat.eq_zero_or_pos (units v) with zero | some_
  · rw [zero, Nat.cast_zero, zero_mul, zero_mul, nearest_zero]
    exact pos
  · have exact_pos : 0 < units v * 2 ^ (-52 : ℤ) * toRat bound := by positivity
    calc _ ≤ nearest (greatestPart * toRat bound) :=
          nearest_mono exact_pos (by gcongr; exact part_le_greatest v)
      _ < toRat bound := by
          rw [whole] at h ⊢
          exact nearest_greatest_lt (canonical_of_unpack hx).1 h

/-- The greatest number drawn up to a bound is not below the one drawn up to a coarse part. -/
theorem le_scaledTo {part bound : Float} (pos : 0 < toRat part) (coarse : toRat part ≤ coarsest)
    (le : toRat part ≤ toRat bound) {v : UInt64} (hv : units v = 2 ^ 52 - 1) :
    toRat part ≤ toRat (scaledTo bound v) := by
  obtain ⟨m, q, hm, hx, whole⟩ := unpack_of_pos pos
  have positive : 0 < greatestPart * toRat part := by
    unfold greatestPart
    have : (0 : ℚ) < (2 ^ 52 - 1 : ℕ) := by norm_num
    positivity
  rw [(scaledTo_spec (pos.trans_le le) v).2, hv]
  calc toRat part = nearest (greatestPart * toRat part) := by
        rw [whole] at coarse ⊢
        exact (nearest_greatest_eq hm (canonical_of_unpack hx).1 coarse).symm
    _ ≤ nearest (greatestPart * toRat bound) := by
        apply nearest_mono positive
        unfold greatestPart
        gcongr

theorem scaledTo_nonneg {bound : Float} (pos : 0 < toRat bound) (v : UInt64) :
    0 ≤ toRat (scaledTo bound v) := by
  rw [(scaledTo_spec pos v).2]
  exact nearest_nonneg _

end SymbolicRegression.Draw
