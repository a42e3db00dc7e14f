import SymbolicRegression.Proofs.Binary64.Value

/-!
# The nearest binary64 number

A positive rational number is rounded to a multiple of its quantum, the power of two that leaves
53 bits before the point, or of `2 ^ -1074` if that is coarser; a tie goes to the even multiple.
Rounding keeps the order and the numbers that need no rounding, and moves no number by more than
half a quantum.
-/
namespace SymbolicRegression.Binary64

open Float.Model Float.Model.UnpackedFloat

/-- The whole number nearest to a number that is not negative; a tie goes to the even one. -/
def roundEven (y : ℚ) : ℕ :=
  match compare (y - ⌊y⌋₊) (1 / 2) with
  | .lt => ⌊y⌋₊
  | .eq => ⌊y⌋₊ + ⌊y⌋₊ % 2
  | .gt => ⌊y⌋₊ + 1

theorem floor_le_roundEven (y : ℚ) : ⌊y⌋₊ ≤ roundEven y := by
  unfold roundEven
  split <;> omega

theorem roundEven_le_floor_add_one (y : ℚ) : roundEven y ≤ ⌊y⌋₊ + 1 := by
  unfold roundEven
  split <;> omega

@[simp] theorem roundEven_natCast (n : ℕ) : roundEven n = n := by
  unfold roundEven
  rw [Nat.floor_natCast, sub_self, compare_lt_iff_lt.mpr (by norm_num)]

theorem roundEven_two_pow (k : ℕ) : roundEven (2 ^ k) = 2 ^ k := by
  have := roundEven_natCast (2 ^ k)
  rwa [Nat.cast_pow, Nat.cast_ofNat] at this

/-- Below the middle between two whole numbers the lower one is nearer. -/
theorem roundEven_of_lt {y : ℚ} {n : ℕ} (low : n ≤ y) (high : y < n + 1 / 2) :
    roundEven y = n := by
  have floor : ⌊y⌋₊ = n := (Nat.floor_eq_iff (by have := Nat.cast_nonneg (α := ℚ) n; linarith)).mpr
    ⟨low, by linarith⟩
  unfold roundEven
  rw [floor, compare_lt_iff_lt.mpr (by linarith)]

theorem roundEven_of_eq {y : ℚ} {n : ℕ} (h : y = n + 1 / 2) : roundEven y = n + n % 2 := by
  have floor : ⌊y⌋₊ = n := (Nat.floor_eq_iff (by rw [h]; positivity)).mpr
    ⟨by linarith, by linarith⟩
  unfold roundEven
  rw [floor, compare_eq_iff_eq.mpr (by linarith)]

theorem roundEven_of_gt {y : ℚ} {n : ℕ} (low : n + 1 / 2 < y) (high : y < n + 1) :
    roundEven y = n + 1 := by
  have floor : ⌊y⌋₊ = n := (Nat.floor_eq_iff (by have := Nat.cast_nonneg (α := ℚ) n; linarith)).mpr
    ⟨by linarith, high⟩
  unfold roundEven
  rw [floor, compare_gt_iff_gt.mpr (by linarith)]

theorem roundEven_mono {y z : ℚ} (h : y ≤ z) : roundEven y ≤ roundEven z := by
  rcases (Nat.floor_mono h).lt_or_eq with lt | eq
  · calc roundEven y ≤ ⌊y⌋₊ + 1 := roundEven_le_floor_add_one y
      _ ≤ ⌊z⌋₊ := lt
      _ ≤ roundEven z := floor_le_roundEven z
  · have hfloor : y - ⌊y⌋₊ ≤ z - ⌊z⌋₊ := by rw [eq]; linarith
    rcases lt_trichotomy (y - (⌊y⌋₊ : ℚ)) (1 / 2) with lt | half | gt
    · have := floor_le_roundEven z
      rw [roundEven, compare_lt_iff_lt.mpr lt, eq]
      exact this
    · unfold roundEven
      rw [eq] at hfloor half ⊢
      rw [compare_eq_iff_eq.mpr half]
      rcases (half ▸ hfloor).lt_or_eq with above | same
      · rw [compare_gt_iff_gt.mpr above]
        simp only
        omega
      · rw [compare_eq_iff_eq.mpr same.symm]
    · unfold roundEven
      rw [eq] at hfloor gt ⊢
      rw [compare_gt_iff_gt.mpr gt, compare_gt_iff_gt.mpr (gt.trans_le hfloor)]

/-- Rounding moves a number by at most one half. -/
theorem abs_roundEven_sub_le {y : ℚ} (hy : 0 ≤ y) : |(roundEven y : ℚ) - y| ≤ 1 / 2 := by
  have low := Nat.floor_le hy
  have high := Nat.lt_floor_add_one y
  unfold roundEven
  rw [abs_le]
  rcases lt_trichotomy (y - (⌊y⌋₊ : ℚ)) (1 / 2) with lt | half | gt
  · rw [compare_lt_iff_lt.mpr lt]
    constructor <;> linarith
  · rw [compare_eq_iff_eq.mpr half]
    rcases Nat.mod_two_eq_zero_or_one ⌊y⌋₊ with even | odd
    · simp only [even]
      push_cast
      constructor <;> linarith
    · simp only [odd]
      push_cast
      constructor <;> linarith
  · rw [compare_gt_iff_gt.mpr gt]
    push_cast
    constructor <;> linarith

/-- The exponent of the last bit that a number of this magnitude has. -/
def quantum (x : ℚ) : ℤ := max (Int.log 2 x - 52) (-1074)

theorem quantum_mono {x y : ℚ} (hx : 0 < x) (h : x ≤ y) : quantum x ≤ quantum y := by
  have := Int.log_mono_right (b := 2) hx h
  unfold quantum
  omega

/-- The magnitude of a canonical number fixes its exponent. -/
theorem quantum_eq {m : ℕ} {q : ℤ} (h : 0 < m) (c : IsCanonical m q) :
    quantum ((m : ℚ) * 2 ^ q) = q := by
  have pos := two_zpow_pos q
  have hx : (0 : ℚ) < m * 2 ^ q := by positivity
  have lt : Int.log 2 ((m : ℚ) * 2 ^ q) < 53 + q := by
    rw [← Int.lt_zpow_iff_log_lt (by norm_num) hx, Nat.cast_ofNat, two_zpow_add]
    have : (m : ℚ) < 2 ^ (53 : ℤ) := by exact_mod_cast c.lt
    gcongr
  unfold quantum
  rcases c.normal with top | rfl
  · have le : 52 + q ≤ Int.log 2 ((m : ℚ) * 2 ^ q) := by
      rw [← Int.zpow_le_iff_le_log (by norm_num) hx, Nat.cast_ofNat, two_zpow_add]
      have : (2 : ℚ) ^ (52 : ℤ) ≤ m := by exact_mod_cast top
      gcongr
    have := c.least
    omega
  · omega

/-- A number in units of its quantum. -/
def scaled (x : ℚ) : ℚ := x / 2 ^ quantum x

theorem scaled_nonneg {x : ℚ} (hx : 0 ≤ x) : 0 ≤ scaled x := by
  have := two_zpow_pos (quantum x)
  unfold scaled
  positivity

theorem scaled_mul (x : ℚ) : scaled x * 2 ^ quantum x = x := by
  have := two_zpow_pos (quantum x)
  unfold scaled
  field_simp

theorem scaled_lt (x : ℚ) : scaled x < 2 ^ 53 := by
  have pos := two_zpow_pos (quantum x)
  have bound := Int.lt_zpow_succ_log_self (b := 2) (by norm_num) x
  unfold scaled
  rw [div_lt_iff₀ pos]
  calc x < 2 ^ (Int.log 2 x + 1) := by exact_mod_cast bound
    _ ≤ 2 ^ (53 + quantum x) := by
      apply zpow_le_zpow_right₀ (by norm_num)
      unfold quantum
      omega
    _ = 2 ^ 53 * 2 ^ quantum x := by
      rw [two_zpow_add]
      norm_num

/-- Above the least exponent all 53 bits are in use. -/
theorem le_scaled {x : ℚ} (hx : 0 < x) (h : quantum x ≠ -1074) : 2 ^ 52 ≤ scaled x := by
  have pos := two_zpow_pos (quantum x)
  have bound := Int.zpow_log_le_self (b := 2) (by norm_num) hx
  unfold scaled
  rw [le_div_iff₀ pos]
  calc (2 : ℚ) ^ 52 * 2 ^ quantum x = 2 ^ (52 + quantum x) := by
        rw [two_zpow_add]
        norm_num
    _ = 2 ^ Int.log 2 x := by
      congr 1
      unfold quantum at h ⊢
      omega
    _ ≤ x := by exact_mod_cast bound

/-- The significand of a rounded number; it may reach `2 ^ 53`. -/
def significand (x : ℚ) : ℕ := roundEven (scaled x)

theorem significand_le (x : ℚ) : significand x ≤ 2 ^ 53 := by
  have h := roundEven_mono (scaled_lt x).le
  rwa [roundEven_two_pow] at h

theorem le_significand {x : ℚ} (hx : 0 < x) (h : quantum x ≠ -1074) : 2 ^ 52 ≤ significand x := by
  have h := roundEven_mono (le_scaled hx h)
  rwa [roundEven_two_pow] at h

/-- The nearest number with the precision of binary64 and no bound on its exponent. -/
def nearest (x : ℚ) : ℚ := significand x * 2 ^ quantum x

theorem nearest_nonneg (x : ℚ) : 0 ≤ nearest x := by
  unfold nearest
  positivity

theorem scaled_eq {k : ℕ} {p : ℤ} (n : ℕ) (h : p = quantum ((k : ℚ) * 2 ^ p) + n) :
    scaled ((k : ℚ) * 2 ^ p) = (k * 2 ^ n : ℕ) := by
  have pos := two_zpow_pos (quantum ((k : ℚ) * 2 ^ p))
  have split : (2 : ℚ) ^ p = 2 ^ quantum ((k : ℚ) * 2 ^ p) * 2 ^ n := by
    rw [← zpow_natCast, ← two_zpow_add, ← h]
  unfold scaled
  rw [div_eq_iff pos.ne']
  nth_rewrite 1 [split]
  push_cast
  ring

theorem quantum_le {k : ℕ} {p : ℤ} (hk : 0 < k) (lt : k < 2 ^ 53) (hp : -1074 ≤ p) :
    quantum ((k : ℚ) * 2 ^ p) ≤ p := by
  have pos := two_zpow_pos p
  have : Int.log 2 ((k : ℚ) * 2 ^ p) < 53 + p := by
    rw [← Int.lt_zpow_iff_log_lt (by norm_num) (by positivity), Nat.cast_ofNat, two_zpow_add]
    have : (k : ℚ) < 2 ^ (53 : ℤ) := by exact_mod_cast lt
    gcongr
  unfold quantum
  omega

/-- What 53 bits can hold is its own nearest number. -/
theorem nearest_eq_self {k : ℕ} {p : ℤ} (hk : 0 < k) (lt : k < 2 ^ 53) (hp : -1074 ≤ p) :
    nearest ((k : ℚ) * 2 ^ p) = k * 2 ^ p := by
  obtain ⟨n, hn⟩ := Int.eq_ofNat_of_zero_le (sub_nonneg.mpr (quantum_le hk lt hp))
  have scale := scaled_eq (k := k) (p := p) n (by omega)
  calc nearest ((k : ℚ) * 2 ^ p)
      = scaled ((k : ℚ) * 2 ^ p) * 2 ^ quantum ((k : ℚ) * 2 ^ p) := by
        rw [nearest, significand, scale, roundEven_natCast]
    _ = k * 2 ^ p := scaled_mul _

theorem abs_nearest_sub_le {x : ℚ} (hx : 0 ≤ x) : |nearest x - x| ≤ 2 ^ quantum x / 2 := by
  have pos := two_zpow_pos (quantum x)
  have h := abs_roundEven_sub_le (scaled_nonneg hx)
  calc |nearest x - x| = |(significand x - scaled x) * 2 ^ quantum x| := by
        rw [sub_mul, scaled_mul]
        rfl
    _ = |(significand x : ℚ) - scaled x| * 2 ^ quantum x := by
        rw [abs_mul, abs_of_pos pos]
    _ ≤ 1 / 2 * 2 ^ quantum x := by
        unfold significand
        gcongr
    _ = 2 ^ quantum x / 2 := by ring

theorem nearest_mono {x y : ℚ} (hx : 0 < x) (h : x ≤ y) : nearest x ≤ nearest y := by
  have hy := hx.trans_le h
  have posx := two_zpow_pos (quantum x)
  rcases (quantum_mono hx h).lt_or_eq with lt | eq
  · have normal : quantum y ≠ -1074 := by
      have : -1074 ≤ quantum x := le_max_right _ _
      omega
    calc nearest x ≤ 2 ^ 53 * 2 ^ quantum x := by
          unfold nearest
          have : (significand x : ℚ) ≤ 2 ^ 53 := by exact_mod_cast significand_le x
          gcongr
      _ = 2 ^ 52 * 2 ^ (quantum x + 1) := by
          rw [two_zpow_add]
          ring
      _ ≤ 2 ^ 52 * 2 ^ quantum y := by
          gcongr
          · norm_num
          · omega
      _ ≤ nearest y := by
          unfold nearest
          have : (2 : ℚ) ^ 52 ≤ significand y := by exact_mod_cast le_significand hy normal
          gcongr
  · have : significand x ≤ significand y := by
      apply roundEven_mono
      unfold scaled
      rw [eq]
      gcongr
    unfold nearest
    rw [eq]
    gcongr

end SymbolicRegression.Binary64
