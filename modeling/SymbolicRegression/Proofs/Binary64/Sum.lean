import SymbolicRegression.Proofs.Binary64.Sign

/-!
# Sums of finite numbers

The sum of two finite numbers lands where their exact sum does when it is rounded: at the nearest
number, or at the infinity of its sign if that number has an exponent that does not fit. Landing
keeps the order, so adding finite numbers keeps it too, up to the infinities.
-/
namespace SymbolicRegression.Binary64

open Float.Model Float.Model.UnpackedFloat

/-- The rational number that an unpacked number stands for, where an infinity stands for the least
magnitude beyond all finite numbers. -/
def unpackedExtent : UnpackedFloat → ℚ
  | .infinity s => signed s overflow
  | u => value u

/-- The rational number that a number stands for, with infinities at the ends. -/
def extent (x : Float) : ℚ := unpackedExtent x.toModel.unpack

/-- Whether a value is a number, be it infinite. -/
def IsNumber (x : Float) : Prop := IsProper x.toModel.unpack ∨ ∃ s, x.toModel.unpack = .infinity s

theorem isNumber_iff {x : Float} : IsNumber x ↔ x.toModel.unpack ≠ .notANumber := by
  unfold IsNumber
  cases hx : x.toModel.unpack with
  | notANumber => simp [IsProper]
  | infinity s => simp
  | zero s => simp [IsProper]
  | finite s m q hm =>
    have proper : IsProper (.finite s m q hm) := canonical_of_unpack hx
    simp [proper]

/-- Only numbers are compared. -/
theorem isNumber_of_le {x y : Float} (h : x ≤ y) : IsNumber x ∧ IsNumber y := by
  have le : (UnpackedFloat.compare x.toModel.unpack y.toModel.unpack).any (·.isLE) = true :=
    of_decide_eq_true h
  rw [isNumber_iff, isNumber_iff]
  constructor <;> intro undefined <;> rw [undefined] at le
  · cases le
  · cases hx : x.toModel.unpack <;> rw [hx] at le <;> cases le

theorem isNumber_of_isFinite {x : Float} (h : x.isFinite = true) : IsNumber x :=
  .inl (isProper_unpack h)

theorem unpackedExtent_of_isProper {u : UnpackedFloat} (h : IsProper u) :
    unpackedExtent u = value u := by
  cases u with
  | infinity s => exact h.elim
  | _ => rfl

theorem extent_of_isFinite {x : Float} (h : x.isFinite = true) : extent x = toRat x :=
  unpackedExtent_of_isProper (isProper_unpack h)

theorem overflow_pos : 0 < overflow := two_zpow_pos _

theorem abs_value_lt_overflow {u : UnpackedFloat} (h : IsProper u) : |value u| < overflow := by
  cases u with
  | notANumber => exact h.elim
  | infinity s => exact h.elim
  | zero s => exact abs_zero.trans_lt overflow_pos
  | finite s m q hm =>
    rw [abs_value_finite]
    exact (lt_overflow_iff h.1).mpr h.2

/-- Numbers compare as what they stand for, also if they are infinite. -/
theorem compare_extent {a b : UnpackedFloat} (ha : IsProper a ∨ ∃ s, a = .infinity s)
    (hb : IsProper b ∨ ∃ s, b = .infinity s) :
    UnpackedFloat.compare a b = some (compare (unpackedExtent a) (unpackedExtent b)) := by
  rcases ha with proper | ⟨s, rfl⟩
  · have inside := abs_lt.mp (abs_value_lt_overflow proper)
    rw [unpackedExtent_of_isProper proper]
    rcases hb with proper' | ⟨t, rfl⟩
    · rw [unpackedExtent_of_isProper proper', compare_eq proper proper']
    · cases t with
      | positive =>
        rw [unpackedExtent, signed, compare_lt_iff_lt.mpr inside.2]
        cases a <;> first | rfl | exact proper.elim
      | negative =>
        rw [unpackedExtent, signed, compare_gt_iff_gt.mpr inside.1]
        cases a <;> first | rfl | exact proper.elim
  · rcases hb with proper | ⟨t, rfl⟩
    · have inside := abs_lt.mp (abs_value_lt_overflow proper)
      rw [unpackedExtent_of_isProper proper]
      cases s with
      | positive =>
        rw [unpackedExtent, signed, compare_gt_iff_gt.mpr inside.2]
        cases b <;> first | rfl | exact proper.elim
      | negative =>
        rw [unpackedExtent, signed, compare_lt_iff_lt.mpr inside.1]
        cases b <;> first | rfl | exact proper.elim
    · have apart : -overflow < overflow := neg_lt_self overflow_pos
      cases s <;> cases t <;> simp only [unpackedExtent, signed]
      case positive.negative =>
        rw [compare_gt_iff_gt.mpr apart]
        rfl
      case negative.positive =>
        rw [compare_lt_iff_lt.mpr apart]
        rfl
      all_goals
        rw [compare_eq_iff_eq.mpr rfl]
        rfl

/-- Numbers are in the order of what they stand for. -/
theorem le_iff_extent {x y : Float} (hx : IsNumber x) (hy : IsNumber y) :
    x ≤ y ↔ extent x ≤ extent y := by
  have model : x ≤ y ↔ (UnpackedFloat.compare x.toModel.unpack y.toModel.unpack).any
      (·.isLE) = true := decide_eq_true_iff
  rw [model, compare_extent hx hy, Option.any_some, Ordering.isLE_iff_ne_gt]
  exact compare_le_iff_le

theorem lt_iff_extent {x y : Float} (hx : IsNumber x) (hy : IsNumber y) :
    x < y ↔ extent x < extent y := by
  have model : x < y ↔ (UnpackedFloat.compare x.toModel.unpack y.toModel.unpack
      == some .lt) = true := decide_eq_true_iff
  rw [model, compare_extent hx hy]
  simp [extent, compare_lt_iff_lt]

theorem isNumber_zero : IsNumber 0.0 := .inl trivial

theorem extent_zero : extent 0.0 = 0 := rfl

/-- Where a rational number lands when it is rounded. -/
def landing (x : ℚ) : ℚ :=
  if 0 ≤ x then min overflow (nearest x) else -min overflow (nearest (-x))

theorem min_nearest_nonneg (x : ℚ) : 0 ≤ min overflow (nearest x) :=
  le_min overflow_pos.le (nearest_nonneg x)

theorem landing_signed (s : Sign) {x : ℚ} (hx : 0 < x) :
    landing (signed s x) = signed s (min overflow (nearest x)) := by
  cases s with
  | positive => exact if_pos hx.le
  | negative =>
    simp only [landing, signed, neg_neg]
    exact if_neg (not_le.mpr (neg_neg_of_pos hx))

theorem landing_zero : landing 0 = 0 := by
  rw [landing, if_pos le_rfl, nearest_zero, min_eq_right overflow_pos.le]

/-- Rounding keeps the order. -/
theorem landing_mono {x y : ℚ} (h : x ≤ y) : landing x ≤ landing y := by
  unfold landing
  split_ifs with x_nonneg y_nonneg y_nonneg
  · rcases x_nonneg.eq_or_lt with rfl | x_pos
    · rw [nearest_zero, min_eq_right overflow_pos.le]
      exact min_nearest_nonneg y
    · exact min_le_min_left _ (nearest_mono x_pos h)
  · exact absurd (x_nonneg.trans h) y_nonneg
  · exact (neg_nonpos.mpr (min_nearest_nonneg _)).trans (min_nearest_nonneg y)
  · have y_pos : 0 < -y := by linarith
    exact neg_le_neg (min_le_min_left _ (nearest_mono y_pos (neg_le_neg h)))

/-- A finite number lands where it is. -/
theorem landing_toRat {x : Float} (h : x.isFinite = true) : landing (toRat x) = toRat x := by
  have proper := isProper_unpack h
  cases hx : x.toModel.unpack with
  | notANumber => exact (hx ▸ proper : IsProper .notANumber).elim
  | infinity s => exact (hx ▸ proper : IsProper (.infinity s)).elim
  | zero s =>
    rw [toRat, hx]
    exact landing_zero
  | finite s m q hm =>
    obtain ⟨c, hq⟩ := canonical_of_unpack hx
    have pos := two_zpow_pos q
    have magnitude : (0 : ℚ) < m * 2 ^ q := by positivity
    have whole : toRat x = signed s (m * 2 ^ q) := by
      rw [toRat, hx]
      cases s <;> simp [value, signed, Sign.apply]
    rw [whole, landing_signed s magnitude, nearest_eq_self hm c.lt c.least,
      min_eq_right ((lt_overflow_iff c).mpr hq).le]

/-- What is rounded stands for the place where it lands. -/
theorem extent_near (s : Sign) {x : ℚ} (hx : 0 < x) :
    IsNumber (near s x) ∧ extent (near s x) = landing (signed s x) := by
  rw [landing_signed s hx]
  rcases lt_or_ge (nearest x) overflow with fits | large
  · have finite := isFinite_near s hx fits
    refine ⟨isNumber_of_isFinite finite, ?_⟩
    rw [extent_of_isFinite finite, toRat_near s hx fits, min_eq_right fits.le]
  · have infinite := unpack_near_of_overflow_le s hx large
    refine ⟨.inr ⟨s, infinite⟩, ?_⟩
    rw [extent, infinite, unpackedExtent, min_eq_left large]

theorem extent_normalize (m e : ℤ) :
    IsNumber (packed (UnpackedFloat.normalize .binary64 m e .positive)) ∧
      extent (packed (UnpackedFloat.normalize .binary64 m e .positive)) = landing (m * 2 ^ e) := by
  have scale := two_zpow_pos e
  unfold UnpackedFloat.normalize
  rcases lt_trichotomy m 0 with negative | rfl | positive
  · obtain ⟨n, rfl⟩ := Int.exists_eq_neg_ofNat negative.le
    have size : 0 < n := by omega
    have exact_ : ((-(n : ℤ) : ℤ) : ℚ) * 2 ^ e = signed .negative (n * 2 ^ e) := by
      simp [signed]
    rw [compare_lt_iff_lt.mpr negative, exact_]
    simp only [neg_neg, Int.toNat_natCast, round_eq .negative e size]
    exact extent_near .negative (by positivity)
  · rw [compare_eq_iff_eq.mpr rfl, Int.cast_zero, zero_mul, landing_zero]
    have finite : (packed (.zero .positive)).isFinite = true := isFinite_of_isProper trivial
    refine ⟨isNumber_of_isFinite finite, ?_⟩
    rw [extent_of_isFinite finite]
    exact toRat_zero
  · obtain ⟨n, rfl⟩ := Int.eq_ofNat_of_zero_le positive.le
    have size : 0 < n := by omega
    rw [compare_gt_iff_gt.mpr positive, Int.cast_natCast]
    simp only [Int.toNat_natCast, round_eq .positive e size]
    exact extent_near .positive (by positivity)

/-- A finite number stands for the same after a zero has been added to it. -/
theorem toRat_add_of_unpack_zero {x y : Float} {s : Sign} (hx : x.isFinite = true)
    (hy : y.toModel.unpack = .zero s) : (x + y).isFinite = true ∧ toRat (x + y) = toRat x := by
  have kept : IsProper (UnpackedFloat.add .binary64 x.toModel.unpack (.zero s)) ∧
      value (UnpackedFloat.add .binary64 x.toModel.unpack (.zero s)) = toRat x := by
    have proper := isProper_unpack hx
    unfold toRat
    cases ux : x.toModel.unpack with
    | notANumber => exact (ux ▸ proper : IsProper .notANumber).elim
    | infinity t => exact (ux ▸ proper : IsProper (.infinity t)).elim
    | zero t => cases s <;> cases t <;> exact ⟨trivial, rfl⟩
    | finite t m q hm =>
      rw [ux] at proper
      exact ⟨proper, rfl⟩
  have finite : (x + y).isFinite = true := by
    show (packed (UnpackedFloat.add .binary64 x.toModel.unpack y.toModel.unpack)).isFinite = true
    rw [hy]
    exact isFinite_of_isProper kept.1
  refine ⟨finite, ?_⟩
  rw [← kept.2, ← toRat_ofModel_pack kept.1, ← hy]
  rfl

theorem add_zero_spec {x : Float} (hx : x.isFinite = true) :
    (x + 0.0).isFinite = true ∧ toRat (x + 0.0) = toRat x :=
  toRat_add_of_unpack_zero hx unpack_zero

/-- Significands are added at the lesser of two exponents. -/
theorem exists_add_eq_normalize (s t : Sign) {m n : ℕ} (p q : ℤ) (hm : 0 < m) (hn : 0 < n) :
    ∃ k : ℤ, UnpackedFloat.add .binary64 (.finite s m p hm) (.finite t n q hn)
        = UnpackedFloat.normalize .binary64 k (min p q) .positive ∧
      k * 2 ^ min p q = value (.finite s m p hm) + value (.finite t n q hn) := by
  refine ⟨s.apply (decreaseExponent m p (min p q)).1 + t.apply (decreaseExponent n q (min p q)).1,
    rfl, ?_⟩
  have left := decreaseExponent_eq m (min_le_left p q)
  have right := decreaseExponent_eq n (min_le_right p q)
  cases s <;> cases t <;>
  · simp only [value, Sign.apply]
    push_cast
    simp only [add_mul, neg_mul, left, right]

/-- The sum of finite numbers stands for the place where their exact sum lands. -/
theorem extent_add {x y : Float} (hx : x.isFinite = true) (hy : y.isFinite = true) :
    IsNumber (x + y) ∧ extent (x + y) = landing (toRat x + toRat y) := by
  have proper_x := isProper_unpack hx
  have proper_y := isProper_unpack hy
  cases uy : y.toModel.unpack with
  | notANumber => exact (uy ▸ proper_y : IsProper .notANumber).elim
  | infinity t => exact (uy ▸ proper_y : IsProper (.infinity t)).elim
  | zero t =>
    have total : toRat x + toRat y = toRat x := by simp [toRat, uy, value]
    obtain ⟨finite, same⟩ := toRat_add_of_unpack_zero hx uy
    rw [total, landing_toRat hx, extent_of_isFinite finite]
    exact ⟨isNumber_of_isFinite finite, same⟩
  | finite t n q hn =>
    cases ux : x.toModel.unpack with
    | notANumber => exact (ux ▸ proper_x : IsProper .notANumber).elim
    | infinity s => exact (ux ▸ proper_x : IsProper (.infinity s)).elim
    | zero s =>
      have total : toRat x + toRat y = toRat y := by simp [toRat, ux, value]
      obtain ⟨finite, same⟩ := toRat_add_of_unpack_zero hy ux
      rw [total, landing_toRat hy, floatAdd_comm, extent_of_isFinite finite]
      exact ⟨isNumber_of_isFinite finite, same⟩
    | finite s m p hm =>
      obtain ⟨k, sum, total⟩ := exists_add_eq_normalize s t p q hm hn
      rw [toRat, toRat, ux, uy, ← total]
      show IsNumber (packed (UnpackedFloat.add .binary64 x.toModel.unpack y.toModel.unpack)) ∧
        extent (packed (UnpackedFloat.add .binary64 x.toModel.unpack y.toModel.unpack)) = _
      rw [ux, uy, sum]
      exact extent_normalize k (min p q)

@[simp] theorem floatNeg_neg (x : Float) : - -x = x := by
  apply eq_of_unpack_eq
  rw [unpack_neg, unpack_neg]
  cases x.toModel.unpack with
  | notANumber => rfl
  | infinity s => cases s <;> rfl
  | zero s => cases s <;> rfl
  | finite s m q hm => cases s <;> rfl

theorem isFinite_neg {x : Float} (h : x.isFinite = true) : (-x).isFinite = true := by
  have proper := isProper_unpack h
  rw [isFinite_iff, unpack_neg]
  cases hx : x.toModel.unpack <;> rw [hx] at proper <;> exact proper

theorem unpackedSub_eq (a b : UnpackedFloat) :
    UnpackedFloat.sub .binary64 a b = UnpackedFloat.add .binary64 a b.neg := by
  cases a with
  | notANumber => rfl
  | infinity s => cases b <;> rfl
  | zero s => cases b <;> rfl
  | finite s m p hm =>
    cases b with
    | finite t n q hn =>
      simp only [UnpackedFloat.sub, UnpackedFloat.add, UnpackedFloat.neg, apply_neg, sub_eq_add_neg]
    | _ => rfl

/-- To take a number away is to add its negative. -/
theorem floatSub_eq (x y : Float) : x - y = x + -y := by
  show packed (UnpackedFloat.sub .binary64 x.toModel.unpack y.toModel.unpack)
    = packed (UnpackedFloat.add .binary64 x.toModel.unpack (-y).toModel.unpack)
  rw [unpackedSub_eq, unpack_neg]

/-- A number short of both infinities is finite. -/
theorem isFinite_of_abs_extent_lt {x : Float} (h : IsNumber x) (inside : |extent x| < overflow) :
    x.isFinite = true := by
  rcases h with proper | ⟨s, infinite⟩
  · exact isFinite_iff.mpr proper
  · have at_end : |extent x| = overflow := by
      rw [extent, infinite]
      cases s <;> simp [unpackedExtent, signed, abs_of_pos overflow_pos]
    exact absurd at_end inside.ne

/-- What lies between finite numbers is finite. -/
theorem isFinite_of_between {x low high : Float} (hl : low.isFinite = true)
    (hh : high.isFinite = true) (above : low ≤ x) (below : x ≤ high) : x.isFinite = true := by
  have h := (isNumber_of_le below).1
  have low_inside := abs_lt.mp (abs_value_lt_overflow (isProper_unpack hl))
  have high_inside := abs_lt.mp (abs_value_lt_overflow (isProper_unpack hh))
  rw [le_iff_extent (isNumber_of_isFinite hl) h, extent_of_isFinite hl] at above
  rw [le_iff_extent h (isNumber_of_isFinite hh), extent_of_isFinite hh] at below
  exact isFinite_of_abs_extent_lt h (abs_lt.mpr
    ⟨low_inside.1.trans_le above, below.trans_lt high_inside.2⟩)

/-- Adding the greater of two finite numbers gives the greater sum. -/
theorem floatAdd_le_add {x y z : Float} (hx : x.isFinite = true) (hy : y.isFinite = true)
    (hz : z.isFinite = true) (h : toRat y ≤ toRat z) : x + y ≤ x + z := by
  obtain ⟨number_y, sum_y⟩ := extent_add hx hy
  obtain ⟨number_z, sum_z⟩ := extent_add hx hz
  rw [le_iff_extent number_y number_z, sum_y, sum_z]
  exact landing_mono (by gcongr)

theorem floatAdd_le {x y : Float} (hx : x.isFinite = true) (hy : y.isFinite = true)
    (h : toRat y ≤ 0) : x + y ≤ x := by
  obtain ⟨number, sum⟩ := extent_add hx hy
  rw [le_iff_extent number (isNumber_of_isFinite hx), sum, extent_of_isFinite hx]
  calc landing (toRat x + toRat y) ≤ landing (toRat x) := landing_mono (by linarith)
    _ = toRat x := landing_toRat hx

theorem le_floatAdd {x y : Float} (hx : x.isFinite = true) (hy : y.isFinite = true)
    (h : 0 ≤ toRat y) : x ≤ x + y := by
  obtain ⟨number, sum⟩ := extent_add hx hy
  rw [le_iff_extent (isNumber_of_isFinite hx) number, sum, extent_of_isFinite hx]
  calc toRat x = landing (toRat x) := (landing_toRat hx).symm
    _ ≤ landing (toRat x + toRat y) := landing_mono (by linarith)

/-- Adding a finite number that is not negative does not make a number less, be it infinite. -/
theorem extent_le_add {x y : Float} (hx : IsNumber x) (hy : y.isFinite = true)
    (h : 0 ≤ toRat y) : IsNumber (x + y) ∧ extent x ≤ extent (x + y) := by
  rcases hx with proper | ⟨s, infinite⟩
  · have finite := isFinite_iff.mpr proper
    have le := le_floatAdd finite hy h
    obtain ⟨number, -⟩ := extent_add finite hy
    exact ⟨number, (le_iff_extent (isNumber_of_isFinite finite) number).mp le⟩
  · have same : (x + y).toModel.unpack = .infinity s := by
      have proper := isProper_unpack hy
      show (packed (UnpackedFloat.add .binary64 x.toModel.unpack y.toModel.unpack)).toModel.unpack
        = _
      rw [infinite]
      cases uy : y.toModel.unpack with
      | notANumber => exact (uy ▸ proper : IsProper .notANumber).elim
      | infinity t => exact (uy ▸ proper : IsProper (.infinity t)).elim
      | _ => exact unpack_packedInfinity s
    refine ⟨.inr ⟨s, same⟩, ?_⟩
    rw [extent, extent, infinite, same]

/-- The double of a finite number needs no rounding unless it is infinite. -/
theorem toRat_add_self {x : Float} (hx : 0 < toRat x) (finite : (x + x).isFinite = true) :
    toRat (x + x) = 2 * toRat x := by
  obtain ⟨m, q, hm, ux, whole⟩ := unpack_of_pos hx
  obtain ⟨c, -⟩ := canonical_of_unpack ux
  have double : toRat x + toRat x = m * 2 ^ (q + 1) := by
    rw [whole, two_zpow_add]
    ring
  have fits : nearest (toRat x + toRat x) < overflow := by
    by_contra! large
    have infinite := unpack_near_of_overflow_le .positive (add_pos hx hx) large
    rw [← add_eq_near_of_pos hx hx] at infinite
    have proper := isProper_unpack finite
    rw [infinite] at proper
    exact proper
  rw [add_eq_near_of_pos hx hx, toRat_near .positive (add_pos hx hx) fits, signed, double,
    nearest_eq_self hm c.lt (by have := c.least; omega), ← double]
  ring

end SymbolicRegression.Binary64
