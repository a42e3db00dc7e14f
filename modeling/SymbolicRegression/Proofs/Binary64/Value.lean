import SymbolicRegression.Proofs.Binary64.Packing

/-!
# The values of binary64 numbers

Every finite number stands for a rational number. Two numbers that are not zero are equal if they
stand for the same one, and finite numbers are compared as what they stand for.
-/
namespace SymbolicRegression.Binary64

open Float.Model Float.Model.UnpackedFloat

/-- The rational number that a finite number stands for. -/
def value : UnpackedFloat → ℚ
  | .finite s m q _ => (s.apply m : ℤ) * 2 ^ q
  | _ => 0

/-- Whether an unpacked number is finite, and in the form that binary64 numbers have. -/
def IsProper : UnpackedFloat → Prop
  | .finite _ m q _ => IsCanonical m q ∧ q ≤ maxExponent
  | .zero _ => True
  | _ => False

/-- The rational number that a finite number stands for. -/
def toRat (x : Float) : ℚ := value x.toModel.unpack

theorem isProper_unpack {x : Float} (h : x.isFinite = true) : IsProper x.toModel.unpack := by
  cases hx : x.toModel.unpack with
  | infinity s =>
    simp [Float.isFinite, Float.Model.isFinite, hx, UnpackedFloat.isFinite] at h
  | notANumber =>
    simp [Float.isFinite, Float.Model.isFinite, hx, UnpackedFloat.isFinite] at h
  | zero s => trivial
  | finite s m q positive => exact canonical_of_unpack hx

/-- Numbers with the same sign, significand and exponent are the same. -/
theorem eq_of_unpack_eq {x y : Float} (h : x.toModel.unpack = y.toModel.unpack) : x = y := by
  have bits : x.toModel.toBits.toBitVec = y.toModel.toBits.toBitVec := by
    rw [← pack_unpack x.toModel.valid, ← pack_unpack y.toModel.valid]
    exact congrArg _ h
  obtain ⟨⟨⟨xb⟩, xv⟩⟩ := x
  obtain ⟨⟨⟨yb⟩, yv⟩⟩ := y
  simp only at bits
  subst bits
  rfl

theorem eq_of_toBits_eq {x y : Float} (h : x.toBits = y.toBits) : x = y := by
  obtain ⟨⟨xb, xv⟩⟩ := x
  obtain ⟨⟨yb, yv⟩⟩ := y
  change xb = yb at h
  subst h
  rfl

/-- There are only as many numbers as there are words. -/
instance instFiniteFloat : Finite Float :=
  Finite.of_injective Float.toBits fun _ _ => eq_of_toBits_eq

/-- A number is what its unpacked form packs to. -/
theorem ofModel_pack_unpack (x : Float) : Float.ofModel (.pack x.toModel.unpack) = x := by
  obtain ⟨⟨⟨b⟩, valid⟩⟩ := x
  simp only [Float.Model.pack, Float.Model.unpack]
  congr 2
  exact congrArg UInt64.ofBitVec (pack_unpack valid)

theorem unpack_ofModel_pack {u : UnpackedFloat} (h : IsProper u) :
    (Float.ofModel (.pack u)).toModel.unpack = u := by
  cases u with
  | infinity s => exact h.elim
  | notANumber => exact h.elim
  | zero s => exact unpack_packedZero s
  | finite s m q positive => exact unpack_pack h.1 h.2

theorem unpack_neg (x : Float) : (-x).toModel.unpack = x.toModel.unpack.neg := by
  show (Float.ofModel (.pack x.toModel.unpack.neg)).toModel.unpack = x.toModel.unpack.neg
  cases hx : x.toModel.unpack with
  | notANumber => rfl
  | infinity s => exact unpack_packedInfinity (-s)
  | zero s => exact unpack_packedZero (-s)
  | finite s m q hm =>
    have proper : IsProper (.finite (-s) m q hm) := canonical_of_unpack hx
    exact unpack_ofModel_pack proper

theorem unpack_abs (x : Float) : x.abs.toModel.unpack = x.toModel.unpack.abs := by
  show (Float.ofModel (.pack x.toModel.unpack.abs)).toModel.unpack = x.toModel.unpack.abs
  cases hx : x.toModel.unpack with
  | notANumber => rfl
  | infinity s => exact unpack_packedInfinity .positive
  | zero s => exact unpack_packedZero .positive
  | finite s m q hm =>
    have proper : IsProper (.finite .positive m q hm) := canonical_of_unpack hx
    exact unpack_ofModel_pack proper

theorem two_zpow_pos (q : ℤ) : (0 : ℚ) < 2 ^ q := by positivity

theorem two_zpow_add (a b : ℤ) : (2 : ℚ) ^ (a + b) = 2 ^ a * 2 ^ b :=
  zpow_add₀ (by norm_num) a b

/-- A smaller exponent means a smaller magnitude. -/
theorem magnitude_lt_of_exponent_lt {m n : ℕ} {p q : ℤ} (hm : IsCanonical m p)
    (hn : IsCanonical n q) (h : p < q) : (m : ℚ) * 2 ^ p < n * 2 ^ q := by
  have top : 2 ^ 52 ≤ n := hn.normal.resolve_right (by have := hm.least; omega)
  calc (m : ℚ) * 2 ^ p < 2 ^ 53 * 2 ^ p := by
        have := two_zpow_pos p
        have : (m : ℚ) < 2 ^ 53 := by exact_mod_cast hm.lt
        gcongr
    _ = 2 ^ 52 * 2 ^ (p + 1) := by
        rw [two_zpow_add]
        ring
    _ ≤ 2 ^ 52 * 2 ^ q := by
        gcongr
        · norm_num
        · omega
    _ ≤ n * 2 ^ q := by
        have : (2 : ℚ) ^ 52 ≤ n := by exact_mod_cast top
        gcongr

theorem compare_magnitude {m n : ℕ} {p q : ℤ} (hm : IsCanonical m p) (hn : IsCanonical n q) :
    (compare p q).then (compare m n) = compare ((m : ℚ) * 2 ^ p) (n * 2 ^ q) := by
  rcases lt_trichotomy p q with lt | rfl | gt
  · rw [compare_lt_iff_lt.mpr lt, compare_lt_iff_lt.mpr (magnitude_lt_of_exponent_lt hm hn lt)]
    rfl
  · rw [compare_eq_iff_eq.mpr rfl]
    have pos := two_zpow_pos p
    rcases lt_trichotomy m n with lt | rfl | gt
    · rw [compare_lt_iff_lt.mpr lt, compare_lt_iff_lt.mpr (by gcongr)]
      rfl
    · rw [compare_eq_iff_eq.mpr rfl, compare_eq_iff_eq.mpr rfl]
      rfl
    · rw [compare_gt_iff_gt.mpr gt, compare_gt_iff_gt.mpr (by gcongr)]
      rfl
  · rw [compare_gt_iff_gt.mpr gt, compare_gt_iff_gt.mpr (magnitude_lt_of_exponent_lt hn hm gt)]
    rfl

@[simp] theorem apply_neg (s : Sign) (n : ℤ) : (-s).apply n = -s.apply n := by
  cases s with
  | positive => rfl
  | negative => exact (neg_neg n).symm

theorem toRat_neg (x : Float) : toRat (-x) = -toRat x := by
  unfold toRat
  rw [unpack_neg]
  cases x.toModel.unpack with
  | finite s m q hm => simp [UnpackedFloat.neg, value]
  | _ => exact neg_zero.symm

theorem toRat_abs (x : Float) : toRat x.abs = |toRat x| := by
  unfold toRat
  rw [unpack_abs]
  cases x.toModel.unpack with
  | finite s m q hm => cases s <;> simp [UnpackedFloat.abs, value, Sign.apply]
  | _ => exact abs_zero.symm

theorem abs_value_finite (s : Sign) (m : ℕ) (q : ℤ) (h : 0 < m) :
    |value (.finite s m q h)| = m * 2 ^ q := by
  cases s <;> simp [value, Sign.apply]

theorem value_positive (m : ℕ) (q : ℤ) (h : 0 < m) :
    value (.finite .positive m q h) = m * 2 ^ q := by
  simp [value, Sign.apply]

theorem value_positive_pos {m : ℕ} {q : ℤ} {h : 0 < m} :
    0 < value (.finite .positive m q h) := by
  have := two_zpow_pos q
  rw [value_positive]
  positivity

theorem value_negative_neg {m : ℕ} {q : ℤ} {h : 0 < m} :
    value (.finite .negative m q h) < 0 := by
  have := two_zpow_pos q
  have : (0 : ℚ) < m := by exact_mod_cast h
  simp only [value, Sign.apply]
  push_cast
  have : 0 < (m : ℚ) * 2 ^ q := by positivity
  linarith

/-- Finite numbers compare as the numbers they stand for. -/
theorem compare_eq {a b : UnpackedFloat} (ha : IsProper a) (hb : IsProper b) :
    UnpackedFloat.compare a b = some (compare (value a) (value b)) := by
  cases a with
  | infinity s => exact ha.elim
  | notANumber => exact ha.elim
  | zero s =>
    cases b with
    | infinity t => exact hb.elim
    | notANumber => exact hb.elim
    | zero t => simp [UnpackedFloat.compare, value]
    | finite t n q hn =>
      cases t with
      | positive => rw [compare_lt_iff_lt.mpr (by exact value_positive_pos)]; rfl
      | negative => rw [compare_gt_iff_gt.mpr (by exact value_negative_neg)]; rfl
  | finite s m p hm =>
    cases b with
    | infinity t => exact hb.elim
    | notANumber => exact hb.elim
    | zero t =>
      cases s with
      | positive => rw [compare_gt_iff_gt.mpr (by exact value_positive_pos)]; rfl
      | negative => rw [compare_lt_iff_lt.mpr (by exact value_negative_neg)]; rfl
    | finite t n q hn =>
      cases s with
      | positive =>
        cases t with
        | positive =>
          simp only [UnpackedFloat.compare, value, Sign.apply, compare_magnitude ha.1 hb.1]
          rfl
        | negative =>
          rw [compare_gt_iff_gt.mpr (value_negative_neg.trans value_positive_pos)]
          rfl
      | negative =>
        cases t with
        | positive =>
          rw [compare_lt_iff_lt.mpr (value_negative_neg.trans value_positive_pos)]
          rfl
        | negative =>
          simp only [UnpackedFloat.compare, value, Sign.apply, compare_magnitude ha.1 hb.1]
          push_cast
          rw [neg_mul, neg_mul]
          rcases lt_trichotomy ((m : ℚ) * 2 ^ p) (n * 2 ^ q) with lt | eq | gt
          · rw [compare_lt_iff_lt.mpr lt, compare_gt_iff_gt.mpr (neg_lt_neg lt)]
            rfl
          · rw [compare_eq_iff_eq.mpr eq, compare_eq_iff_eq.mpr (by rw [eq])]
            rfl
          · rw [compare_gt_iff_gt.mpr gt, compare_lt_iff_lt.mpr (neg_lt_neg gt)]
            rfl

theorem lt_iff {x y : Float} (hx : x.isFinite = true) (hy : y.isFinite = true) :
    x < y ↔ toRat x < toRat y := by
  have model : x < y ↔ (UnpackedFloat.compare x.toModel.unpack y.toModel.unpack
      == some .lt) = true := decide_eq_true_iff
  rw [model, compare_eq (isProper_unpack hx) (isProper_unpack hy)]
  simp [toRat, compare_lt_iff_lt]

theorem le_iff {x y : Float} (hx : x.isFinite = true) (hy : y.isFinite = true) :
    x ≤ y ↔ toRat x ≤ toRat y := by
  have model : x ≤ y ↔ (UnpackedFloat.compare x.toModel.unpack y.toModel.unpack).any
      (·.isLE) = true := decide_eq_true_iff
  rw [model, compare_eq (isProper_unpack hx) (isProper_unpack hy), Option.any_some,
    Ordering.isLE_iff_ne_gt]
  exact compare_le_iff_le

theorem beq_iff {x y : Float} (hx : x.isFinite = true) (hy : y.isFinite = true) :
    (x == y) = true ↔ toRat x = toRat y := by
  change (UnpackedFloat.compare x.toModel.unpack y.toModel.unpack == some .eq) = true ↔ _
  rw [compare_eq (isProper_unpack hx) (isProper_unpack hy)]
  simp [toRat]

theorem lt_or_beq_of_le {x y : Float} (h : x ≤ y) : x < y ∨ (x == y) = true := by
  have le : (UnpackedFloat.compare x.toModel.unpack y.toModel.unpack).any (·.isLE) = true :=
    of_decide_eq_true h
  have lt : x < y ↔ (UnpackedFloat.compare x.toModel.unpack y.toModel.unpack
      == some .lt) = true := decide_eq_true_iff
  have eq : (x == y) = true ↔ (UnpackedFloat.compare x.toModel.unpack y.toModel.unpack
      == some .eq) = true := Iff.rfl
  rw [lt, eq]
  cases order : UnpackedFloat.compare x.toModel.unpack y.toModel.unpack with
  | none => simp [order] at le
  | some o => cases o <;> simp_all

/-- A positive number that is at most a finite one is finite. -/
theorem isFinite_of_le {x y : Float} (hy : y.isFinite = true) (positive : ¬x ≤ 0.0) (h : x ≤ y) :
    x.isFinite = true := by
  have proper := isProper_unpack hy
  have le : (UnpackedFloat.compare x.toModel.unpack y.toModel.unpack).any (·.isLE) = true :=
    of_decide_eq_true h
  have above : ¬(UnpackedFloat.compare x.toModel.unpack (.zero .positive)).any (·.isLE) = true :=
    fun le => positive (decide_eq_true le)
  unfold Float.isFinite Float.Model.isFinite
  cases hx : x.toModel.unpack with
  | zero s => rfl
  | finite s m q hm => rfl
  | notANumber =>
    rw [hx] at le
    cases y.toModel.unpack <;> simp [UnpackedFloat.compare] at le
  | infinity s =>
    cases s with
    | negative => exact absurd (by rw [hx]; rfl) above
    | positive =>
      rw [hx] at le
      cases hy : y.toModel.unpack with
      | infinity t => exact (hy ▸ proper : IsProper (.infinity t)).elim
      | notANumber => exact (hy ▸ proper : IsProper .notANumber).elim
      | zero t => simp [hy, UnpackedFloat.compare] at le
      | finite t n p hn => simp [hy, UnpackedFloat.compare] at le

end SymbolicRegression.Binary64
