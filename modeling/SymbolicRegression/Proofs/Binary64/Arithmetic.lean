import SymbolicRegression.Proofs.Binary64.Rounding

/-!
# Arithmetic on binary64 numbers

The result of an operation on finite numbers is the number nearest to the exact result, with the
sign that the operands decide; it is infinite if that number has an exponent that does not fit.
-/
namespace SymbolicRegression.Binary64

open Float.Model Float.Model.UnpackedFloat

/-- The number nearest to a magnitude, with a sign. -/
def near (s : Sign) (x : ℚ) : Float := .ofModel (.pack (rounded s x))

/-- The least magnitude beyond all finite numbers. -/
def overflow : ℚ := 2 ^ (1024 : ℤ)

theorem significand_canonical {x : ℚ} (hx : 0 < x) (lt : significand x < 2 ^ 53) :
    IsCanonical (significand x) (quantum x) := by
  refine ⟨lt, le_max_right _ _, ?_⟩
  by_cases h : quantum x = -1074
  · exact .inr h
  · exact .inl (le_significand hx h)

/-- A sign in front of a magnitude. -/
def signed (s : Sign) (x : ℚ) : ℚ :=
  match s with
  | .positive => x
  | .negative => -x

theorem value_rounded (s : Sign) (x : ℚ) : value (rounded s x) = signed s (nearest x) := by
  unfold rounded nearest
  split_ifs with zero small
  · cases s <;> simp [value, signed, zero]
  · cases s <;> simp [value, signed, Sign.apply]
  · have top : significand x = 2 ^ 53 := by
      have := significand_le x
      omega
    have double : (2 : ℚ) ^ (quantum x + 1) = 2 ^ quantum x * 2 := by
      rw [two_zpow_add, zpow_one]
    cases s <;>
    · simp only [value, signed, Sign.apply, top, double]
      push_cast
      ring

theorem lt_overflow_iff {m : ℕ} {q : ℤ} (c : IsCanonical m q) :
    (m : ℚ) * 2 ^ q < overflow ↔ q ≤ maxExponent := by
  have pos := two_zpow_pos q
  unfold overflow maxExponent
  constructor
  · intro lt
    by_contra! large
    have top : (2 : ℚ) ^ (52 : ℤ) ≤ m := by
      exact_mod_cast c.normal.resolve_right (by omega)
    have : (2 : ℚ) ^ (1024 : ℤ) ≤ m * 2 ^ q := by
      calc (2 : ℚ) ^ (1024 : ℤ) ≤ 2 ^ (52 + q) := zpow_le_zpow_right₀ (by norm_num) (by omega)
        _ = 2 ^ (52 : ℤ) * 2 ^ q := two_zpow_add _ _
        _ ≤ m * 2 ^ q := by gcongr
    linarith
  · intro small
    have : (m : ℚ) < 2 ^ (53 : ℤ) := by exact_mod_cast c.lt
    calc (m : ℚ) * 2 ^ q < 2 ^ (53 : ℤ) * 2 ^ q := by gcongr
      _ = 2 ^ (53 + q) := (two_zpow_add _ _).symm
      _ ≤ 2 ^ (1024 : ℤ) := zpow_le_zpow_right₀ (by norm_num) (by omega)

/-- A rounded number is zero, or has the one form that binary64 numbers have. -/
theorem rounded_eq (s : Sign) {x : ℚ} (hx : 0 < x) :
    rounded s x = .zero s ∨ ∃ m q, ∃ h : 0 < m,
      rounded s x = .finite s m q h ∧ IsCanonical m q ∧ nearest x = m * 2 ^ q := by
  have magnitude := value_rounded s x
  unfold rounded at magnitude ⊢
  split_ifs at magnitude ⊢ with zero small
  · exact .inl rfl
  · exact .inr ⟨_, _, Nat.pos_of_ne_zero zero, rfl, significand_canonical hx small, rfl⟩
  · refine .inr ⟨_, _, Nat.two_pow_pos 52, rfl, ⟨by norm_num, ?_, .inl le_rfl⟩, ?_⟩
    · have : -1074 ≤ quantum x := le_max_right _ _
      omega
    · cases s <;> simpa [value, signed, Sign.apply, eq_comm] using magnitude

theorem isProper_rounded (s : Sign) {x : ℚ} (hx : 0 < x) (h : nearest x < overflow) :
    IsProper (rounded s x) := by
  rcases rounded_eq s hx with zero | ⟨m, q, hm, finite, c, eq⟩
  · rw [zero]
    trivial
  · rw [finite]
    rw [eq] at h
    exact ⟨c, (lt_overflow_iff c).mp h⟩

theorem isFinite_iff {x : Float} : x.isFinite = true ↔ IsProper x.toModel.unpack := by
  refine ⟨isProper_unpack, fun h => ?_⟩
  unfold Float.isFinite Float.Model.isFinite
  cases hx : x.toModel.unpack with
  | infinity s => simp [hx, IsProper] at h
  | notANumber => simp [hx, IsProper] at h
  | zero s => rfl
  | finite s m q positive => rfl

theorem isFinite_of_isProper {u : UnpackedFloat} (h : IsProper u) :
    (Float.ofModel (.pack u)).isFinite = true := by
  rw [isFinite_iff, unpack_ofModel_pack h]
  exact h

theorem isFinite_near (s : Sign) {x : ℚ} (hx : 0 < x) (h : nearest x < overflow) :
    (near s x).isFinite = true := isFinite_of_isProper (isProper_rounded s hx h)

theorem toRat_near (s : Sign) {x : ℚ} (hx : 0 < x) (h : nearest x < overflow) :
    toRat (near s x) = signed s (nearest x) := by
  unfold toRat near
  rw [unpack_ofModel_pack (isProper_rounded s hx h), value_rounded]

/-- A number that does not fit becomes infinite. -/
theorem unpack_near_of_overflow_le (s : Sign) {x : ℚ} (hx : 0 < x) (h : overflow ≤ nearest x) :
    (near s x).toModel.unpack = .infinity s := by
  rcases rounded_eq s hx with zero | ⟨m, q, hm, finite, c, eq⟩
  · have := value_rounded s x
    rw [zero] at this
    have pos : (0 : ℚ) < overflow := two_zpow_pos _
    cases s <;> simp [value, signed] at this <;> linarith
  · have large : maxExponent < q := by
      rw [eq, ← not_lt, lt_overflow_iff c, not_le] at h
      exact h
    unfold near
    rw [finite]
    change UnpackedFloat.unpack .binary64 (UnpackedFloat.pack .binary64 (.finite s m q hm)) = _
    rw [pack_of_maxExponent_lt large, unpack_packedInfinity]

/-- What has the form of binary64 numbers is not changed by rounding. -/
theorem rounded_eq_self (s : Sign) {m : ℕ} {q : ℤ} (hm : 0 < m) (c : IsCanonical m q) :
    rounded s (m * 2 ^ q) = .finite s m q hm := by
  have pos := two_zpow_pos q
  have exponent : quantum ((m : ℚ) * 2 ^ q) = q := quantum_eq hm c
  have whole : significand ((m : ℚ) * 2 ^ q) = m := by
    rw [significand, scaled, exponent, mul_div_assoc, div_self pos.ne', mul_one, roundEven_natCast]
  unfold rounded
  simp only [whole, exponent, hm.ne', c.lt, dite_false, if_true]

/-- A positive number is the number nearest to its value. -/
theorem near_abs_eq {x : Float} {s : Sign} {m : ℕ} {q : ℤ} {hm : 0 < m}
    (hx : x.toModel.unpack = .finite s m q hm) : near s (m * 2 ^ q) = x := by
  have c := (canonical_of_unpack hx).1
  unfold near
  rw [rounded_eq_self s hm c, ← hx, ofModel_pack_unpack]

/-- A product of numbers that are not zero is rounded once. -/
theorem mul_eq_near {x y : Float} {s t : Sign} {m n : ℕ} {p q : ℤ} {hm : 0 < m} {hn : 0 < n}
    (hx : x.toModel.unpack = .finite s m p hm) (hy : y.toModel.unpack = .finite t n q hn) :
    x * y = near (s * t) ((m * 2 ^ p) * (n * 2 ^ q)) := by
  obtain ⟨cm, -⟩ := canonical_of_unpack hx
  obtain ⟨cn, -⟩ := canonical_of_unpack hy
  have exact_product : ((m : ℚ) * 2 ^ p) * (n * 2 ^ q) = (m * n : ℕ) * 2 ^ (p + q) := by
    rw [two_zpow_add]
    push_cast
    ring
  have denotes := denotes_exact (m * n) (p + q)
  have coarse : p + q ≤ quantum (((m * n : ℕ) : ℚ) * 2 ^ (p + q)) := by
    rw [quantum, denotes.log_eq (Nat.mul_pos hm hn)]
    rcases cm.normal with top | rfl
    · have : 52 ≤ (m * n).log2 :=
        (Nat.le_log2 (Nat.mul_pos hm hn).ne').mpr (top.trans (Nat.le_mul_of_pos_right m hn))
      omega
    rcases cn.normal with top | rfl
    · have : 52 ≤ (m * n).log2 :=
        (Nat.le_log2 (Nat.mul_pos hm hn).ne').mpr (top.trans (Nat.le_mul_of_pos_left n hm))
      omega
    · omega
  change Float.ofModel (.pack (UnpackedFloat.mul .binary64 x.toModel.unpack y.toModel.unpack)) = _
  rw [hx, hy, exact_product]
  unfold near
  rw [← roundWithAccuracy_eq (Nat.mul_pos hm hn) denotes coarse]
  rfl

/-- Rounding first brings in as many bits as there are in a significand. -/
theorem round_eq (s : Sign) {m : ℕ} (e : ℤ) (hm : 0 < m) :
    UnpackedFloat.round .binary64 s m e = rounded s (m * 2 ^ e) := by
  have target : Format.binary64.targetExponent (totalExponent m e) = quantum (m * 2 ^ e) := by
    rw [targetExponent_eq, totalExponent, quantum, (denotes_exact m e).log_eq hm]
    congr 1
    ring
  set n := (e - quantum (m * 2 ^ e)).toNat with hn
  have split : (m : ℚ) * 2 ^ e = (m <<< n : ℕ) * 2 ^ (e - n) := by
    rw [Nat.shiftLeft_eq, sub_eq_add_neg, two_zpow_add, zpow_neg, zpow_natCast]
    push_cast
    field_simp
  have positive : 0 < m <<< n := by
    rw [Nat.shiftLeft_eq]
    positivity
  have finer : e - n ≤ quantum (m * 2 ^ e) := by omega
  rw [split] at finer ⊢
  rw [← roundWithAccuracy_eq positive (denotes_exact _ _) finer]
  simp only [UnpackedFloat.round, decreaseExponent, target]
  rw [← hn]

theorem toFloat_eq_near {n : UInt64} (hn : 0 < n.toNat) :
    n.toFloat = near .positive n.toNat := by
  have h := round_eq .positive 0 hn
  rw [zpow_zero, mul_one] at h
  unfold near
  rw [← h]
  have gt : compare (n.toNat : ℤ) 0 = .gt := compare_gt_iff_gt.mpr (by omega)
  change Float.ofModel (.pack (UnpackedFloat.normalize .binary64 n.toNat 0 .positive)) = _
  unfold UnpackedFloat.normalize
  rw [gt]
  rfl

theorem nearest_zero : nearest 0 = 0 := by
  have := roundEven_natCast 0
  simp_all [nearest, significand, scaled]

theorem nearest_lt_overflow {k : ℕ} {p : ℤ} (hk : 0 < k) (lt : k < 2 ^ 53) (least : -1074 ≤ p)
    (most : p ≤ maxExponent) : nearest ((k : ℚ) * 2 ^ p) < overflow := by
  have pos := two_zpow_pos p
  have small : (k : ℚ) < 2 ^ (53 : ℤ) := by exact_mod_cast lt
  unfold maxExponent at most
  rw [nearest_eq_self hk lt least]
  calc (k : ℚ) * 2 ^ p < 2 ^ (53 : ℤ) * 2 ^ p := by gcongr
    _ = 2 ^ (53 + p) := (two_zpow_add _ _).symm
    _ ≤ 2 ^ (1024 : ℤ) := zpow_le_zpow_right₀ (by norm_num) (by omega)

/-- A positive number, taken apart. -/
theorem unpack_of_pos {x : Float} (h : 0 < toRat x) :
    ∃ m q, ∃ hm : 0 < m, x.toModel.unpack = .finite .positive m q hm ∧ toRat x = m * 2 ^ q := by
  unfold toRat at h ⊢
  cases hx : x.toModel.unpack with
  | infinity s => simp [hx, value] at h
  | notANumber => simp [hx, value] at h
  | zero s => simp [hx, value] at h
  | finite s m q hm =>
    rw [hx] at h
    cases s with
    | positive => exact ⟨m, q, hm, rfl, value_positive m q hm⟩
    | negative => exact absurd (h.trans value_negative_neg) (lt_irrefl _)

theorem nearest_toRat {x : Float} (h : 0 < toRat x) : nearest (toRat x) = toRat x := by
  obtain ⟨m, q, hm, hx, eq⟩ := unpack_of_pos h
  have c := (canonical_of_unpack hx).1
  rw [eq, nearest_eq_self hm c.lt c.least]

theorem toRat_lt_overflow {x : Float} (h : 0 < toRat x) : toRat x < overflow := by
  obtain ⟨m, q, hm, hx, eq⟩ := unpack_of_pos h
  obtain ⟨c, hq⟩ := canonical_of_unpack hx
  rw [eq]
  exact (lt_overflow_iff c).mpr hq

theorem mul_eq_near_of_pos {x y : Float} (hx : 0 < toRat x) (hy : 0 < toRat y) :
    x * y = near .positive (toRat x * toRat y) := by
  obtain ⟨m, p, hm, ux, ex⟩ := unpack_of_pos hx
  obtain ⟨n, q, hn, uy, ey⟩ := unpack_of_pos hy
  rw [mul_eq_near ux uy, ex, ey]
  rfl

@[simp] theorem unpack_zero : (0.0 : Float).toModel.unpack = .zero .positive := by rfl

@[simp] theorem toRat_zero : toRat 0.0 = 0 := rfl

/-- Taking nothing away changes no number. -/
@[simp] theorem sub_zero (x : Float) : x - 0.0 = x := by
  change Float.ofModel (.pack (UnpackedFloat.sub .binary64 x.toModel.unpack
    (0.0 : Float).toModel.unpack)) = _
  rw [unpack_zero]
  nth_rewrite 2 [← ofModel_pack_unpack x]
  cases x.toModel.unpack with
  | zero s => cases s <;> rfl
  | infinity s => rfl
  | notANumber => rfl
  | finite s m q h => rfl

theorem decreaseExponent_eq (m : ℕ) {e t : ℤ} (h : t ≤ e) :
    ((decreaseExponent m e t).1 : ℚ) * 2 ^ t = m * 2 ^ e := by
  have split : e = (e - t).toNat + t := by omega
  unfold decreaseExponent
  simp only [Nat.shiftLeft_eq]
  nth_rewrite 2 [split]
  rw [two_zpow_add, zpow_natCast]
  push_cast
  ring

/-- A sum of positive numbers is rounded once. -/
theorem add_eq_near_of_pos {x y : Float} (hx : 0 < toRat x) (hy : 0 < toRat y) :
    x + y = near .positive (toRat x + toRat y) := by
  obtain ⟨m, p, hm, ux, ex⟩ := unpack_of_pos hx
  obtain ⟨n, q, hn, uy, ey⟩ := unpack_of_pos hy
  have left := decreaseExponent_eq m (min_le_left p q)
  have right := decreaseExponent_eq n (min_le_right p q)
  set a := (decreaseExponent m p (min p q)).1 with ha
  set b := (decreaseExponent n q (min p q)).1 with hb
  have pos := two_zpow_pos (min p q)
  have a_pos : 0 < a := by
    rw [ha, decreaseExponent, Nat.shiftLeft_eq]
    positivity
  have total : toRat x + toRat y = ((a + b : ℕ) : ℚ) * 2 ^ min p q := by
    rw [ex, ey, ← left, ← right]
    push_cast
    ring
  change Float.ofModel (.pack (UnpackedFloat.add .binary64 x.toModel.unpack y.toModel.unpack)) = _
  unfold near
  rw [ux, uy, total, ← round_eq .positive (min p q) (by omega)]
  have gt : compare ((a + b : ℕ) : ℤ) 0 = .gt := compare_gt_iff_gt.mpr (by omega)
  have sum : UnpackedFloat.add .binary64 (.finite .positive m p hm) (.finite .positive n q hn)
      = UnpackedFloat.normalize .binary64 (a + b : ℕ) (min p q) .positive := by
    rw [Nat.cast_add]
    rfl
  rw [sum, UnpackedFloat.normalize, gt]
  rfl

/-- Whether an unpacked number is infinite, or not a number. -/
def IsBeyond (u : UnpackedFloat) : Prop := u = .notANumber ∨ ∃ s, u = .infinity s

theorem isBeyond_of_not_isFinite {x : Float} (h : ¬x.isFinite = true) :
    IsBeyond x.toModel.unpack := by
  rw [isFinite_iff] at h
  cases hx : x.toModel.unpack with
  | infinity s => exact .inr ⟨s, rfl⟩
  | notANumber => exact .inl rfl
  | zero s => exact absurd (by rw [hx]; trivial) h
  | finite s m q hm => exact absurd (by rw [hx]; exact canonical_of_unpack hx) h

theorem not_isFinite_of_isBeyond {u : UnpackedFloat} (h : IsBeyond u) :
    ¬(Float.ofModel (.pack u)).isFinite = true := by
  rcases h with rfl | ⟨s, rfl⟩
  · decide
  · cases s <;> decide

theorem isBeyond_add {a b : UnpackedFloat} (h : IsBeyond a) :
    IsBeyond (UnpackedFloat.add .binary64 a b) := by
  rcases h with rfl | ⟨s, rfl⟩
  · exact .inl rfl
  · cases b with
    | notANumber => exact .inl rfl
    | infinity t =>
      by_cases same : s == t
      · exact .inr ⟨s, if_pos same⟩
      · exact .inl (if_neg same)
    | zero t => exact .inr ⟨s, rfl⟩
    | finite t n p hn => exact .inr ⟨s, rfl⟩

/-- A finite sum has a finite first term. -/
theorem isFinite_of_add {x y : Float} (h : (x + y).isFinite = true) : x.isFinite = true := by
  by_contra infinite
  exact not_isFinite_of_isBeyond (isBeyond_add (isBeyond_of_not_isFinite infinite)) h

theorem unpack_of_toRat_eq_zero {x : Float} (finite : x.isFinite = true) (h : toRat x = 0) :
    ∃ s, x.toModel.unpack = .zero s := by
  have proper := isFinite_iff.mp finite
  unfold toRat at h
  cases hx : x.toModel.unpack with
  | zero s => exact ⟨s, rfl⟩
  | infinity s => exact (hx ▸ proper : IsProper (.infinity s)).elim
  | notANumber => exact (hx ▸ proper : IsProper .notANumber).elim
  | finite s m q hm =>
    rw [hx] at h
    cases s with
    | positive => exact absurd h value_positive_pos.ne'
    | negative => exact absurd h value_negative_neg.ne

theorem add_eq_self {x y : Float} (hx : 0 < toRat x) (finite : y.isFinite = true)
    (zero : toRat y = 0) : x + y = x := by
  obtain ⟨m, q, hm, ux, -⟩ := unpack_of_pos hx
  obtain ⟨s, uy⟩ := unpack_of_toRat_eq_zero finite zero
  change Float.ofModel (.pack (UnpackedFloat.add .binary64 x.toModel.unpack
    y.toModel.unpack)) = _
  nth_rewrite 2 [← ofModel_pack_unpack x]
  rw [ux, uy]
  rfl

theorem isFinite_of_pos {x : Float} (h : 0 < toRat x) : x.isFinite = true := by
  obtain ⟨m, q, hm, hx, -⟩ := unpack_of_pos h
  exact isFinite_iff.mpr (hx ▸ canonical_of_unpack hx)

/-- A finite sum is not less than a positive term, unless the other term is negative. -/
theorem toRat_le_add {x y : Float} (hx : 0 < toRat x) (finite : y.isFinite = true)
    (hy : 0 ≤ toRat y) (sum : (x + y).isFinite = true) : toRat x ≤ toRat (x + y) := by
  rcases hy.eq_or_lt with zero | pos
  · rw [add_eq_self hx finite zero.symm]
  · have exact_pos : 0 < toRat x + toRat y := by linarith
    rw [add_eq_near_of_pos hx pos] at sum ⊢
    rcases lt_or_ge (nearest (toRat x + toRat y)) overflow with fits | large
    · rw [toRat_near _ exact_pos fits]
      calc toRat x = nearest (toRat x) := (nearest_toRat hx).symm
        _ ≤ nearest (toRat x + toRat y) := nearest_mono hx (by linarith)
    · have infinite := unpack_near_of_overflow_le .positive exact_pos large
      rw [isFinite_iff, infinite] at sum
      exact sum.elim

/-- The unit of the last bit of the greatest numbers. -/
def greatestQuantum : ℚ := 2 ^ (971 : ℤ)

theorem overflow_eq : overflow = 2 ^ 53 * greatestQuantum := by
  rw [overflow, greatestQuantum, show (1024 : ℤ) = 53 + 971 by norm_num, two_zpow_add]
  congr 1

theorem four_le_greatestQuantum : 4 ≤ greatestQuantum := by
  have : (2 : ℚ) ^ (2 : ℤ) ≤ 2 ^ (971 : ℤ) := zpow_le_zpow_right₀ (by norm_num) (by norm_num)
  calc (4 : ℚ) = 2 ^ (2 : ℤ) := by norm_num
    _ ≤ greatestQuantum := this

theorem toRat_le_greatest {x : Float} (h : 0 < toRat x) :
    toRat x ≤ (2 ^ 53 - 1) * greatestQuantum := by
  obtain ⟨m, q, hm, hx, eq⟩ := unpack_of_pos h
  obtain ⟨c, hq⟩ := canonical_of_unpack hx
  have top : m + 1 ≤ 2 ^ 53 := c.lt
  have top : (m : ℚ) + 1 ≤ 2 ^ 53 := by exact_mod_cast top
  have scale : (2 : ℚ) ^ q ≤ greatestQuantum := zpow_le_zpow_right₀ (by norm_num) hq
  have pos := two_zpow_pos q
  rw [eq]
  calc (m : ℚ) * 2 ^ q ≤ m * greatestQuantum := by gcongr
    _ ≤ (2 ^ 53 - 1) * greatestQuantum := by
        have := four_le_greatestQuantum
        exact mul_le_mul_of_nonneg_right (by linarith) (by linarith)

/-- Less than half a unit of their last bit does not take the greatest numbers beyond all. -/
theorem isFinite_add_of_le_one {x y : Float} (hx : 0 < toRat x) (small : toRat x ≤ 1)
    (finite : y.isFinite = true) (hy : 0 ≤ toRat y) : (x + y).isFinite = true := by
  rcases hy.eq_or_lt with zero | pos
  · rw [add_eq_self hx finite zero.symm]
    exact isFinite_of_pos hx
  · have exact_pos : 0 < toRat x + toRat y := by linarith
    have greatest := toRat_le_greatest pos
    have large := four_le_greatestQuantum
    have below : toRat x + toRat y < 2 ^ (1024 : ℤ) := by
      change _ < overflow
      rw [overflow_eq]
      linarith
    have coarse : quantum (toRat x + toRat y) ≤ 971 := by
      have : Int.log 2 (toRat x + toRat y) < 1024 := by
        rw [← Int.lt_zpow_iff_log_lt (by norm_num) exact_pos]
        exact_mod_cast below
      unfold quantum
      omega
    have moved := (abs_le.mp (abs_nearest_sub_le exact_pos.le)).2
    have step : (2 : ℚ) ^ quantum (toRat x + toRat y) ≤ greatestQuantum :=
      zpow_le_zpow_right₀ (by norm_num) coarse
    rw [add_eq_near_of_pos hx pos]
    refine isFinite_near _ exact_pos ?_
    rw [overflow_eq]
    linarith

end SymbolicRegression.Binary64
