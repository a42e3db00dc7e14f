import SymbolicRegression.Proofs.Binary64.Arithmetic

/-!
# Magnitudes and their sums

The magnitude of a number is never negative, and neither is a finite sum of numbers that are not.
A sum is finite only if both of its terms are.
-/
namespace SymbolicRegression.Binary64

open Float.Model Float.Model.UnpackedFloat

theorem unpackedAdd_comm (a b : UnpackedFloat) :
    UnpackedFloat.add .binary64 a b = UnpackedFloat.add .binary64 b a := by
  cases a with
  | notANumber => cases b <;> rfl
  | infinity s => cases s <;> cases b with
    | infinity t => cases t <;> rfl
    | _ => rfl
  | zero s => cases s <;> cases b with
    | zero t => cases t <;> rfl
    | _ => rfl
  | finite s m p hm =>
    cases b with
    | finite t n q hn => simp only [UnpackedFloat.add, min_comm p q, add_comm (s.apply _)]
    | _ => rfl

/-- The order of the terms makes no difference to a sum. -/
theorem floatAdd_comm (x y : Float) : x + y = y + x := by
  change Float.ofModel (.pack (UnpackedFloat.add .binary64 x.toModel.unpack y.toModel.unpack)) = _
  rw [unpackedAdd_comm]
  rfl

/-- A finite sum has a finite second term. -/
theorem isFinite_right_of_add {x y : Float} (h : (x + y).isFinite = true) :
    y.isFinite = true := by
  rw [floatAdd_comm] at h
  exact isFinite_of_add h

theorem toRat_add_of_zero {x y : Float} (hx : x.isFinite = true) (hy : y.isFinite = true)
    (x_zero : toRat x = 0) (y_zero : toRat y = 0) : toRat (x + y) = 0 := by
  obtain ⟨s, ux⟩ := unpack_of_toRat_eq_zero hx x_zero
  obtain ⟨t, uy⟩ := unpack_of_toRat_eq_zero hy y_zero
  change value (Float.ofModel (.pack (UnpackedFloat.add .binary64 x.toModel.unpack
    y.toModel.unpack))).toModel.unpack = 0
  rw [ux, uy]
  cases s <;> cases t <;> rfl

/-- A finite sum of numbers that are not negative is not negative. -/
theorem toRat_add_nonneg {x y : Float} (hx : 0 ≤ toRat x) (hy : 0 ≤ toRat y)
    (sum : (x + y).isFinite = true) : 0 ≤ toRat (x + y) := by
  have x_finite := isFinite_of_add sum
  have y_finite := isFinite_right_of_add sum
  rcases hx.eq_or_lt with x_zero | x_pos
  · rcases hy.eq_or_lt with y_zero | y_pos
    · exact (toRat_add_of_zero x_finite y_finite x_zero.symm y_zero.symm).ge
    · rw [floatAdd_comm, add_eq_self y_pos x_finite x_zero.symm]
      exact hy
  · exact hx.trans (toRat_le_add x_pos y_finite hy sum)

theorem toRat_abs_nonneg (x : Float) : 0 ≤ toRat x.abs := by
  rw [toRat_abs]
  exact abs_nonneg _

theorem toRat_ofModel_pack {u : UnpackedFloat} (h : IsProper u) :
    toRat (.ofModel (.pack u)) = value u := by
  rw [toRat, unpack_ofModel_pack h]

theorem abs_toRat_of_unpack {x : Float} {s : Sign} {m : ℕ} {q : ℤ} {hm : 0 < m}
    (hx : x.toModel.unpack = .finite s m q hm) : |toRat x| = m * 2 ^ q := by
  rw [toRat, hx, abs_value_finite]

/-- The magnitude of a finite number is finite, and stands for the magnitude of what the number
stands for. -/
theorem abs_spec {x : Float} (finite : x.isFinite = true) :
    x.abs.isFinite = true ∧ toRat x.abs = |toRat x| := by
  have proper := isProper_unpack finite
  refine ⟨?_, toRat_abs x⟩
  rw [isFinite_iff, unpack_abs]
  cases hx : x.toModel.unpack <;> rw [hx] at proper <;> exact proper

end SymbolicRegression.Binary64
