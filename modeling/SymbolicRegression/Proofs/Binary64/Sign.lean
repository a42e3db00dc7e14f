import SymbolicRegression.Proofs.Binary64.Magnitude

/-!
# Numbers with a plus sign

A magnitude is zero, finite or infinite, but always a number and never with a minus sign. The
difference of finite numbers may be too large to be finite, but it is a number, so its absolute
value is a magnitude; and sums of magnitudes are magnitudes, since infinity is never taken from
infinity.
-/
namespace SymbolicRegression.Binary64

open Float.Model Float.Model.UnpackedFloat

/-- Whether an unpacked number is one, with the given sign. -/
def HasSign (s : Sign) : UnpackedFloat → Prop
  | .notANumber => False
  | .infinity t => t = s
  | .zero t => t = s
  | .finite t _ _ _ => t = s

/-- Whether a number is one, without a minus sign. -/
def IsMagnitude (x : Float) : Prop := HasSign .positive x.toModel.unpack

theorem IsMagnitude.isNaN_eq_false {x : Float} (h : IsMagnitude x) : x.isNaN = false := by
  unfold IsMagnitude at h
  show x.toModel.unpack.isNaN = false
  cases hx : x.toModel.unpack with
  | notANumber =>
    rw [hx] at h
    exact h.elim
  | _ => rfl

theorem IsMagnitude.ne_negative_zero {x : Float} (h : IsMagnitude x) : x ≠ -0.0 := by
  rintro rfl
  have negative : (-0.0 : Float).toModel.unpack = .zero .negative := rfl
  rw [IsMagnitude, negative] at h
  cases h

theorem isMagnitude_zero : IsMagnitude 0.0 := rfl

/-- What is rounded keeps its sign, be it rounded to zero, to a finite number or beyond all. -/
theorem hasSign_near (s : Sign) {x : ℚ} (hx : 0 < x) : HasSign s (near s x).toModel.unpack := by
  rcases lt_or_ge (nearest x) overflow with fits | large
  · have proper := isProper_rounded s hx fits
    unfold near
    rw [unpack_ofModel_pack proper]
    rcases rounded_eq s hx with zero | ⟨m, q, hm, finite, -, -⟩
    · rw [zero]
      rfl
    · rw [finite]
      rfl
  · rw [unpack_near_of_overflow_le s hx large]
    rfl

def packed (u : UnpackedFloat) : Float := .ofModel (.pack u)

/-- Packing keeps the sign of what has the form of binary64 numbers, and of infinity. -/
theorem hasSign_packed {u : UnpackedFloat} {s : Sign} (kept : IsProper u ∨ ∃ t, u = .infinity t)
    (h : HasSign s u) : HasSign s (packed u).toModel.unpack := by
  have same : (packed u).toModel.unpack = u := by
    rcases kept with proper | ⟨t, rfl⟩
    · exact unpack_ofModel_pack proper
    · exact unpack_packedInfinity t
  rwa [same]

theorem exists_hasSign_normalize (m e : ℤ) :
    ∃ s, HasSign s (packed (UnpackedFloat.normalize .binary64 m e .positive)).toModel.unpack := by
  unfold UnpackedFloat.normalize
  have scale := two_zpow_pos e
  rcases lt_trichotomy m 0 with negative | rfl | positive
  · have size : 0 < (-m).toNat := by omega
    rw [compare_lt_iff_lt.mpr negative]
    simp only [round_eq .negative e size]
    exact ⟨_, hasSign_near .negative (by positivity)⟩
  · rw [compare_eq_iff_eq.mpr rfl]
    exact ⟨.positive, hasSign_packed (.inl trivial) rfl⟩
  · have size : 0 < m.toNat := by omega
    rw [compare_gt_iff_gt.mpr positive]
    simp only [round_eq .positive e size]
    exact ⟨_, hasSign_near .positive (by positivity)⟩

/-- The difference of finite numbers is a number, though perhaps not finite. -/
theorem exists_hasSign_sub {x y : Float} (hx : x.isFinite = true) (hy : y.isFinite = true) :
    ∃ s, HasSign s (x - y).toModel.unpack := by
  have first := isProper_unpack hx
  have second := isProper_unpack hy
  show ∃ s, HasSign s (packed (UnpackedFloat.sub .binary64 x.toModel.unpack
    y.toModel.unpack)).toModel.unpack
  cases left : x.toModel.unpack with
  | notANumber => exact (left ▸ first : IsProper .notANumber).elim
  | infinity s => exact (left ▸ first : IsProper (.infinity s)).elim
  | zero s =>
    cases right : y.toModel.unpack with
    | notANumber => exact (right ▸ second : IsProper .notANumber).elim
    | infinity t => exact (right ▸ second : IsProper (.infinity t)).elim
    | zero t =>
      by_cases same : s == -t
      · exact ⟨s, hasSign_packed (.inl (by simp [UnpackedFloat.sub, same, IsProper]))
          (by simp [UnpackedFloat.sub, same, HasSign])⟩
      · exact ⟨.positive, hasSign_packed (.inl (by simp [UnpackedFloat.sub, same, IsProper]))
          (by simp [UnpackedFloat.sub, same, HasSign])⟩
    | finite t n q hn =>
      rw [right] at second
      exact ⟨-t, hasSign_packed (.inl second) rfl⟩
  | finite s m p hm =>
    rw [left] at first
    cases right : y.toModel.unpack with
    | notANumber => exact (right ▸ second : IsProper .notANumber).elim
    | infinity t => exact (right ▸ second : IsProper (.infinity t)).elim
    | zero t => exact ⟨s, hasSign_packed (.inl first) rfl⟩
    | finite t n q hn => exact exists_hasSign_normalize _ _

/-- The absolute value of a number is a magnitude. -/
theorem isMagnitude_abs {x : Float} {s : Sign} (h : HasSign s x.toModel.unpack) :
    IsMagnitude x.abs := by
  rw [IsMagnitude, unpack_abs]
  cases hx : x.toModel.unpack with
  | notANumber =>
    rw [hx] at h
    exact h.elim
  | _ => rfl

theorem IsMagnitude.cases {x : Float} (h : IsMagnitude x) :
    x.toModel.unpack = .infinity .positive ∨ x.toModel.unpack = .zero .positive ∨ 0 < toRat x := by
  unfold IsMagnitude at h
  unfold toRat
  cases hx : x.toModel.unpack with
  | notANumber =>
    rw [hx] at h
    exact h.elim
  | infinity s =>
    rw [hx] at h
    obtain rfl : s = .positive := h
    exact .inl rfl
  | zero s =>
    rw [hx] at h
    obtain rfl : s = .positive := h
    exact .inr (.inl rfl)
  | finite s m q hm =>
    rw [hx] at h
    obtain rfl : s = .positive := h
    exact .inr (.inr value_positive_pos)

theorem isMagnitude_of_pos {x : Float} (h : 0 < toRat x) : IsMagnitude x := by
  obtain ⟨m, q, hm, ux, -⟩ := unpack_of_pos h
  rw [IsMagnitude, ux]
  rfl

theorem isMagnitude_infinity_add {x y : Float} (hx : x.toModel.unpack = .infinity .positive)
    (hy : IsMagnitude y) : IsMagnitude (x + y) := by
  show HasSign .positive (packed (UnpackedFloat.add .binary64 x.toModel.unpack
    y.toModel.unpack)).toModel.unpack
  unfold IsMagnitude at hy
  rw [hx]
  cases other : y.toModel.unpack with
  | notANumber =>
    rw [other] at hy
    exact hy.elim
  | infinity t =>
    rw [other] at hy
    obtain rfl : t = .positive := hy
    exact hasSign_packed (.inr ⟨.positive, rfl⟩) rfl
  | zero t => exact hasSign_packed (.inr ⟨.positive, rfl⟩) rfl
  | finite t n q hn => exact hasSign_packed (.inr ⟨.positive, rfl⟩) rfl

theorem isMagnitude_pos_add {x y : Float} (hx : 0 < toRat x) (hy : IsMagnitude y) :
    IsMagnitude (x + y) := by
  rcases hy.cases with infinite | zero | pos
  · rw [floatAdd_comm]
    exact isMagnitude_infinity_add infinite (isMagnitude_of_pos hx)
  · have finite : y.isFinite = true := isFinite_iff.mpr (by rw [zero]; trivial)
    rw [add_eq_self hx finite (by rw [toRat, zero]; rfl)]
    exact isMagnitude_of_pos hx
  · rw [add_eq_near_of_pos hx pos]
    exact hasSign_near .positive (by linarith)

/-- A sum of magnitudes is a magnitude. -/
theorem IsMagnitude.add {x y : Float} (hx : IsMagnitude x) (hy : IsMagnitude y) :
    IsMagnitude (x + y) := by
  rcases hx.cases with infinite | zero | pos
  · exact isMagnitude_infinity_add infinite hy
  · rcases hy.cases with infinite' | zero' | pos'
    · rw [floatAdd_comm]
      exact isMagnitude_infinity_add infinite' hx
    · show HasSign .positive (packed (UnpackedFloat.add .binary64 x.toModel.unpack
        y.toModel.unpack)).toModel.unpack
      rw [zero, zero']
      exact hasSign_packed (.inl trivial) rfl
    · rw [floatAdd_comm]
      exact isMagnitude_pos_add pos' hx
  · exact isMagnitude_pos_add pos hy

end SymbolicRegression.Binary64
