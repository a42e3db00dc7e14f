import SymbolicRegression.Decimal.Shortest
import SymbolicRegression.Proofs.Decimal.Nearest

/-!
# Shortest decimals read back

A cut of the exact value is only taken if it denotes the number that is written, and the exact value
always does. Moving factors of ten to the exponent changes no value. So what is written denotes the
number that it was written for, with no more digits than an exact expansion can have.
-/
namespace SymbolicRegression.Decimal

open Binary64 Float.Model Float.Model.UnpackedFloat

theorem value_ofBinary (m : ℕ) (q : ℤ) : (ofBinary m q).value = m * 2 ^ q := by
  unfold ofBinary value
  split_ifs with negative
  · have exponent : q = -(q.natAbs : ℤ) := by omega
    have five : (5 : ℚ) ^ q.natAbs * 10 ^ q = 2 ^ q := by
      rw [exponent, Int.natAbs_neg, Int.natAbs_natCast, zpow_neg, zpow_neg, zpow_natCast,
        zpow_natCast, show (10 : ℚ) = 2 * 5 by norm_num, mul_pow]
      field_simp
    simp only [Nat.pow_eq]
    push_cast
    rw [mul_assoc, five]
  · have exponent : (q.natAbs : ℤ) = q := by omega
    simp only [Nat.pow_eq]
    push_cast
    rw [mul_one, ← zpow_natCast, exponent]

@[simp] theorem value_trimmed (fuel : ℕ) (d : Decimal) : (d.trimmed fuel).value = d.value := by
  induction fuel generalizing d with
  | zero => rfl
  | succ fuel ih =>
    unfold trimmed
    split_ifs with whole
    · have tens : (d.coefficient : ℚ) = 10 * (d.coefficient / 10 : ℕ) := by
        exact_mod_cast (Nat.mul_div_cancel' (Nat.dvd_of_mod_eq_zero whole.2)).symm
      rw [ih, value, value, tens, zpow_add₀ (by norm_num), zpow_one]
      simp only
      ring
    · rfl

theorem coefficient_trimmed_le (fuel : ℕ) (d : Decimal) :
    (d.trimmed fuel).coefficient ≤ d.coefficient := by
  induction fuel generalizing d with
  | zero => exact le_rfl
  | succ fuel ih =>
    unfold trimmed
    split_ifs with whole
    · exact (ih _).trans (Nat.div_le_self _ _)
    · exact le_rfl

/-- A neighbour of a cut that is taken denotes the number that is written. -/
theorem toFloat_of_neighbour? {tie : Tie} {x : Float} {d found : Decimal} {dropped : ℕ}
    (h : neighbour? tie x d dropped = some found) :
    found.toFloat = x ∧ found.coefficient ≤ d.coefficient / 10 ^ dropped + 1 := by
  unfold neighbour? at h
  simp only at h
  split_ifs at h with below above above
  · cases h
    exact ⟨eq_of_toBits_eq above.1, le_rfl⟩
  · cases h
    exact ⟨eq_of_toBits_eq below, Nat.le_succ _⟩
  · cases h
    exact ⟨eq_of_toBits_eq above, le_rfl⟩

/-- The search finds a decimal of the number that is written, with no more digits than the exact
value. -/
theorem search_spec (tie : Tie) {x : Float} {d : Decimal} (h : d.toFloat = x) (dropped : ℕ) :
    (search tie x d dropped).toFloat = x ∧
      (search tie x d dropped).coefficient ≤ d.coefficient + 1 := by
  induction dropped with
  | zero => exact ⟨h, Nat.le_succ _⟩
  | succ dropped ih =>
    unfold search
    split
    next found taken =>
      obtain ⟨denotes, bound⟩ := toFloat_of_neighbour? taken
      exact ⟨denotes, bound.trans (Nat.add_le_add_right (Nat.div_le_self _ _) 1)⟩
    next => exact ih

theorem shortest_spec (tie : Tie) {x : Float} {exact_ : Decimal} (h : exact_.toFloat = x) :
    (shortest tie x exact_).toFloat = x ∧
      (shortest tie x exact_).coefficient ≤ exact_.coefficient + 1 := by
  obtain ⟨denotes, bound⟩ := search_spec tie h (exact_.digits.length - 1)
  unfold shortest
  exact ⟨(toFloat_congr (value_trimmed _ _)).trans denotes,
    (coefficient_trimmed_le _ _).trans bound⟩

/-- The number of digits that the exact value of a finite number may have. -/
def expansionDigits : ℕ := 767

theorem coefficient_ofBinary_lt {m : ℕ} {q : ℤ} (c : IsCanonical m q) (hq : q ≤ maxExponent) :
    (ofBinary m q).coefficient < 10 ^ expansionDigits := by
  have lt := c.lt
  have least := c.least
  unfold maxExponent at hq
  unfold ofBinary
  split_ifs
  · calc m * 5 ^ q.natAbs ≤ 2 ^ 53 * 5 ^ 1074 :=
          Nat.mul_le_mul lt.le (Nat.pow_le_pow_right (by norm_num) (by omega))
      _ < 10 ^ expansionDigits := by decide +kernel
  · calc m * 2 ^ q.natAbs ≤ 2 ^ 53 * 2 ^ 971 :=
          Nat.mul_le_mul lt.le (Nat.pow_le_pow_right (by norm_num) (by omega))
      _ < 10 ^ expansionDigits := by decide +kernel

theorem toFloat_ofBinary {x : Float} {m : ℕ} {q : ℤ} {hm : 0 < m}
    (hx : x.toModel.unpack = .finite .positive m q hm) : (ofBinary m q).toFloat = x := by
  have positive : 0 < (ofBinary m q).coefficient := by
    unfold ofBinary
    split_ifs
    · exact Nat.mul_pos hm (Nat.pow_pos (by norm_num))
    · exact Nat.mul_pos hm (Nat.pow_pos (by norm_num))
  rw [toFloat_eq_near positive, value_ofBinary, near_abs_eq hx]

end SymbolicRegression.Decimal
