import SymbolicRegression.Proofs.Random.Outcome
import SymbolicRegression.Proofs.Random.Unit

/-!
# A source of equal words

The extreme outcomes of a draw come from the source that hands out the least or the greatest word
forever. No draw changes such a source.
-/
namespace SymbolicRegression.Draw

/-- A source that hands out the same word forever. -/
structure Constant where
  word : UInt32

instance : WordSource Constant where
  next s := (s.word, s)

/-- The wide word of two equal halves. -/
def Constant.wide (s : Constant) : UInt64 := s.word.toUInt64 ||| s.word.toUInt64 <<< 32

def zeros : Constant := ⟨0⟩

def ones : Constant := ⟨0xFFFFFFFF⟩

theorem wide_constant (s : Constant) : Draw.wide s = .ok (s.wide, s) := rfl

theorem units_wide_zeros : units zeros.wide = 0 := by decide

theorem units_wide_ones : units ones.wide = 2 ^ 52 - 1 := by decide

theorem between_constant {last : RangeEnd} {low high : Float}
    (proper : last.isEmpty low high = false) (h : (high - low).isFinite = true) (s : Constant) :
    between last low high s = .ok (unit s.wide * (high - low) + low, s) := by
  rw [between, if_neg (Bool.eq_false_iff.mp proper), if_pos h]
  exact bind_of_ok (wide_constant s)

theorem between_of_unbounded {σ : Type} [WordSource σ] {last : RangeEnd} {low high : Float}
    (proper : last.isEmpty low high = false) (h : ¬(high - low).isFinite = true) (s : σ) :
    between last low high s = .error .unboundedRange := by
  rw [between, if_neg (Bool.eq_false_iff.mp proper), if_neg h]
  rfl

/-- Whatever can hit does so on zeros. -/
theorem chance_zeros {p : Float} (hit : CanHit p) (valid : (p == 1.0) = true ∨ 0.0 ≤ p ∧ p < 1.0) :
    chance p zeros = .ok (true, zeros) := by
  unfold chance
  by_cases sure : (p == 1.0) = true
  · rw [if_pos sure]
    rfl
  · have some_hit : 0 < hits p := hit.resolve_left sure
    rw [if_neg sure, if_pos (valid.resolve_left sure), bind_of_ok (wide_constant zeros)]
    have below : zeros.wide < hits p := some_hit
    rw [decide_eq_true below]
    rfl

end SymbolicRegression.Draw
