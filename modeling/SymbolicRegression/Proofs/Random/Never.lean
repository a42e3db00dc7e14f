import SymbolicRegression.Proofs.Binary64.Arithmetic
import SymbolicRegression.Proofs.Random.Possible

/-!
# Chances of zero

What has a chance of zero, be the zero positive or negative, never comes up. Two words are taken
for it all the same.
-/
namespace SymbolicRegression

open Float.Model

/-- Both zeros are equal to zero, and nothing else is. -/
theorem Binary64.eq_zero_of_beq {x : Float} (h : (x == 0.0) = true) : x = 0.0 ∨ x = -0.0 := by
  have equal : UnpackedFloat.compare x.toModel.unpack (.zero .positive) = some .eq := by
    simpa using (show (UnpackedFloat.compare x.toModel.unpack (.zero .positive) == some .eq) = true
      from h)
  cases hx : x.toModel.unpack with
  | zero s =>
    cases s with
    | positive => exact .inl (eq_of_unpack_eq hx)
    | negative => exact .inr (eq_of_unpack_eq hx)
  | notANumber =>
    rw [hx] at equal
    cases equal
  | infinity s =>
    rw [hx] at equal
    cases s <;> cases equal
  | finite s m q hm =>
    rw [hx] at equal
    cases s <;> cases equal

namespace Draw

open WordSource

variable {σ α : Type} [WordSource σ] {p : Float}

/-- A chance of zero takes two words and does not come up. -/
theorem chance_of_zero (h : (p == 0.0) = true) (s : σ) : chance p s = .ok (false, drop 2 s) := by
  have misses (v : UInt64) : decide (v < hits p) = false := by
    have none : hits p = 0 := by rcases Binary64.eq_zero_of_beq h with rfl | rfl <;> decide +kernel
    rw [none]
    exact decide_eq_false (UInt64.not_lt_zero)
  have unsure : ¬(p == 1.0) = true := by
    rcases Binary64.eq_zero_of_beq h with rfl | rfl <;> decide
  have inside : 0.0 ≤ p ∧ p < 1.0 := by
    rcases Binary64.eq_zero_of_beq h with rfl | rfl <;> decide
  obtain ⟨v, drawn⟩ : ∃ v, (wide : Draw σ UInt64) s = .ok (v, drop 2 s) := ⟨_, rfl⟩
  rw [chance, if_neg unsure, if_pos inside, bind_of_ok drawn, misses]
  rfl

/-- What is drawn unless a chance of zero comes up. -/
theorem unless_of_zero (h : (p == 0.0) = true) (yes no : Draw σ α) (s : σ) :
    (chance p >>= fun b => if b = true then yes else no) s = no (drop 2 s) := by
  rw [bind_of_ok (chance_of_zero h s)]
  rfl

/-- So only what is drawn otherwise counts. -/
theorem yields_unless_of_zero (h : (p == 0.0) = true) {yes no : Draw σ α} {post : α → Prop}
    {fault : DrawError → Prop} (hno : no.Yields post fault) :
    Yields (chance p >>= fun b => if b = true then yes else no) post fault := by
  intro s
  rw [unless_of_zero h]
  exact hno (drop 2 s)

end Draw
end SymbolicRegression
