import SymbolicRegression.Dataset.Sample
import SymbolicRegression.Proofs.Expr.Literals
import SymbolicRegression.Proofs.Mutation.Closure
import SymbolicRegression.Proofs.Random.Never

/-!
# The range of literals

What is added to a literal is drawn between a bound and its negative. The range has twice the width
of the bound, exactly; a part of it and then the distance from its lower end are rounded, and
neither of them leads out of the range. So the literals of fresh trees stay within the bound or are
one or minus one, and a literal moves by at most the bound.
-/
namespace SymbolicRegression

namespace Draw

open Binary64

variable {bound : Float}

/-- The range between a bound and its negative is twice as wide as the bound. -/
theorem toRat_width (pos : 0 < toRat bound) (finite : (bound - -bound).isFinite = true) :
    toRat (bound - -bound) = 2 * toRat bound := by
  have width : bound - -bound = bound + bound := by rw [floatSub_eq, floatNeg_neg]
  rw [width] at finite ⊢
  exact toRat_add_self pos finite

theorem toRat_part_le (pos : 0 < toRat bound) (v : UInt64) :
    (unit v * bound).isFinite = true ∧ 0 ≤ toRat (unit v * bound) ∧
      toRat (unit v * bound) ≤ toRat bound := by
  obtain ⟨finite, part⟩ := unit_mul_spec pos v
  rw [part]
  refine ⟨finite, nearest_nonneg _, ?_⟩
  rcases Nat.eq_zero_or_pos (units v) with zero | some_
  · rw [zero, Nat.cast_zero, zero_mul, zero_mul, nearest_zero]
    exact pos.le
  · have exact_pos : 0 < units v * 2 ^ (-52 : ℤ) * toRat bound := by positivity
    calc _ ≤ nearest (toRat bound) := nearest_mono exact_pos (unit_part_lt v pos).le
      _ = toRat bound := nearest_toRat pos

/-- A number drawn between a bound and its negative does not leave the range. -/
theorem between_symmetric (pos : 0 < toRat bound) (finite : (bound - -bound).isFinite = true)
    (v : UInt64) :
    -bound ≤ unit v * (bound - -bound) + -bound ∧ unit v * (bound - -bound) + -bound ≤ bound := by
  have bound_finite := isFinite_of_pos pos
  have lower_finite := isFinite_neg bound_finite
  have width := toRat_width pos finite
  have width_pos : 0 < toRat (bound - -bound) := by
    rw [width]
    positivity
  obtain ⟨part_finite, part_nonneg, part_le⟩ := toRat_part_le width_pos v
  obtain ⟨number, sum⟩ := extent_add part_finite lower_finite
  rw [le_iff_extent (isNumber_of_isFinite lower_finite) number,
    le_iff_extent number (isNumber_of_isFinite bound_finite), sum,
    extent_of_isFinite lower_finite, extent_of_isFinite bound_finite]
  constructor
  · calc toRat (-bound) = landing (toRat (-bound)) := (landing_toRat lower_finite).symm
      _ ≤ landing (toRat (unit v * (bound - -bound)) + toRat (-bound)) :=
        landing_mono (by linarith)
  · calc landing (toRat (unit v * (bound - -bound)) + toRat (-bound))
        ≤ landing (toRat bound) := landing_mono (by rw [toRat_neg]; linarith)
      _ = toRat bound := landing_toRat bound_finite

end Draw

/-- Whether a number is finite, and its magnitude at most one or at most a bound. -/
def IsWithin (bound x : Float) : Prop := x.isFinite = true ∧ x.abs ≤ max 1.0 bound

namespace IsWithin

open Binary64

variable {bound x : Float}

theorem one_le_max (bound : Float) : 1.0 ≤ max 1.0 bound := by
  change 1.0 ≤ if 1.0 ≤ bound then bound else 1.0
  split_ifs with large
  · exact large
  · decide

/-- A number moved away from zero is at most one. -/
theorem awayFromZero (h : IsWithin bound x) : IsWithin bound (awayFromZero x) := by
  unfold SymbolicRegression.awayFromZero
  split_ifs
  · exact ⟨by decide, one_le_max bound⟩
  · exact ⟨by decide, one_le_max bound⟩
  · exact h

theorem of_between (finite : bound.isFinite = true) (low : -bound ≤ x) (high : x ≤ bound) :
    IsWithin bound x := by
  have lower_finite := isFinite_neg finite
  have x_finite := isFinite_of_between lower_finite finite low high
  obtain ⟨abs_finite, magnitude⟩ := abs_spec x_finite
  rw [le_iff lower_finite x_finite, toRat_neg] at low
  rw [le_iff x_finite finite] at high
  have inside : |toRat x| ≤ toRat bound := abs_le.mpr ⟨low, high⟩
  refine ⟨x_finite, ?_⟩
  change x.abs ≤ if 1.0 ≤ bound then bound else 1.0
  split_ifs with large
  · rwa [le_iff abs_finite finite, magnitude]
  · rw [le_iff (by rfl) finite, not_le] at large
    rw [le_iff abs_finite (by rfl), magnitude]
    exact inside.trans large.le

end IsWithin

namespace Expr

/-- Literals that are moved away from zero keep what that does not change. -/
theorem forall_mem_literals_combine {P : Float → Prop} (kept : ∀ x, P x → P (awayFromZero x))
    {op : Operator} {left right : Expr} (hl : ∀ x ∈ left.literals, P x)
    (hr : ∀ x ∈ right.literals, P x) : ∀ x ∈ (combine op left right).literals, P x := by
  have moved {e : Expr} (h : ∀ x ∈ e.literals, P x) :
      ∀ x ∈ e.literalAwayFromZero.literals, P x := by
    cases e with
    | literal y => simpa [literalAwayFromZero, literals] using kept y (h y (by simp [literals]))
    | input name => exact h
    | binary op left right => exact h
  unfold combine
  split <;> simp only [literals, List.forall_mem_append]
  · exact ⟨moved hl, moved hr⟩
  · exact ⟨hl, hr⟩

end Expr

namespace Mutation.Context

open Draw

variable {σ : Type} [WordSource σ] {c : Context}

theorem yields_delta_between : Yields (c.delta : Draw σ Float)
    (fun d => -c.parameters.maxDelta ≤ d ∧ d ≤ c.parameters.maxDelta) (· = .unboundedRange) := by
  refine (yields_between (.inl c.isEmpty_deltas) (.inr rfl)).mono ?_ fun _ => Eq.symm
  rintro _ ⟨finite, v, rfl⟩
  exact between_symmetric c.sensible.maxDelta_pos finite v

/-- Fresh trees are put together from such literals, some of which are moved away from zero. -/
theorem grows_isWithin : Grows c
    (fun d => -c.parameters.maxDelta ≤ d ∧ d ≤ c.parameters.maxDelta)
    (fun e => ∀ x ∈ e.literals, IsWithin c.parameters.maxDelta x) where
  literal d range := by
    have within := IsWithin.of_between c.sensible.maxDelta_finite range.1 range.2
    simpa [Expr.literals] using within
  input name _ := by simp [Expr.literals]
  combine _ _ _ left right :=
    Expr.forall_mem_literals_combine (P := IsWithin c.parameters.maxDelta)
      (fun _ => IsWithin.awayFromZero) left right

theorem yields_freshTree_within : Yields (c.freshTree : Draw σ Expr)
    (fun e => ∀ x ∈ e.literals, IsWithin c.parameters.maxDelta x)
    (fun fault => fault = .unboundedRange ∨ fault = .tooDeep) := by
  refine yields_tree_of_grows grows_isWithin (admitsRanges_of_unbounded (.inl rfl)) (.inr rfl)
    (fun _ => ?_) _ Nat.one_pos
  exact yields_delta_between.mono (fun _ h => h) fun _ => .inl

/-- A literal stays where it is, or moves by what is drawn. -/
theorem yields_mutateLiteral_between {x : Float} (finite : x.isFinite = true) :
    Yields (c.mutateLiteral x : Draw σ Expr)
      (fun e => ∃ y, e = .literal y ∧ x - c.parameters.maxDelta ≤ y ∧ y ≤ x + c.parameters.maxDelta)
      (· = .unboundedRange) := by
  have positive := c.sensible.maxDelta_pos
  have upper := c.sensible.maxDelta_finite
  have lower := Binary64.isFinite_neg upper
  simp only [Binary64.floatSub_eq]
  refine yields_bind
    (yields_chance_of_mem (c := c) (p := c.parameters.change) (by simp [Parameters.chances]))
    fun changes _ => yields_ite (fun _ => ?_) fun _ => ?_
  · refine yields_bind yields_delta_between fun d range => ?_
    obtain ⟨low, high⟩ := range
    have d_finite := Binary64.isFinite_of_between lower upper low high
    rw [Binary64.le_iff lower d_finite] at low
    rw [Binary64.le_iff d_finite upper] at high
    exact yields_pure ⟨x + d, rfl, Binary64.floatAdd_le_add finite lower d_finite low,
      Binary64.floatAdd_le_add finite d_finite upper high⟩
  · refine yields_pure ⟨x, rfl, Binary64.floatAdd_le finite lower ?_,
      Binary64.le_floatAdd finite upper positive.le⟩
    rw [Binary64.toRat_neg]
    linarith

/-- What is added to a literal lies between the bound and its negative. The literals of a fresh tree
are finite, and their magnitudes at most the bound or at most one. Where nothing is wrapped, a
finite literal stays a literal and moves by at most the bound. Only a range without a finite width,
or a tree that grows too deep, stands in the way of a result. -/
theorem literals_inRange (c : Context) :
    Yields (c.delta : Draw σ Float)
      (fun d => -c.parameters.maxDelta ≤ d ∧ d ≤ c.parameters.maxDelta) (· = .unboundedRange) ∧
    Yields (c.freshTree : Draw σ Expr)
      (fun e => ∀ x ∈ e.literals, x.isFinite = true ∧ x.abs ≤ max 1.0 c.parameters.maxDelta)
      (fun fault => fault = .unboundedRange ∨ fault = .tooDeep) ∧
    ((c.parameters.wrap == 0.0) = true → ∀ x : Float, x.isFinite = true →
      Yields (c.mutate (.literal x) : Draw σ Expr)
        (fun e => ∃ y, e = .literal y ∧ x - c.parameters.maxDelta ≤ y ∧
          y ≤ x + c.parameters.maxDelta) (· = .unboundedRange)) := by
  refine ⟨yields_delta_between, yields_freshTree_within, fun wrap x finite => ?_⟩
  exact yields_bind (yields_mutateLiteral_between finite) fun e moved =>
    yields_unless_of_zero wrap (yields_pure moved)

/-- Literals change all the time, by at most the least positive number. -/
def leastParameters : Parameters :=
  { Parameters.standard with
    wrap := 0.0
    change := 1.0
    maxDelta := 5e-324 }

@[irreducible] def leastContext : Context := ⟨Dataset.sample, leastParameters, by decide +kernel⟩

/-- On nothing but ones, zero moves to the very end of its range. -/
theorem literals_inRange_least :
    ∃ y s, leastContext.mutate (.literal 0.0) (Script.ofWords #[0xFFFFFFFF]) = .ok (.literal y, s) ∧
      y = leastContext.parameters.maxDelta ∧ 0.0 - leastContext.parameters.maxDelta ≤ y ∧
      y ≤ 0.0 + leastContext.parameters.maxDelta := by
  have moved : (leastContext.mutate (.literal 0.0) (Script.ofWords #[0xFFFFFFFF])).map (·.1)
      = .ok (.literal leastContext.parameters.maxDelta) := by decide +kernel
  obtain ⟨-, -, range⟩ := @literals_inRange Script _ leastContext
  have result := range (by decide +kernel) 0.0 (by decide) (Script.ofWords #[0xFFFFFFFF])
  cases run : leastContext.mutate (.literal 0.0) (Script.ofWords #[0xFFFFFFFF]) with
  | error fault =>
    rw [run] at moved
    cases moved
  | ok outcome =>
    rw [run] at moved result
    obtain ⟨y, literal, low, high⟩ := result
    have drawn : outcome.1 = .literal leastContext.parameters.maxDelta := Except.ok.inj moved
    rw [literal] at drawn
    exact ⟨y, outcome.2, by rw [← literal], Expr.literal.inj drawn, low, high⟩

end Mutation.Context
end SymbolicRegression
