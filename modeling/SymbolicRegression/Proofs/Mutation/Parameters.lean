import SymbolicRegression.Mutation.Generation
import SymbolicRegression.Proofs.Binary64.Sum
import SymbolicRegression.Proofs.Random.Outcome

/-!
# What the checks of parameters promise

Parameters that pass their checks have chances between zero and one, a positive finite bound for
what is added to literals, and finite weights none of which is negative; together the weights of
the leaves are not zero. So there is always a number in the ranges that mutation draws from, even
where they have no finite width.
-/
namespace SymbolicRegression.Mutation

namespace Parameters

/-- What holds of parameters that pass their checks. -/
structure IsSensible (p : Parameters) : Prop where
  chance : ∀ c ∈ p.chances, 0.0 ≤ c.2 ∧ c.2 ≤ 1.0
  maxDelta_finite : p.maxDelta.isFinite = true
  maxDelta_positive : ¬ p.maxDelta ≤ 0.0
  weight : ∀ w ∈ p.weights, w.2.isFinite = true ∧ ¬ w.2 < 0.0
  leafWeight_positive : ¬ p.leafWeight ≤ 0.0

theorem isSensible_of_validate {p : Parameters} (h : p.validate = .ok ()) : p.IsSensible := by
  unfold validate at h
  split at h
  · cases h
  next chances =>
    split at h
    · cases h
    next delta =>
      split at h
      · cases h
      next weights =>
        split at h
        · cases h
        next leaves =>
          simp only [Bool.or_eq_true, Bool.not_eq_true', decide_eq_true_eq, not_or,
            Bool.not_eq_false] at delta
          refine ⟨fun c hc => ?_, delta.1, delta.2, fun w hw => ?_, leaves⟩
          · simpa [isChance] using List.find?_eq_none.mp chances c hc
          · simpa [isWeight] using List.find?_eq_none.mp weights w hw

/-- A chance that passed its check is a sure one, or can be drawn for. -/
theorem IsSensible.drawable {p : Parameters} (h : p.IsSensible) {x : Float}
    (hx : x ∈ p.chances.map Prod.snd) : x == 1.0 ∨ 0.0 ≤ x ∧ x < 1.0 := by
  obtain ⟨chance, mem, rfl⟩ := List.mem_map.mp hx
  obtain ⟨low, high⟩ := h.chance chance mem
  rcases Binary64.lt_or_beq_of_le high with lt | eq
  · exact .inr ⟨low, lt⟩
  · exact .inl eq

theorem IsSensible.leafWeight_pos {p : Parameters} (h : p.IsSensible)
    (finite : p.leafWeight.isFinite = true) : 0 < Binary64.toRat p.leafWeight := by
  have positive := h.leafWeight_positive
  rwa [Binary64.le_iff finite (by rfl), Binary64.toRat_zero, not_le] at positive

/-- A weight is a finite number that is not negative. -/
theorem IsSensible.weight_nonneg {p : Parameters} (h : p.IsSensible) {x : Float}
    (hx : x ∈ p.weights.map Prod.snd) : x.isFinite = true ∧ 0 ≤ Binary64.toRat x := by
  obtain ⟨weight, mem, rfl⟩ := List.mem_map.mp hx
  obtain ⟨finite, nonneg⟩ := h.weight weight mem
  refine ⟨finite, ?_⟩
  rwa [Binary64.lt_iff finite (by rfl), Binary64.toRat_zero, not_lt] at nonneg

theorem IsSensible.literalWeight {p : Parameters} (h : p.IsSensible) :
    p.literalWeight.isFinite = true ∧ 0 ≤ Binary64.toRat p.literalWeight :=
  h.weight_nonneg (by simp [weights])

theorem IsSensible.inputWeight {p : Parameters} (h : p.IsSensible) :
    p.inputWeight.isFinite = true ∧ 0 ≤ Binary64.toRat p.inputWeight :=
  h.weight_nonneg (by simp [weights])

theorem IsSensible.binaryWeight {p : Parameters} (h : p.IsSensible) :
    p.binaryWeight.isFinite = true ∧ 0 ≤ Binary64.toRat p.binaryWeight :=
  h.weight_nonneg (by simp [weights])

theorem IsSensible.maxDelta_pos {p : Parameters} (h : p.IsSensible) :
    0 < Binary64.toRat p.maxDelta := by
  have positive := h.maxDelta_positive
  rwa [Binary64.le_iff h.maxDelta_finite (by rfl), Binary64.toRat_zero, not_le] at positive

/-- The leaves have some weight, which may be infinite. -/
theorem IsSensible.extent_leafWeight_pos {p : Parameters} (h : p.IsSensible) :
    Binary64.IsNumber p.leafWeight ∧ 0 < Binary64.extent p.leafWeight := by
  have number : Binary64.IsNumber p.leafWeight :=
    (Binary64.extent_add h.literalWeight.1 h.inputWeight.1).1
  have positive := h.leafWeight_positive
  rw [Binary64.le_iff_extent number Binary64.isNumber_zero, Binary64.extent_zero,
    not_le] at positive
  exact ⟨number, positive⟩

end Parameters

namespace Context

theorem sensible (c : Context) : c.parameters.IsSensible :=
  Parameters.isSensible_of_validate c.valid

/-- Whatever may come up at a depth has some weight, which may be infinite. -/
theorem totalWeight_positive (c : Context) (depth : ℕ) : 0.0 < c.totalWeight depth := by
  have above {x : Float} (number : Binary64.IsNumber x) (h : 0 < Binary64.extent x) : 0.0 < x := by
    rwa [Binary64.lt_iff_extent Binary64.isNumber_zero number, Binary64.extent_zero]
  obtain ⟨number, positive⟩ := c.sensible.extent_leafWeight_pos
  unfold totalWeight
  split_ifs
  · obtain ⟨finite, nonneg⟩ := c.sensible.binaryWeight
    obtain ⟨sum, le⟩ := Binary64.extent_le_add number finite nonneg
    exact above sum (positive.trans_le le)
  · exact above number positive

/-- There always is a weight to be drawn. -/
theorem isEmpty_weights (c : Context) (depth : ℕ) :
    RangeEnd.isEmpty .excluded 0.0 (c.totalWeight depth) = false := by
  simpa [RangeEnd.isEmpty] using c.totalWeight_positive depth

/-- There always is something to be added to a literal. -/
theorem isEmpty_deltas (c : Context) :
    RangeEnd.isEmpty .included (-c.parameters.maxDelta) c.parameters.maxDelta = false := by
  have upper := c.sensible.maxDelta_finite
  have le : -c.parameters.maxDelta ≤ c.parameters.maxDelta := by
    rw [Binary64.le_iff (Binary64.isFinite_neg upper) upper, Binary64.toRat_neg]
    exact neg_le_self c.sensible.maxDelta_pos.le
  simpa [RangeEnd.isEmpty] using le

end Context

/-- A context is built from what it holds. -/
theorem Context.build_eq (c : Context) : build c.dataset c.parameters = .ok c := by
  unfold build
  split
  · rfl
  next e failed => cases failed.symm.trans c.valid

def Context.standard (d : Dataset) : Context := ⟨d, .standard, by decide +kernel⟩

end SymbolicRegression.Mutation
