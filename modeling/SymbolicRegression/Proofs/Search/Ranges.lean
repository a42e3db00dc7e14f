import SymbolicRegression.Dataset.Sample
import SymbolicRegression.Proofs.Mutation.DepthCap
import SymbolicRegression.Proofs.Search.Invariant

/-!
# When sampling cannot fail

Parameters that pass their checks always give chances that can be drawn for and ranges with some
number in them, and there is always an input to choose. What the checks leave open is whether the
ranges have a finite width: the weights are added up, and the bound of what is added to a literal is
doubled. The search is safe exactly if those two numbers are finite, the second one only where it
can come into play.
-/
namespace SymbolicRegression.Search

open Mutation Mutation.Context Draw

variable {σ : Type} [WordSource σ] {c : Context}

/-- Whether every range that mutation may draw from has a finite width. -/
structure HasFiniteRanges (c : Context) : Prop where
  total : (c.totalWeight 1).isFinite = true
  delta : c.DrawsDelta → c.deltaWidth.isFinite = true

/-- Whatever the width of the ranges, there is something to choose from, and every chance is one. -/
theorem admits_unbounded : c.Admits fun e => e = .tooDeep ∨ e = .unboundedRange :=
  (admitsRanges_of_unbounded (.inr rfl)).admits (.inl rfl)

theorem isFinite_totalWeight (h : (c.totalWeight 1).isFinite = true) {depth : ℕ}
    (hd : 0 < depth) : (c.totalWeight depth).isFinite = true := by
  unfold totalWeight at h ⊢
  split_ifs at h ⊢
  · exact h
  · omega
  · exact Binary64.isFinite_of_add h
  · exact h

theorem HasFiniteRanges.admitsRanges (h : HasFiniteRanges c) (fault : DrawError → Prop) :
    c.AdmitsRanges fault :=
  ⟨fun _ hd => .inl (isFinite_totalWeight h.total hd), fun draws => .inl (h.delta draws)⟩

/-- With finite ranges nothing but depth can end a mutation. -/
theorem HasFiniteRanges.admits (h : HasFiniteRanges c) : c.Admits (· = .tooDeep) :=
  (h.admitsRanges _).admits rfl

/-- Where growth ends by itself as well, nothing at all can end a mutation. -/
theorem HasFiniteRanges.admits_nothing (h : HasFiniteRanges c) (fine : ¬c.HasCoarseLeaves) :
    c.Admits fun _ => False :=
  (h.admitsRanges _).admits_of_not_coarse fine

/-- What holds of all failures of mutation holds of all failures of a generation. -/
theorem fault_of_step {fault : DrawError → Prop} {climb : Climb σ}
    (h : climb.context.Admits fault) {e : DrawError} (failed : climb.step = .error e) :
    fault e := by
  unfold Climb.step at failed
  split at failed
  next e' run =>
    cases failed
    exact (Formula.yields_mutate closed_true h trivial).error run
  next => cases failed

/-- And of all failures of any number of generations. -/
theorem fault_of_steps {fault : DrawError → Prop} {climb : Climb σ} {n : ℕ}
    (h : climb.context.Admits fault) {e : DrawError} (failed : climb.steps n = .error e) :
    fault e := by
  obtain ⟨k, -, middle, outcomes, before, stuck⟩ := Climb.exists_of_steps_error failed
  rw [← Climb.context_of_steps before] at h
  exact fault_of_step h stuck

theorem fault_of_start {fault : DrawError → Prop} {d : Dataset} {config : Config} {s : σ}
    {first : Option Formula} (h : c.Admits fault) (context : Climb.contextOf d config = .ok c)
    {e : DrawError} (failed : Climb.start d config s first = .error (.draw e)) : fault e := by
  simp only [Climb.start, context] at failed
  split at failed
  next e' run =>
    cases failed
    unfold Climb.firstFormula at run
    split at run
    · split at run <;> cases run
    · split at run
      next => cases run
      next e' drawn =>
        cases run
        exact (Formula.yields_random closed_true h).error drawn
  next => cases failed

/-- A failure of anything that a search does with a context. -/
inductive Fails (c : Context) (s : σ) : DrawError → Prop where
  | freshTree {e : DrawError} (h : c.freshTree s = .error e) : Fails c s e
  | mutate {e : DrawError} (expr : Expr) (h : c.mutate expr s = .error e) : Fails c s e
  | formula {e : DrawError} (f : Formula) (h : f.mutate c s = .error e) : Fails c s e
  | start {e : DrawError} (d : Dataset) (config : Config) (first : Option Formula)
      (context : Climb.contextOf d config = .ok c)
      (h : Climb.start d config s first = .error (.draw e)) : Fails c s e
  | step {e : DrawError} (climb : Climb σ) (context : climb.context = c)
      (source : climb.source = s) (h : climb.step = .error e) : Fails c s e

theorem Fails.fault {fault : DrawError → Prop} (h : c.Admits fault) {s : σ} {e : DrawError}
    (failed : Fails c s e) : fault e := by
  cases failed with
  | freshTree run => exact (yields_freshTree closed_true h).error run
  | mutate expr run => exact (yields_mutate closed_true h trivial).error run
  | formula f run => exact (Formula.yields_mutate closed_true h trivial).error run
  | start d config first context run => exact fault_of_start h context run
  | step climb context source run =>
    subst context
    exact fault_of_step h run

theorem freshTree_of_unbounded (h : ¬(c.totalWeight 1).isFinite = true) (s : σ) :
    c.freshTree s = .error .unboundedRange := by
  rw [← Binary64.sub_zero (c.totalWeight 1)] at h
  exact bind_of_error (between_of_unbounded (c.isEmpty_weights 1) h s)

/-- Where literals have some weight, zeros ask for a fresh literal. -/
theorem freshTree_zeros (total : (c.totalWeight 1).isFinite = true)
    (literal : 0.0 < c.parameters.literalWeight) (h : ¬c.deltaWidth.isFinite = true) :
    c.freshTree zeros = .error .unboundedRange := by
  have finite := total
  rw [← Binary64.sub_zero (c.totalWeight 1)] at finite
  have drawn : scaledTo (c.totalWeight 1) zeros.wide < c.parameters.literalWeight := by
    obtain ⟨weight_finite, -⟩ := c.sensible.literalWeight
    obtain ⟨drawn_finite, zero⟩ := scaledTo_spec (totalWeight_pos total) zeros.wide
    rw [units_wide_zeros, Nat.cast_zero, zero_mul, zero_mul, Binary64.nearest_zero] at zero
    rwa [Binary64.lt_iff drawn_finite weight_finite, zero, ← Binary64.toRat_zero,
      ← Binary64.lt_iff (by rfl) weight_finite]
  unfold scaledTo at drawn
  change c.tree (_ + 1) 1 zeros = _
  rw [tree, bind_of_ok (between_constant (c.isEmpty_weights 1) finite zeros), if_pos drawn]
  exact bind_of_error (between_of_unbounded c.isEmpty_deltas h zeros)

/-- Where a literal can change, zeros ask for a change. -/
theorem mutate_zeros (hits : CanHit c.parameters.change) (h : ¬c.deltaWidth.isFinite = true) :
    c.mutate (.literal 0.0) zeros = .error .unboundedRange := by
  have valid := c.sensible.drawable (x := c.parameters.change) (by simp [Parameters.chances])
  refine bind_of_error ?_
  rw [mutateLiteral, bind_of_ok (chance_zeros hits valid), if_pos rfl]
  exact bind_of_error (between_of_unbounded c.isEmpty_deltas h zeros)

/-- Nothing that a search does with parameters that passed their checks can fail for want of
something to choose from or for a chance that is none. Ranges never fail either, so that only a
tree that grows too deep can end it, exactly if all their widths are finite. -/
theorem sampling_safe_iff (c : Context) :
    (∀ (σ : Type) [WordSource σ] (s : σ) (e : DrawError), Fails c s e →
        e = .tooDeep ∨ e = .unboundedRange) ∧
      ((∀ (σ : Type) [WordSource σ] (s : σ) (e : DrawError), Fails c s e → e = .tooDeep) ↔
        (c.totalWeight 1).isFinite = true ∧
          (0.0 < c.parameters.literalWeight ∨ CanHit c.parameters.change →
            (c.parameters.maxDelta - -c.parameters.maxDelta).isFinite = true)) := by
  refine ⟨fun σ _ s e failed => failed.fault admits_unbounded, fun safe => ?_, ?_⟩
  · have total : (c.totalWeight 1).isFinite = true := by
      by_contra unbounded
      cases safe Constant zeros _ (.freshTree (freshTree_of_unbounded unbounded zeros))
    refine ⟨total, fun draws => ?_⟩
    by_contra unbounded
    rcases draws with literal | hits
    · cases safe Constant zeros _ (.freshTree (freshTree_zeros total literal unbounded))
    · cases safe Constant zeros _ (.mutate _ (mutate_zeros hits unbounded))
  · rintro ⟨total, delta⟩ σ _ s e failed
    exact failed.fault (HasFiniteRanges.admits ⟨total, delta⟩)

/-- Parameters that pass their checks with a bound whose double is infinite. -/
def wideParameters : Parameters := { Parameters.standard with maxDelta := 1e308, change := 1.0 }

def wideContext : Context := ⟨Dataset.sample, wideParameters, by decide +kernel⟩

/-- Changing a literal then fails on any words. -/
theorem mutate_fails_on_wide_range :
    Context.build Dataset.sample wideParameters = .ok wideContext ∧
      (wideContext.mutate (.literal 0.0) (Script.ofWords #[])).map (·.1)
        = .error .unboundedRange := by
  exact ⟨wideContext.build_eq, by decide +kernel⟩

end SymbolicRegression.Search
