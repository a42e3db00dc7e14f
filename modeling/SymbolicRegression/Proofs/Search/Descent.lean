import Mathlib.Data.Prod.Lex
import SymbolicRegression.Proofs.Expr.Fitness
import SymbolicRegression.Proofs.Search.Invariant

/-!
# The descent of a climb

Candidates are ranked by the number that their fitness stands for, and then by their size. An
accepted candidate has a strictly lower rank than the one before it, and a rejected one leaves
everything as it was. As there are only so many fitnesses, and below each only so many sizes, no
climb goes on accepting for ever.
-/
namespace SymbolicRegression.Search

open Binary64

namespace Candidate

/-- What candidates are compared by: first the fitness, as a number, and then the size. -/
def rank (candidate : Candidate) : ℚ ×ₗ ℕ := toLex (toRat candidate.fitness, candidate.size)

theorem rank_lt_iff {a b : Candidate} :
    a.rank < b.rank ↔
      toRat a.fitness < toRat b.fitness ∨ toRat a.fitness = toRat b.fitness ∧ a.size < b.size :=
  Prod.Lex.toLex_lt_toLex

/-- With finite fitnesses, a candidate replaces another exactly if it has the lower rank. -/
theorem beats_iff_rank_lt {a b : Candidate} (ha : a.fitness.isFinite = true)
    (hb : b.fitness.isFinite = true) : a.beats b = true ↔ a.rank < b.rank := by
  rw [rank_lt_iff, ← lt_iff ha hb, ← beq_iff ha hb]
  simp [beats]

/-- There are finitely many fitnesses, so ranks do not descend for ever. -/
theorem wellFounded_rank : WellFounded fun a b : Candidate => a.rank < b.rank := by
  let position (candidate : Candidate) : Set.range toRat ×ₗ ℕ :=
    toLex (⟨toRat candidate.fitness, Set.mem_range_self _⟩, candidate.size)
  have values : WellFoundedLT (Set.range toRat) := Finite.to_wellFoundedLT
  have positions : WellFounded fun a b : Candidate => position a < position b :=
    InvImage.wf position wellFounded_lt
  refine Subrelation.wf (fun {a b} lower => ?_) positions
  rw [rank_lt_iff] at lower
  exact Prod.Lex.toLex_lt_toLex.mpr (lower.imp_right (And.imp_left Subtype.ext))

theorem IsSound.isFinite {d : Dataset} {candidate : Candidate} (h : candidate.IsSound d) :
    candidate.fitness.isFinite = true := by
  rw [h.fitness]
  exact candidate.formula.root.isFinite_fitness d

/-- Nothing has a lower rank than a perfect fit of a single node. -/
theorem IsSound.not_rank_lt {d : Dataset} {a b : Candidate} (h : a.IsSound d)
    (hb : b.fitness.isFinite = true) (perfect : (b.fitness == 0.0) = true) (single : b.size = 1) :
    ¬a.rank < b.rank := by
  have zero : toRat b.fitness = 0 := (beq_iff hb rfl).mp perfect
  have nonneg : 0 ≤ toRat a.fitness := by
    rw [h.fitness]
    exact a.formula.root.fitness_nonneg d
  have positive : 0 < a.size := by
    rw [h.size]
    exact a.formula.root.size_pos
  rw [rank_lt_iff, zero, single]
  rintro (lower | ⟨-, smaller⟩)
  · exact absurd nonneg (not_le.mpr lower)
  · omega

end Candidate

namespace Climb

variable {σ : Type} [WordSource σ] {d : Dataset} {config : Config}

/-- A generation either puts a candidate of lower rank in the place of the best one, or leaves the
best one where it is. -/
theorem Invariant.rank_step {before : List Outcome} {climb climb' : Climb σ} {outcome : Outcome}
    (h : climb.Invariant d config before) (run : climb.step = .ok (climb', outcome)) :
    outcome = .accepted ∧ climb'.best.rank < climb.best.rank ∨
      outcome = .rejected ∧ climb'.best = climb.best := by
  have after := h.step run
  obtain ⟨formula, source, -, settled⟩ := exists_of_step run
  unfold settle at settled
  split_ifs at settled with better
  · obtain ⟨rfl, rfl⟩ := Prod.mk.inj settled
    left
    refine ⟨rfl, ?_⟩
    exact (Candidate.beats_iff_rank_lt after.best.isFinite h.best.isFinite).mp better
  · obtain ⟨rfl, rfl⟩ := Prod.mk.inj settled
    right
    exact ⟨rfl, rfl⟩

/-- Generations lower the rank of the best candidate if one of them accepts, and leave the best
candidate where it is if none does. -/
theorem Invariant.rank_steps {before outcomes : List Outcome} {n : ℕ} {climb climb' : Climb σ}
    (h : climb.Invariant d config before) (run : climb.steps n = .ok (climb', outcomes)) :
    .accepted ∈ outcomes ∧ climb'.best.rank < climb.best.rank ∨
      .accepted ∉ outcomes ∧ climb'.best = climb.best := by
  induction n generalizing climb before outcomes with
  | zero =>
    obtain ⟨rfl, rfl⟩ := Prod.mk.inj (Except.ok.inj run)
    right
    exact ⟨List.not_mem_nil, rfl⟩
  | succ n ih =>
    obtain ⟨middle, outcome, rest, first, tail, rfl⟩ := exists_of_steps_succ run
    rcases h.rank_step first with ⟨rfl, lower⟩ | ⟨rfl, same⟩
    · left
      refine ⟨List.mem_cons_self, ?_⟩
      rcases ih (h.step first) tail with ⟨-, further⟩ | ⟨-, kept⟩
      · exact further.trans lower
      · rwa [kept]
    · rw [← same]
      refine (ih (h.step first) tail).imp ?_ ?_
      · exact And.imp_left (List.mem_cons_of_mem _)
      · simp

/-- From some generation on nothing is accepted: the best candidate that is lowest in rank stays. -/
theorem Invariant.exists_count_le {climb : Climb σ} (h : climb.Invariant d config []) :
    ∃ bound, ∀ n last outcomes, climb.steps n = .ok (last, outcomes) →
      outcomes.count .accepted ≤ bound := by
  let reached : Set Candidate :=
    {best | ∃ n last outcomes, climb.steps n = .ok (last, outcomes) ∧ last.best = best}
  have start : climb.best ∈ reached := ⟨0, climb, [], rfl, rfl⟩
  obtain ⟨-, ⟨bound, lowest, before, run, rfl⟩, least⟩ :=
    Candidate.wellFounded_rank.has_min reached ⟨climb.best, start⟩
  refine ⟨bound, fun n last outcomes further => ?_⟩
  by_cases early : n ≤ bound
  · calc outcomes.count .accepted ≤ outcomes.length := List.count_le_length
      _ = n := length_of_steps further
      _ ≤ bound := early
  · obtain ⟨k, rfl⟩ := Nat.exists_eq_add_of_lt (not_le.mp early)
    rw [Nat.add_assoc] at further
    obtain ⟨middle, first, rest⟩ := steps_split further
    obtain ⟨rfl, rfl⟩ := Prod.mk.inj (Except.ok.inj (first.symm.trans run))
    have quiet : .accepted ∉ outcomes.drop bound := by
      rcases (h.steps first).rank_steps rest with ⟨-, lower⟩ | ⟨none, -⟩
      · exact absurd lower (least _ ⟨_, last, outcomes, further, rfl⟩)
      · exact none
    calc outcomes.count .accepted
        = (outcomes.take bound).count .accepted + (outcomes.drop bound).count .accepted := by
          rw [← List.count_append, List.take_append_drop]
      _ = (outcomes.take bound).count .accepted := by
          rw [List.count_eq_zero.mpr quiet, Nat.add_zero]
      _ ≤ (outcomes.take bound).length := List.count_le_length
      _ ≤ bound := List.length_take_le _ _

/-- Of two states of a climb, the later one never has the higher rank. It has the lower one exactly
if a generation in between accepted; otherwise its best candidate is the same in every respect. So a
climb accepts only so many times, it ends no worse than it started, and from a perfect fit of a
single node it does not move. -/
theorem rank_descends {source : σ} {first : Option Formula} {climb : Climb σ}
    (started : start d config source first = .ok climb) :
    (∀ i j earlier later before outcomes, i ≤ j →
      climb.steps i = .ok (earlier, before) → climb.steps j = .ok (later, outcomes) →
        earlier.best.fitness.isFinite = true ∧ later.best.fitness.isFinite = true ∧
        later.best.rank ≤ earlier.best.rank ∧
        (later.best.rank < earlier.best.rank ↔ .accepted ∈ outcomes.drop i) ∧
        (.accepted ∉ outcomes.drop i → later.best = earlier.best) ∧
        ((earlier.best.fitness == 0.0) = true → earlier.best.size = 1 →
          .accepted ∉ outcomes.drop i ∧ later.best = earlier.best)) ∧
      (∃ bound, ∀ n last outcomes, climb.steps n = .ok (last, outcomes) →
        outcomes.count .accepted ≤ bound) ∧
      ∀ n last outcomes, climb.steps n = .ok (last, outcomes) →
        last.best.rank ≤ climb.best.rank := by
  have initial := invariant_of_start started
  refine ⟨?_, initial.exists_count_le, ?_⟩
  · intro i j earlier later before outcomes le first_run second_run
    obtain ⟨k, rfl⟩ := Nat.exists_eq_add_of_le le
    obtain ⟨middle, again, between⟩ := steps_split second_run
    obtain ⟨rfl, rfl⟩ := Prod.mk.inj (Except.ok.inj (again.symm.trans first_run))
    have early := initial.steps again
    have late := early.steps between
    refine ⟨early.best.isFinite, late.best.isFinite, ?_⟩
    rcases early.rank_steps between with ⟨accepted, lower⟩ | ⟨quiet, same⟩
    · refine ⟨lower.le, iff_of_true lower accepted, fun quiet => absurd accepted quiet, ?_⟩
      intro perfect single
      exact absurd lower (late.best.not_rank_lt early.best.isFinite perfect single)
    · rw [same]
      exact ⟨le_rfl, iff_of_false (lt_irrefl _) quiet, fun _ => rfl, fun _ _ => ⟨quiet, rfl⟩⟩
  · intro n last outcomes run
    rcases initial.rank_steps run with ⟨-, lower⟩ | ⟨-, same⟩
    · exact lower.le
    · rw [same]

/-- The climb on nothing but zeros comes to a candidate of lower rank. -/
theorem rank_descends_zeros :
    ∃ climb, start Dataset.sample Config.standard (Script.ofWords #[]) (some ⟨.input "first"⟩)
        = .ok climb ∧
      ∃ last, climb.steps 2 = .ok (last, [.accepted, .rejected]) ∧
        last.best.rank < climb.best.rank ∧
        ∃ bound, ∀ n last outcomes, climb.steps n = .ok (last, outcomes) →
          outcomes.count .accepted ≤ bound := by
  obtain ⟨climb, last, started, twice⟩ := steps_of_zeros
  obtain ⟨between, bounded, -⟩ := rank_descends started
  obtain ⟨-, -, -, lower, -⟩ := between 0 2 climb last [] _ (Nat.zero_le 2) rfl twice
  exact ⟨climb, started, last, twice, lower.mpr List.mem_cons_self, bounded⟩

end Climb
end SymbolicRegression.Search
