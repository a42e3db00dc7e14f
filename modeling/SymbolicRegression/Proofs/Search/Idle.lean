import SymbolicRegression.Proofs.Binary64.Arithmetic
import SymbolicRegression.Proofs.Expr.Fitness
import SymbolicRegression.Proofs.Mutation.Idle
import SymbolicRegression.Proofs.Search.Guard

/-!
# Searches with nothing enabled

Without any chance of a change, the candidate of every generation is the best formula with its small
factors and divisors moved away from zero. It has the same size, so it is accepted exactly if it is
strictly fitter. Moving again changes nothing, so nothing is accepted behind it, and nothing at all
if the first candidate is no fitter.
-/
namespace SymbolicRegression

open Mutation WordSource

/-- A formula with its small factors and divisors moved away from zero. -/
def Formula.guarded (f : Formula) : Formula := ⟨f.root.guarded⟩

theorem Formula.guarded_guarded (f : Formula) : f.guarded.guarded = f.guarded :=
  congrArg Formula.mk f.root.guarded_guarded

theorem Formula.guarded_eq_self {f : Formula} (h : f.root.IsGuarded) : f.guarded = f :=
  congrArg Formula.mk (Expr.guarded_eq_self_iff.mpr h)

theorem Formula.not_fitness_lt (f : Formula) (d : Dataset) : ¬f.fitness d < f.fitness d := by
  have finite := f.root.isFinite_fitness d
  rw [Formula.fitness, Binary64.lt_iff finite finite]
  exact lt_irrefl _

variable {σ : Type} [WordSource σ]

/-- Two words more decide that the formula is not replaced. -/
theorem Formula.mutate_of_idle {c : Context} (idle : c.parameters.IsIdle) (f : Formula) (s : σ) :
    f.mutate c s = .ok (f.guarded, drop (7 * f.size - 1) s) := by
  obtain ⟨-, -, -, fresh, -⟩ := Parameters.isIdle_iff.mp idle
  have drawn := (Context.freshOr_of_zero fresh (c.mutate f.root) s).trans
    (Context.mutate_of_idle idle f.root _)
  have words : 2 + (7 * f.root.size - 3) = 7 * f.size - 1 := by
    have := f.root.size_pos
    rw [Formula.size]
    omega
  rw [Formula.mutate, Draw.bind_of_ok drawn, ← drop_add, words]
  rfl

namespace Search

/-- Guarded formulas do not differ in size, so only a strictly better fitness counts. -/
theorem Candidate.beats_guarded (f : Formula) (d : Dataset) :
    (scored f.guarded d).beats (scored f d) = decide (f.guarded.fitness d < f.fitness d) := by
  have size : f.guarded.size = f.size := f.root.size_guarded
  simp [beats, scored, size]

/-- A sound candidate is its formula with the score of it. -/
theorem Candidate.IsSound.eq_scored {d : Dataset} {candidate : Candidate}
    (h : candidate.IsSound d) : candidate = .scored candidate.formula d := by
  obtain ⟨formula, fitness, size⟩ := candidate
  rw [scored, Candidate.mk.injEq]
  exact ⟨rfl, h.fitness, h.size⟩

namespace Climb

variable {d : Dataset} {f : Formula} {climb : Climb σ}

/-- Whether a climb on a dataset holds a formula with its score, and nothing is enabled. -/
structure IsIdle (d : Dataset) (f : Formula) (climb : Climb σ) : Prop where
  dataset : climb.context.dataset = d
  parameters : climb.context.parameters.IsIdle
  best : climb.best = .scored f d

/-- A generation tries the guarded formula. -/
theorem IsIdle.step_eq (h : climb.IsIdle d f) :
    climb.step = .ok (climb.settle (.scored f.guarded d) (drop (7 * f.size - 1) climb.source)) := by
  have formula : climb.best.formula = f := by rw [h.best]; rfl
  rw [Climb.step_eq, formula, Formula.mutate_of_idle h.parameters, h.dataset]
  rfl

theorem IsIdle.step_rejected (h : climb.IsIdle d f)
    (unfit : ¬f.guarded.fitness d < f.fitness d) :
    ∃ next, climb.step = .ok (next, .rejected) ∧ next.IsIdle d f := by
  have loses : ¬(Candidate.scored f.guarded d).beats climb.best = true := by
    rwa [h.best, Candidate.beats_guarded, decide_eq_true_iff]
  rw [h.step_eq, settle, if_neg loses]
  exact ⟨_, rfl, h.dataset, h.parameters, h.best⟩

theorem IsIdle.step_accepted (h : climb.IsIdle d f) (fitter : f.guarded.fitness d < f.fitness d) :
    ∃ next, climb.step = .ok (next, .accepted) ∧ next.IsIdle d f.guarded := by
  have wins : (Candidate.scored f.guarded d).beats climb.best = true := by
    rwa [h.best, Candidate.beats_guarded, decide_eq_true_iff]
  rw [h.step_eq, settle, if_pos wins]
  exact ⟨_, rfl, h.dataset, h.parameters, rfl⟩

/-- What is rejected once is rejected for ever. -/
theorem IsIdle.steps_rejected (h : climb.IsIdle d f)
    (unfit : ¬f.guarded.fitness d < f.fitness d) (n : ℕ) :
    ∃ last, climb.steps n = .ok (last, List.replicate n .rejected) := by
  induction n generalizing climb with
  | zero => exact ⟨climb, rfl⟩
  | succ n ih =>
    obtain ⟨next, first, idle⟩ := h.step_rejected unfit
    obtain ⟨last, rest⟩ := ih idle
    exact ⟨last, by rw [steps, first]; simp only [rest, List.replicate_succ]⟩

/-- The first generation decides, and all others reject. -/
theorem IsIdle.steps_succ (h : climb.IsIdle d f) (n : ℕ) :
    ∃ last, climb.steps (n + 1) = .ok (last,
      (if f.guarded.fitness d < f.fitness d then .accepted else .rejected) ::
        List.replicate n .rejected) := by
  split_ifs with fitter
  · obtain ⟨next, first, idle⟩ := h.step_accepted fitter
    -- moving again changes nothing, and no formula is fitter than itself
    have unfit : ¬f.guarded.guarded.fitness d < f.guarded.fitness d := by
      rw [f.guarded_guarded]
      exact f.guarded.not_fitness_lt d
    obtain ⟨last, rest⟩ := idle.steps_rejected unfit n
    exact ⟨last, by rw [steps, first]; simp only [rest]⟩
  · exact h.steps_rejected fitter (n + 1)

/-- With nothing enabled, any climb that has started is idle. -/
theorem isIdle_of_start {config : Config} {source : σ} {first : Option Formula}
    (idle : config.mutation.IsIdle) (started : start d config source first = .ok climb) :
    climb.IsIdle d climb.best.formula where
  dataset := (invariant_of_start started).dataset
  parameters := (invariant_of_start started).parameters ▸ idle
  best := (invariant_of_start started).best.eq_scored

/-- With all chances at zero, a mutation takes seven words for each node, less three in all, and
returns the expression with its small factors and divisors moved away from zero. This leaves an
expression alone exactly if it is guarded, and there is nothing to move the second time. So a climb
from a formula accepts only in the first generation, and there exactly if the formula so moved is
strictly fitter. From a guarded formula, or from none, it never accepts. -/
theorem outcomes_of_idle (σ : Type) [WordSource σ] :
    (∀ (c : Context) (e : Expr) (s : σ), c.parameters.IsIdle →
      c.mutate e s = .ok (e.guarded, drop (7 * e.size - 3) s)) ∧
    (∀ e : Expr, (e.guarded = e ↔ e.IsGuarded) ∧ e.guarded.guarded = e.guarded) ∧
    ∀ (d : Dataset) (config : Config) (source : σ) (first : Option Formula),
      config.validate = .ok () → config.mutation.IsIdle →
      (∀ f, first = some f → f.validate d = .ok ()) →
      (first = none ∧ ∃ e, start d config source first = .error (.draw e)) ∨
      ∃ climb, start d config source first = .ok climb ∧
        (∀ f, first = some f → climb.best.formula = f) ∧
        (∀ n, ∃ last, climb.steps (n + 1) = .ok (last,
          (if climb.best.formula.guarded.fitness d < climb.best.formula.fitness d
            then .accepted else .rejected) :: List.replicate n .rejected)) ∧
        ((∀ f, first = some f → f.root.IsGuarded) → ∀ n, ∃ last,
          climb.steps n = .ok (last, List.replicate n .rejected)) := by
  refine ⟨fun c e s idle => Context.mutate_of_idle idle e s,
    fun e => ⟨Expr.guarded_eq_self_iff, e.guarded_guarded⟩, ?_⟩
  intro d config source first valid enabled fits
  obtain failed | ⟨climb, started, -⟩ := start_spec source valid fits
  · exact .inl failed
  have idle := isIdle_of_start enabled started
  refine .inr ⟨climb, started, ?_, idle.steps_succ, fun guarded => idle.steps_rejected ?_⟩
  · rintro f rfl
    rw [best_of_start_some started]
    rfl
  · have kept := best_of_start Context.closed_isGuarded guarded started
    rw [Formula.guarded_eq_self kept]
    exact climb.best.formula.not_fitness_lt d

/-- The standard parameters with all chances at zero, one of them negative. -/
def idleParameters : Parameters :=
  { Parameters.standard with
    wrap := 0.0
    change := -0.0
    changeOperator := 0.0
    regenerate := 0.0
    collapse := 0.0 }

/-- A field of the built-in dataset by half, which is less fit than the field alone. -/
def halfThird : Formula := ⟨.binary .multiply (.input "third") (.literal 0.5)⟩

/-- With nothing enabled, a mutation of the half takes eighteen words and makes it the whole; a
climb from the half accepts that once, and one from a field accepts nothing. -/
theorem outcomes_of_idle_half :
    idleParameters.validate = .ok () ∧ idleParameters.IsIdle ∧
      halfThird.validate Dataset.sample = .ok () ∧
      (∃ c : Context, Context.build Dataset.sample idleParameters = .ok c ∧
        c.mutate halfThird.root (Script.ofWords #[]) =
          .ok (.binary .multiply (.input "third") (.literal 1.0), drop 18 (Script.ofWords #[]))) ∧
      (∃ climb, start Dataset.sample ⟨1, idleParameters⟩ (Script.ofWords #[]) (some halfThird)
        = .ok climb ∧ ∀ n, ∃ last, climb.steps (n + 1)
          = .ok (last, .accepted :: List.replicate n .rejected)) ∧
      ∃ climb, start Dataset.sample ⟨1, idleParameters⟩ (Script.ofWords #[])
        (some ⟨.input "first"⟩) = .ok climb ∧ ∀ n, ∃ last, climb.steps n
          = .ok (last, List.replicate n .rejected) := by
  have valid : idleParameters.validate = .ok () := by decide +kernel
  have idle : idleParameters.IsIdle := by decide +kernel
  have fits : halfThird.validate Dataset.sample = .ok () := by decide +kernel
  have single : (⟨.input "first"⟩ : Formula).validate Dataset.sample = .ok () := by decide +kernel
  have built := Context.build_eq ⟨Dataset.sample, idleParameters, valid⟩
  have config : (⟨1, idleParameters⟩ : Config).validate = .ok () := by decide +kernel
  have fitter : halfThird.guarded.fitness Dataset.sample < halfThird.fitness Dataset.sample := by
    decide +kernel
  obtain ⟨mutated, -, climbed⟩ := outcomes_of_idle Script
  refine ⟨valid, idle, fits, ⟨_, built, ?_⟩, ?_, ?_⟩
  · rw [mutated _ _ _ idle]
    have whole : halfThird.root.guarded = .binary .multiply (.input "third") (.literal 1.0) := by
      decide +kernel
    rw [whole]
    rfl
  · have half (f : Formula) (h : some halfThird = some f) : f.validate Dataset.sample = .ok () := by
      cases h
      exact fits
    obtain ⟨absent, -⟩ | ⟨climb, started, best, outcomes, -⟩ :=
      climbed Dataset.sample _ (Script.ofWords #[]) (some halfThird) config idle half
    · cases absent
    · rw [best halfThird rfl, if_pos fitter] at outcomes
      exact ⟨climb, started, outcomes⟩
  · have field (f : Formula) (h : some ⟨.input "first"⟩ = some f) :
        f.validate Dataset.sample = .ok () ∧ f.root.IsGuarded := by
      cases h
      exact ⟨single, trivial⟩
    obtain ⟨absent, -⟩ | ⟨climb, started, -, -, rejected⟩ :=
      climbed Dataset.sample _ (Script.ofWords #[]) (some ⟨.input "first"⟩) config idle
        fun f h => (field f h).1
    · cases absent
    · exact ⟨climb, started, rejected fun f h => (field f h).2⟩

end Climb
end Search
end SymbolicRegression
