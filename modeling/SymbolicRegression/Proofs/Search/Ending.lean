import SymbolicRegression.Proofs.Search.Run

/-!
# Runs that end behind a given generation

Where it is known which poll asks first whatever is reported, a run goes through that many
generations. It comes to the climb behind them, or fails where one of them fails; and where no poll
ever asks, it does not finish.
-/
namespace SymbolicRegression.Search.Climb

variable {σ ρ : Type} [WordSource σ] {d : Dataset} {config : Config} {stop : StopSource}
  {climb last : Climb σ} {outcomes : List Outcome} (reporter : Reporter ρ) (initial : ρ)

theorem run_of_steps {k n : ℕ} (ends : ∀ raised, stop.firstRequest raised = k) (enough : k ≤ n)
    (h : climb.Invariant d config []) (ran : climb.steps k = .ok (last, outcomes)) :
    ∃ state, run reporter n climb stop initial = .ok (last, state) := by
  obtain ⟨state, outcome, course, rfl, -⟩ := exists_course ran
  have finished := course.runFrom_of_firstRequest reporter stop initial h (ends _) n enough
  refine ⟨told reporter initial config.reportInterval state outcome k, ?_⟩
  rw [run, finished]

theorem run_of_steps_error {k n : ℕ} {e : DrawError}
    (later : ∀ raised, k ≤ stop.firstRequest raised) (enough : k ≤ n)
    (h : climb.Invariant d config []) (failed : climb.steps k = .error e) :
    run reporter n climb stop initial = .error (.draw e) := by
  obtain ⟨j, lt, middle, outcomes, before, stuck⟩ := exists_of_steps_error failed
  obtain ⟨state, outcome, course, rfl, -⟩ := exists_course before
  have quiet (raised : ℕ → String → Bool) : j < stop.firstRequest raised :=
    (Nat.cast_lt.mpr lt).trans_le (later raised)
  exact (course.run_of_lt_firstRequest reporter stop initial h (quiet _)).2 e stuck n
    (lt.trans_le enough)

theorem run_of_never {n : ℕ} (never : ∀ raised, stop.firstRequest raised = ⊤)
    (h : climb.Invariant d config []) (ran : climb.steps n = .ok (last, outcomes)) :
    run reporter n climb stop initial = .error .unfinished := by
  obtain ⟨state, outcome, course, -, -⟩ := exists_course ran
  refine (course.run_of_lt_firstRequest reporter stop initial h ?_).1
  rw [never]
  exact WithTop.coe_lt_top n

end SymbolicRegression.Search.Climb
