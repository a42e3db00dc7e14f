import SymbolicRegression.Search.Climb
import SymbolicRegression.Dataset.Sample
import SymbolicRegression.Proofs.Expr.Fields
import SymbolicRegression.Proofs.Mutation.Closure

/-!
# The invariant of a climb

At every moment the best candidate of a climb carries its true score and size, and its formula fits
the dataset. Each generation counts once, and counts as a success exactly if its candidate was
accepted.
-/
namespace SymbolicRegression.Search

open Mutation

/-- Nothing is excluded from what mutation may fail with. -/
theorem admits_all (c : Context) : c.Admits fun _ => True :=
  (Context.admitsRanges_of_unbounded trivial).admits trivial

/-- No mutation refers to anything but inputs. -/
theorem closed_fits (c : Context) : c.Closed (Expr.Fits c.dataset) where
  literal := Expr.fits_literal
  input _ h := Expr.fits_input.mpr h
  combine _ _ _ hleft hright := Expr.fits_combine.mpr ⟨hleft, hright⟩
  operands _ _ _ h := Expr.fits_binary.mp h

namespace Candidate

/-- Whether a candidate is what its formula deserves: it carries the fitness and the size that the
formula has, and the formula fits the dataset without a reference to the target. -/
structure IsSound (d : Dataset) (candidate : Candidate) : Prop where
  fitness : candidate.fitness = candidate.formula.fitness d
  size : candidate.size = candidate.formula.root.size
  valid : candidate.formula.validate d = .ok ()
  fields : ∀ name ∈ candidate.formula.root.fields, name ∈ d.inputs ∧ name ≠ d.target

theorem isSound_scored {d : Dataset} {f : Formula} (h : f.root.Fits d) :
    (scored f d).IsSound d where
  fitness := rfl
  size := rfl
  valid := Expr.validate_eq_ok_iff.mpr h
  fields name hname := ⟨h name hname, Dataset.ne_target_of_mem_inputs (h name hname)⟩

theorem IsSound.fits {d : Dataset} {candidate : Candidate} (h : candidate.IsSound d) :
    candidate.formula.root.Fits d := fun name hname => (h.fields name hname).1

end Candidate

namespace Climb

variable {σ : Type}

/-- What holds of a climb on a dataset with a configuration, after generations with the given
outcomes. -/
structure Invariant (d : Dataset) (config : Config) (outcomes : List Outcome)
    (climb : Climb σ) : Prop where
  dataset : climb.context.dataset = d
  parameters : climb.context.parameters = config.mutation
  reportInterval : climb.reportInterval = config.reportInterval
  best : climb.best.IsSound d
  generation : climb.generation = outcomes.length
  successes : climb.successes = outcomes.count .accepted

theorem Invariant.successes_le {d : Dataset} {config : Config} {outcomes : List Outcome}
    {climb : Climb σ} (h : climb.Invariant d config outcomes) :
    climb.successes ≤ climb.generation := by
  rw [h.successes, h.generation]
  exact List.count_le_length

variable [WordSource σ]

/-- A generation draws a candidate and settles what becomes of it. -/
theorem step_eq (climb : Climb σ) :
    climb.step =
      (fun drawn => climb.settle (.scored drawn.1 climb.context.dataset) drawn.2) <$>
        climb.best.formula.mutate climb.context climb.source := by
  unfold Climb.step
  cases climb.best.formula.mutate climb.context climb.source <;> rfl

/-- Generations are a first one and the others. -/
theorem steps_succ_eq (n : ℕ) (climb : Climb σ) :
    climb.steps (n + 1) = climb.step >>= fun next =>
      (fun last => (last.1, next.2 :: last.2)) <$> next.1.steps n := by
  rw [Climb.steps]
  cases climb.step with
  | error e => rfl
  | ok next =>
    obtain ⟨middle, outcome⟩ := next
    change _ = (fun last => (last.1, outcome :: last.2)) <$> middle.steps n
    cases rest : middle.steps n <;> simp only [rest] <;> rfl

theorem exists_of_step {climb climb' : Climb σ} {outcome : Outcome}
    (run : climb.step = .ok (climb', outcome)) :
    ∃ formula source,
      climb.best.formula.mutate climb.context climb.source = .ok (formula, source) ∧
        climb.settle (.scored formula climb.context.dataset) source = (climb', outcome) := by
  rw [step_eq] at run
  cases drawn : climb.best.formula.mutate climb.context climb.source with
  | error e =>
    rw [drawn] at run
    cases run
  | ok result =>
    rw [drawn] at run
    exact ⟨result.1, result.2, rfl, Except.ok.inj run⟩

theorem exists_of_steps_succ {n : ℕ} {climb last : Climb σ} {outcomes : List Outcome}
    (run : climb.steps (n + 1) = .ok (last, outcomes)) :
    ∃ middle outcome rest, climb.step = .ok (middle, outcome) ∧
      middle.steps n = .ok (last, rest) ∧ outcomes = outcome :: rest := by
  rw [steps_succ_eq] at run
  cases first : climb.step with
  | error e =>
    rw [first] at run
    cases run
  | ok next =>
    rw [first] at run
    change (fun last => (last.1, next.2 :: last.2)) <$> next.1.steps n = _ at run
    cases tail : next.1.steps n with
    | error e =>
      rw [tail] at run
      cases run
    | ok result =>
      rw [tail] at run
      obtain ⟨rfl, rfl⟩ := Prod.mk.inj (Except.ok.inj run)
      exact ⟨next.1, next.2, result.2, rfl, tail, rfl⟩

/-- Generations that fail do so in one of them, and those before it take place. -/
theorem exists_of_steps_error {climb : Climb σ} {n : ℕ} {e : DrawError}
    (failed : climb.steps n = .error e) :
    ∃ k < n, ∃ middle outcomes,
      climb.steps k = .ok (middle, outcomes) ∧ middle.step = .error e := by
  induction n generalizing climb with
  | zero => cases failed
  | succ n ih =>
    rw [steps_succ_eq] at failed
    cases first : climb.step with
    | error e' =>
      rw [first] at failed
      cases failed
      exact ⟨0, n.succ_pos, climb, [], rfl, first⟩
    | ok next =>
      rw [first] at failed
      change (fun last => (last.1, next.2 :: last.2)) <$> next.1.steps n = _ at failed
      cases others : next.1.steps n with
      | ok result =>
        rw [others] at failed
        cases failed
      | error e' =>
        rw [others] at failed
        cases failed
        obtain ⟨k, lt, middle, outcomes, before, stuck⟩ := ih others
        refine ⟨k + 1, Nat.succ_lt_succ lt, middle, next.2 :: outcomes, ?_, stuck⟩
        rw [steps_succ_eq, first]
        change (fun last => (last.1, next.2 :: last.2)) <$> next.1.steps k = _
        rw [before]
        rfl

theorem context_of_step {climb climb' : Climb σ} {outcome : Outcome}
    (run : climb.step = .ok (climb', outcome)) : climb'.context = climb.context := by
  obtain ⟨formula, source, -, settled⟩ := exists_of_step run
  unfold settle at settled
  split_ifs at settled <;> cases settled <;> rfl

/-- No number of generations changes the dataset or the parameters. -/
theorem context_of_steps {n : ℕ} {climb last : Climb σ} {outcomes : List Outcome}
    (run : climb.steps n = .ok (last, outcomes)) : last.context = climb.context := by
  induction n generalizing climb outcomes with
  | zero =>
    obtain ⟨rfl, -⟩ := Prod.mk.inj (Except.ok.inj run)
    rfl
  | succ n ih =>
    obtain ⟨middle, outcome, rest, first, tail, -⟩ := exists_of_steps_succ run
    exact (ih tail).trans (context_of_step first)

/-- One generation keeps the invariant and adds its outcome to those before it. -/
theorem Invariant.step {d : Dataset} {config : Config} {outcomes : List Outcome}
    {climb climb' : Climb σ} {outcome : Outcome} (h : climb.Invariant d config outcomes)
    (run : climb.step = .ok (climb', outcome)) :
    climb'.Invariant d config (outcomes ++ [outcome]) := by
  obtain ⟨formula, source, drawn, settled⟩ := exists_of_step run
  have fits : formula.root.Fits d := by
    have best := h.best.fits
    rw [← h.dataset] at best ⊢
    exact (Formula.yields_mutate (closed_fits _) (admits_all _) best).ok drawn
  rw [h.dataset, settle] at settled
  split_ifs at settled
  · obtain ⟨rfl, rfl⟩ := Prod.mk.inj settled
    refine ⟨h.dataset, h.parameters, h.reportInterval, Candidate.isSound_scored fits, ?_, ?_⟩
    · simp [h.generation]
    · simp [h.successes]
  · obtain ⟨rfl, rfl⟩ := Prod.mk.inj settled
    refine ⟨h.dataset, h.parameters, h.reportInterval, h.best, ?_, ?_⟩
    · simp [h.generation]
    · simp [h.successes]

/-- Any number of generations keeps the invariant. -/
theorem Invariant.steps {d : Dataset} {config : Config} {before outcomes : List Outcome} {n : ℕ}
    {climb climb' : Climb σ} (h : climb.Invariant d config before)
    (run : climb.steps n = .ok (climb', outcomes)) :
    climb'.Invariant d config (before ++ outcomes) := by
  induction n generalizing climb before outcomes with
  | zero =>
    obtain ⟨rfl, rfl⟩ := Prod.mk.inj (Except.ok.inj run)
    rwa [List.append_nil]
  | succ n ih =>
    obtain ⟨middle, outcome, rest, first, tail, rfl⟩ := exists_of_steps_succ run
    have := ih (h.step first) tail
    rwa [List.append_assoc, List.singleton_append] at this

theorem length_of_steps {n : ℕ} {climb climb' : Climb σ} {outcomes : List Outcome}
    (run : climb.steps n = .ok (climb', outcomes)) : outcomes.length = n := by
  induction n generalizing climb outcomes with
  | zero =>
    obtain ⟨-, rfl⟩ := Prod.mk.inj (Except.ok.inj run)
    rfl
  | succ n ih =>
    obtain ⟨middle, outcome, rest, -, tail, rfl⟩ := exists_of_steps_succ run
    rw [List.length_cons, ih tail]

/-- Generations may be interrupted: the first ones come to a climb from which the others go on. -/
theorem steps_split {m n : ℕ} {climb last : Climb σ} {outcomes : List Outcome}
    (run : climb.steps (m + n) = .ok (last, outcomes)) :
    ∃ middle, climb.steps m = .ok (middle, outcomes.take m) ∧
      middle.steps n = .ok (last, outcomes.drop m) := by
  induction m generalizing climb outcomes with
  | zero =>
    rw [Nat.zero_add] at run
    exact ⟨climb, rfl, run⟩
  | succ m ih =>
    rw [Nat.succ_add] at run
    obtain ⟨next, outcome, rest, first, tail, rfl⟩ := exists_of_steps_succ run
    obtain ⟨middle, before, after⟩ := ih tail
    refine ⟨middle, ?_, after⟩
    rw [steps_succ_eq, first]
    change _ <$> next.steps m = _
    rw [before]
    rfl

theorem contextOf_eq_ok {d : Dataset} {config : Config} (h : config.validate = .ok ()) :
    ∃ c, contextOf d config = .ok c ∧ c.dataset = d ∧ c.parameters = config.mutation := by
  have valid : config.mutation.validate = .ok () := by
    unfold Config.validate at h
    split_ifs at h
    split at h
    next ok => exact ok
    next => cases h
  have built : Context.build d config.mutation = .ok ⟨d, config.mutation, valid⟩ :=
    Context.build_eq ⟨d, config.mutation, valid⟩
  refine ⟨⟨d, config.mutation, valid⟩, ?_, rfl, rfl⟩
  rw [contextOf, h, built]

/-- The first formula fits the dataset. Only a random one can fail to come about. -/
theorem firstFormula_spec {c : Context} (source : σ) {first : Option Formula}
    (h : ∀ f, first = some f → f.validate c.dataset = .ok ()) :
    (first = none ∧ ∃ e, firstFormula c source first = .error (.draw e)) ∨
      ∃ f source', firstFormula c source first = .ok (f, source') ∧ f.root.Fits c.dataset := by
  cases first with
  | some f =>
    have valid := h f rfl
    refine .inr ⟨f, source, ?_, Expr.validate_eq_ok_iff.mp valid⟩
    rw [firstFormula, valid]
  | none =>
    cases run : Formula.random c source with
    | error e => exact .inl ⟨rfl, e, by rw [firstFormula, run]⟩
    | ok result =>
      refine .inr ⟨result.1, result.2, by rw [firstFormula, run], ?_⟩
      exact (Formula.yields_random (closed_fits c) (admits_all c)).ok run

/-- A climb starts with the invariant. -/
theorem start_spec {d : Dataset} {config : Config} (source : σ) {first : Option Formula}
    (hconfig : config.validate = .ok ()) (hfirst : ∀ f, first = some f → f.validate d = .ok ()) :
    (first = none ∧ ∃ e, start d config source first = .error (.draw e)) ∨
      ∃ climb, start d config source first = .ok climb ∧ climb.Invariant d config [] := by
  obtain ⟨c, context, rfl, parameters⟩ := contextOf_eq_ok (d := d) hconfig
  rcases firstFormula_spec source hfirst with ⟨absent, e, failed⟩ | ⟨f, rest, ok, fits⟩
  · exact .inl ⟨absent, e, by simp only [start, context, failed]⟩
  · refine .inr ⟨⟨c, config.reportInterval, rest, .scored f c.dataset, 0, 0⟩, ?_, ?_⟩
    · simp only [start, context, ok]
    · exact ⟨rfl, parameters, rfl, Candidate.isSound_scored fits, rfl, rfl⟩

/-- A climb that has started was given a sensible configuration, and a formula that fits. -/
theorem validate_of_start {d : Dataset} {config : Config} {source : σ} {first : Option Formula}
    {climb : Climb σ} (started : start d config source first = .ok climb) :
    config.validate = .ok () ∧ ∀ f, first = some f → f.validate d = .ok () := by
  have valid : config.validate = .ok () := by
    cases checked : config.validate with
    | ok => rfl
    | error e =>
      rw [start, contextOf, checked] at started
      cases started
  refine ⟨valid, ?_⟩
  rintro f rfl
  obtain ⟨c, context, rfl, -⟩ := contextOf_eq_ok (d := d) valid
  cases checked : f.validate c.dataset with
  | ok => rfl
  | error e =>
    simp only [start, context, firstFormula, checked] at started
    cases started

/-- A climb that has started has the invariant. -/
theorem invariant_of_start {d : Dataset} {config : Config} {source : σ} {first : Option Formula}
    {climb : Climb σ} (started : start d config source first = .ok climb) :
    climb.Invariant d config [] := by
  obtain ⟨valid, fits⟩ := validate_of_start started
  obtain ⟨-, e, failed⟩ | ⟨climb', started', initial⟩ := start_spec source valid fits
  · rw [failed] at started
    cases started
  · rw [started'] at started
    cases started
    exact initial

theorem context_of_start {d : Dataset} {config : Config} {source : σ} {first : Option Formula}
    {climb : Climb σ} {c : Context} (started : start d config source first = .ok climb)
    (context : contextOf d config = .ok c) : climb.context = c := by
  simp only [start, context] at started
  split at started
  · cases started
  · cases started
    rfl

/-- A climb from a given formula holds that formula first. -/
theorem best_of_start_some {d : Dataset} {config : Config} {source : σ} {f : Formula}
    {climb : Climb σ} (started : start d config source (some f) = .ok climb) :
    climb.best = .scored f d := by
  unfold start at started
  split at started
  · cases started
  next c context =>
    cases valid : f.validate c.dataset with
    | error e =>
      rw [firstFormula, valid] at started
      cases started
    | ok =>
      rw [firstFormula, valid] at started
      cases started
      rfl

/-- On nothing but zeros, a climb from a single input accepts a literal at once, and then
rejects. -/
theorem steps_of_zeros :
    ∃ climb last, start Dataset.sample Config.standard (Script.ofWords #[])
        (some ⟨.input "first"⟩) = .ok climb ∧
      climb.steps 2 = .ok (last, [.accepted, .rejected]) := by
  have ran : (match start Dataset.sample Config.standard (Script.ofWords #[])
        (some ⟨.input "first"⟩) with
      | .ok climb => (climb.steps 2).map Prod.snd
      | .error _ => .error .tooDeep) = .ok [.accepted, .rejected] := by decide +kernel
  split at ran
  next climb started =>
    cases twice : climb.steps 2 with
    | error e =>
      rw [twice] at ran
      cases ran
    | ok result =>
      obtain ⟨last, outcomes⟩ := result
      rw [twice] at ran
      obtain rfl : outcomes = [.accepted, .rejected] := Except.ok.inj ran
      exact ⟨climb, last, started, twice⟩
  · cases ran

/-- However a climb was started and however many generations it has been through, its best
candidate carries the fitness and the size of its formula, which fits the dataset and never refers
to the target; it has counted its generations, and as successes those whose candidate was
accepted. -/
theorem best_is_sound_after_steps (d : Dataset) (config : Config) (source : σ)
    (first : Option Formula) (hconfig : config.validate = .ok ())
    (hfirst : ∀ f, first = some f → f.validate d = .ok ()) :
    (first = none ∧ ∃ e, start d config source first = .error (.draw e)) ∨
      ∃ climb, start d config source first = .ok climb ∧
        ∀ n climb' outcomes, climb.steps n = .ok (climb', outcomes) →
          climb'.best.fitness = climb'.best.formula.fitness d ∧
          climb'.best.size = climb'.best.formula.root.size ∧
          climb'.best.formula.validate d = .ok () ∧
          (∀ name ∈ climb'.best.formula.root.fields, name ∈ d.inputs ∧ name ≠ d.target) ∧
          outcomes.length = n ∧
          climb'.generation = n ∧
          climb'.successes = outcomes.count .accepted ∧
          climb'.successes ≤ climb'.generation := by
  obtain failed | ⟨climb, started, initial⟩ := start_spec source hconfig hfirst
  · exact .inl failed
  refine .inr ⟨climb, started, fun n climb' outcomes run => ?_⟩
  have length := length_of_steps run
  have final := initial.steps run
  rw [List.nil_append] at final
  exact ⟨final.best.fitness, final.best.size, final.best.valid, final.best.fields, length,
    final.generation.trans length, final.successes, final.successes_le⟩

/-- Two generations on the built-in dataset, from a single input and on nothing but zeros. -/
theorem best_is_sound_after_steps_sample :
    Config.standard.validate = .ok () ∧
      (⟨.input "first"⟩ : Formula).validate Dataset.sample = .ok () ∧
      ∃ climb last, start Dataset.sample Config.standard (Script.ofWords #[])
          (some ⟨.input "first"⟩) = .ok climb ∧
        climb.steps 2 = .ok (last, [.accepted, .rejected]) ∧
        last.best.fitness = last.best.formula.fitness Dataset.sample ∧
        last.best.size = last.best.formula.root.size ∧
        last.best.formula.validate Dataset.sample = .ok () ∧
        last.generation = 2 ∧ last.successes = 1 := by
  have config : Config.standard.validate = .ok () := by decide
  have formula : (⟨.input "first"⟩ : Formula).validate Dataset.sample = .ok () := by
    decide
  obtain ⟨climb, last, started, twice⟩ := steps_of_zeros
  have h := best_is_sound_after_steps Dataset.sample Config.standard (Script.ofWords #[])
    (some ⟨.input "first"⟩) config (fun f hf => by cases hf; exact formula)
  obtain ⟨absent, -⟩ | ⟨climb', started', all⟩ := h
  · cases absent
  · cases started.symm.trans started'
    obtain ⟨fitness, size, valid, -, -, generation, successes, -⟩ := all 2 last _ twice
    exact ⟨config, formula, climb, last, started, twice, fitness, size, valid, generation,
      successes⟩

end Climb
end SymbolicRegression.Search
