import SymbolicRegression.Search.Run
import SymbolicRegression.Proofs.Search.Invariant
import SymbolicRegression.Proofs.Search.Requests

/-!
# What a run does

A run goes through the same generations as a climb without reports and polls, and ends behind the
first poll that asks to stop. What it tells its reporter can be read off the course of the climb:
the first status, then that of every generation which accepts its candidate or whose number is a
multiple of the interval.
-/
namespace SymbolicRegression.Search

/-- The state of a reporter that has been told statuses, one after the other. -/
def Reporter.tell {ρ : Type} (reporter : Reporter ρ) (state : ρ) (statuses : List Status) : ρ :=
  statuses.foldl (fun state status => reporter.report status state) state

theorem Reporter.tell_append {ρ : Type} (reporter : Reporter ρ) (state : ρ)
    (before after : List Status) :
    reporter.tell state (before ++ after) = reporter.tell (reporter.tell state before) after :=
  List.foldl_append

namespace Climb

variable {σ ρ : Type} [WordSource σ]

/-- The first generations of a climb, counted from one: `state g` is the climb behind generation
`g`, and `outcome g` what became of its candidate. -/
structure Course (climb : Climb σ) (generations : ℕ) (state : ℕ → Climb σ)
    (outcome : ℕ → Outcome) : Prop where
  start : state 0 = climb
  step : ∀ g < generations, (state g).step = .ok (state (g + 1), outcome (g + 1))

/-- Generations that take place have a course. -/
theorem exists_course {climb last : Climb σ} {n : ℕ} {outcomes : List Outcome}
    (run : climb.steps n = .ok (last, outcomes)) :
    ∃ state outcome, climb.Course n state outcome ∧ state n = last ∧
      (List.range' 1 n).map outcome = outcomes := by
  induction n generalizing climb outcomes with
  | zero =>
    obtain ⟨rfl, rfl⟩ := Prod.mk.inj (Except.ok.inj run)
    exact ⟨fun _ => climb, fun _ => .rejected, ⟨rfl, fun _ lt => nomatch lt⟩, rfl, rfl⟩
  | succ n ih =>
    obtain ⟨middle, first, rest, began, tail, rfl⟩ := exists_of_steps_succ run
    obtain ⟨state, outcome, course, rfl, rfl⟩ := ih tail
    -- the course of the others, put off by one generation
    refine ⟨fun g => if g = 0 then climb else state (g - 1),
      fun g => if g = 1 then first else outcome (g - 1), ⟨rfl, fun g lt => ?_⟩, rfl, ?_⟩
    · cases g with
      | zero => simpa [course.start] using began
      | succ g => simpa using course.step g (Nat.lt_of_succ_lt_succ lt)
    · rw [List.range'_succ, List.map_cons, if_pos rfl, List.range'_eq_map_range,
        List.range'_eq_map_range, List.map_map, List.map_map]
      congr 1
      refine List.map_congr_left fun g _ => ?_
      simp only [Function.comp_apply]
      rw [if_neg (by omega)]
      congr 1
      omega

/-- The statuses that are reported of so many generations: that of the start, and those behind the
generations that accept or that are due. -/
def reports (interval : UInt64) (state : ℕ → Climb σ) (outcome : ℕ → Outcome)
    (generations : ℕ) : List Status :=
  (state 0).status ::
    ((List.range' 1 generations).filter fun g =>
      outcome g = .accepted ∨ interval.toNat ∣ g).map fun g => (state g).status

omit [WordSource σ] in
theorem reports_succ (interval : UInt64) (state : ℕ → Climb σ) (outcome : ℕ → Outcome) (g : ℕ) :
    reports interval state outcome (g + 1) = reports interval state outcome g ++
      if outcome (g + 1) = .accepted ∨ interval.toNat ∣ g + 1 then [(state (g + 1)).status]
      else [] := by
  simp only [reports, List.range'_1_concat, List.filter_append, List.map_append, List.cons_append,
    List.filter_cons, List.filter_nil, Nat.add_comm 1 g]
  by_cases due : outcome (g + 1) = .accepted ∨ interval.toNat ∣ g + 1
  · simp [due]
  · simp [due]

namespace Course

variable {d : Dataset} {config : Config} {climb : Climb σ} {k : ℕ} {state : ℕ → Climb σ}
  {outcome : ℕ → Outcome}

theorem invariant (course : climb.Course k state outcome) (h : climb.Invariant d config [])
    {g : ℕ} (le : g ≤ k) : (state g).Invariant d config ((List.range' 1 g).map outcome) := by
  induction g with
  | zero =>
    rw [course.start]
    exact h
  | succ g ih =>
    rw [List.range'_1_concat, List.map_append, Nat.add_comm 1 g]
    exact (ih (Nat.le_of_succ_le le)).step (course.step g le)

theorem generation_eq (course : climb.Course k state outcome) (h : climb.Invariant d config [])
    {g : ℕ} (le : g ≤ k) : (state g).generation = g := by
  rw [(course.invariant h le).generation, List.length_map, List.length_range']

/-- A generation is reported if it accepts or is due. -/
theorem isReported_iff (course : climb.Course k state outcome) (h : climb.Invariant d config [])
    {g : ℕ} (le : g ≤ k) :
    (state g).isReported (outcome g) = true ↔
      outcome g = .accepted ∨ config.reportInterval.toNat ∣ g := by
  rw [isReported, course.generation_eq h le, (course.invariant h le).reportInterval,
    Bool.or_eq_true, decide_eq_true_iff, decide_eq_true_iff, Nat.dvd_iff_mod_eq_zero]

end Course

section Round

variable (reporter : Reporter ρ) (initial : ρ) (interval : UInt64) (state : ℕ → Climb σ)
  (outcome : ℕ → Outcome)

/-- The state of a reporter behind so many generations. -/
def told (generations : ℕ) : ρ :=
  reporter.tell initial (reports interval state outcome generations)

/-- The tokens that the reporter has raised by the poll behind so many generations. -/
def raisedBy (generations : ℕ) : String → Bool :=
  reporter.raised (told reporter initial interval state outcome generations)

end Round

variable {d : Dataset} {config : Config} {climb : Climb σ} {k : ℕ} {state : ℕ → Climb σ}
  {outcome : ℕ → Outcome} (reporter : Reporter ρ) (stop : StopSource) (initial : ρ)

theorem Course.told_succ (course : climb.Course k state outcome)
    (h : climb.Invariant d config []) {g : ℕ} (lt : g < k) :
    told reporter initial config.reportInterval state outcome (g + 1) =
      if (state (g + 1)).isReported (outcome (g + 1)) then
        reporter.report (state (g + 1)).status
          (told reporter initial config.reportInterval state outcome g)
      else told reporter initial config.reportInterval state outcome g := by
  rw [told, reports_succ, Reporter.tell_append]
  by_cases due : outcome (g + 1) = .accepted ∨ config.reportInterval.toNat ∣ g + 1
  · rw [if_pos due, if_pos ((course.isReported_iff h lt).mpr due)]
    rfl
  · rw [if_neg due, if_neg (mt (course.isReported_iff h lt).mp due)]
    rfl

/-- One round of a run: a generation, its report if there is one, and a poll. -/
theorem Course.runFrom_succ (course : climb.Course k state outcome)
    (h : climb.Invariant d config []) {g : ℕ} (lt : g < k) (rounds : ℕ) :
    let told := told reporter initial config.reportInterval state outcome
    let raised := raisedBy reporter initial config.reportInterval state outcome
    runFrom reporter (rounds + 1) (state g) (stop.polled raised g) (told g) =
      if stop.answer raised (g + 1) then
        .ok (state (g + 1), stop.polled raised (g + 1), told (g + 1))
      else runFrom reporter rounds (state (g + 1)) (stop.polled raised (g + 1)) (told (g + 1)) := by
  intro told raised
  have reported : (if (state (g + 1)).isReported (outcome (g + 1)) then
      reporter.report (state (g + 1)).status (told g) else told g) = told (g + 1) :=
    (course.told_succ reporter initial h lt).symm
  rw [runFrom, course.step g lt]
  simp only [reported]
  rfl

/-- As long as no poll asks to stop, a run goes on round by round. -/
theorem Course.runFrom_eq (course : climb.Course k state outcome)
    (h : climb.Invariant d config []) {g : ℕ} (le : g ≤ k) (rounds : ℕ) :
    let told := told reporter initial config.reportInterval state outcome
    let raised := raisedBy reporter initial config.reportInterval state outcome
    (∀ j ≤ g, stop.answer raised j = false) →
      runFrom reporter (g + rounds) climb stop (reporter.report climb.status initial) =
        runFrom reporter rounds (state g) (stop.polled raised g) (told g) := by
  intro told raised quiet
  induction g generalizing rounds with
  | zero =>
    rw [Nat.zero_add, course.start]
    simp only [told, Climb.told, reports, course.start]
    rfl
  | succ g ih =>
    -- the rounds of the hypothesis are one more here, and that one is the round of `g + 1`
    rw [Nat.add_right_comm, Nat.add_assoc,
      ih (Nat.le_of_succ_le le) (rounds + 1) fun j before => quiet j (before.trans g.le_succ),
      course.runFrom_succ reporter stop initial h le rounds, if_neg]
    exact Bool.eq_false_iff.mp (quiet (g + 1) le_rfl)

/-- A run ends behind the first poll that asks to stop. -/
theorem Course.runFrom_of_firstRequest (course : climb.Course k state outcome)
    (h : climb.Invariant d config []) :
    let told := told reporter initial config.reportInterval state outcome
    let raised := raisedBy reporter initial config.reportInterval state outcome
    stop.firstRequest raised = k → ∀ n ≥ k,
      runFrom reporter n climb stop (reporter.report climb.status initial) =
        .ok (state k, stop.polled raised k, told k) := by
  intro told raised first n enough
  obtain ⟨asks, quiet⟩ := firstPosition_eq_iff.mp first
  obtain ⟨rounds, rfl⟩ := Nat.exists_eq_add_of_le enough
  cases k with
  | zero => cases asks
  | succ g =>
    rw [Nat.add_assoc, Nat.add_comm 1 rounds, course.runFrom_eq reporter stop initial h g.le_succ,
      course.runFrom_succ reporter stop initial h g.lt_succ_self, if_pos asks]
    intro j le
    exact quiet j (Nat.lt_succ_of_le le)

/-- A run comes to nothing if no poll asks to stop in time, or if no candidate can be drawn. -/
theorem Course.run_of_lt_firstRequest (course : climb.Course k state outcome)
    (h : climb.Invariant d config []) :
    let raised := raisedBy reporter initial config.reportInterval state outcome
    k < stop.firstRequest raised →
      run reporter k climb stop initial = .error .unfinished ∧
      ∀ e, (state k).step = .error e → ∀ n > k,
        run reporter n climb stop initial = .error (.draw e) := by
  intro raised later
  have quiet : ∀ j ≤ k, stop.answer raised j = false := lt_firstPosition_iff.mp later
  constructor
  · have ran := course.runFrom_eq reporter stop initial h le_rfl 0 quiet
    rw [Nat.add_zero, runFrom] at ran
    rw [run, ran]
  · intro e failed n more
    obtain ⟨rounds, rfl⟩ := Nat.exists_eq_add_of_lt more
    have ran := course.runFrom_eq reporter stop initial h le_rfl (rounds + 1) quiet
    rw [runFrom, failed] at ran
    rw [run, Nat.add_assoc, ran]

/-- A run takes the generations of its climb up to the first poll that asks to stop, polls once
behind each of them, and comes to the climb behind the last one, whatever its reporter and its
interval are. The reporter is told the first status and those of the generations that accept or are
due, in this order, and nothing else. The poll that asks first can be told from the parts of a
source. -/
theorem run_of_firstRequest {source : σ} {first : Option Formula}
    (started : start d config source first = .ok climb) (course : climb.Course k state outcome) :
    let told := told reporter initial config.reportInterval state outcome
    let raised := raisedBy reporter initial config.reportInterval state outcome
    (stop.firstRequest raised = k →
      (state k).generation = k ∧
      ∀ n ≥ k, runFrom reporter n climb stop (reporter.report climb.status initial) =
          .ok (state k, stop.polled raised k, told k) ∧
        run reporter n climb stop initial = .ok (state k, told k)) ∧
    (k < stop.firstRequest raised →
      run reporter k climb stop initial = .error .unfinished ∧
      ∀ e, (state k).step = .error e → ∀ n > k,
        run reporter n climb stop initial = .error (.draw e)) ∧
    ∀ raised : ℕ → String → Bool,
      (∀ stop : StopSource, 1 ≤ stop.firstRequest raised) ∧
      (∀ n, (StopSource.limit n).firstRequest raised = max 1 n.toNat) ∧
      StopSource.absent.firstRequest raised = ⊤ ∧
      (∀ stop, (StopSource.present stop).firstRequest raised = stop.firstRequest raised) ∧
      (∀ a b, (StopSource.either a b).firstRequest raised =
        min (a.firstRequest raised) (b.firstRequest raised)) ∧
      ∀ sequence m, (StopSource.answers sequence 0).firstRequest raised = (m + 1 : ℕ) ↔
        sequence m = true ∧ ∀ j < m, sequence j = false := by
  intro told raised
  have initially := invariant_of_start started
  refine ⟨fun ends => ?_, course.run_of_lt_firstRequest reporter stop initial initially, ?_⟩
  · refine ⟨course.generation_eq initially le_rfl, fun n enough => ?_⟩
    have ran := course.runFrom_of_firstRequest reporter stop initial initially ends n enough
    refine ⟨ran, ?_⟩
    rw [run, ran]
  · intro raised
    exact ⟨StopSource.one_le_firstRequest, StopSource.firstRequest_limit,
      StopSource.firstRequest_absent, StopSource.firstRequest_present,
      StopSource.firstRequest_either, fun sequence _ =>
        StopSource.firstRequest_answers_eq_iff sequence⟩

/-- A run of two generations, the first of which accepts, reports to a list. -/
theorem run_of_firstRequest_zeros :
    ∃ climb last statuses,
      start Dataset.sample Config.standard (Script.ofWords #[]) (some ⟨.input "first"⟩)
        = .ok climb ∧
      climb.steps 2 = .ok (last, [.accepted, .rejected]) ∧
      statuses.map Status.generation = [0, 1] ∧
      ∀ n ≥ 2, run ⟨fun status told => told ++ [status], fun _ _ => false⟩ n climb
        (.either (.limit 3) (.present (.limit 2))) [] = .ok (last, statuses) := by
  obtain ⟨climb, last, started, twice⟩ := steps_of_zeros
  obtain ⟨state, outcome, course, rfl, outcomes⟩ := exists_course twice
  have initially := invariant_of_start started
  let logger : Reporter (List Status) := ⟨fun status told => told ++ [status], fun _ _ => false⟩
  have two (raised : ℕ → String → Bool) :
      (StopSource.either (.limit 3) (.present (.limit 2))).firstRequest raised = (2 : ℕ) := by
    rw [StopSource.firstRequest_either, StopSource.firstRequest_present,
      StopSource.firstRequest_limit, StopSource.firstRequest_limit]
    rfl
  obtain ⟨ends, -⟩ := run_of_firstRequest logger (.either (.limit 3) (.present (.limit 2))) []
    started course
  obtain ⟨-, ran⟩ := ends (two _)
  refine ⟨climb, state 2, _, started, twice, ?_, fun n enough => (ran n enough).2⟩
  obtain ⟨accepted, rejected⟩ : outcome 1 = .accepted ∧ outcome 2 = .rejected := by
    simpa [List.range'_succ] using outcomes
  have all : told logger [] Config.standard.reportInterval state outcome 2 =
      [(state 0).status, (state 1).status] := by
    simp [told, Reporter.tell, reports, logger, List.range'_succ, accepted, rejected,
      Config.standard]
  rw [all, List.map_cons, List.map_cons, status, status,
    course.generation_eq initially (Nat.zero_le 2), course.generation_eq initially one_le_two,
    List.map_nil]

end Climb
end SymbolicRegression.Search
