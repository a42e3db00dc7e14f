import SymbolicRegression.Proofs.CommandLine.Keyboard
import SymbolicRegression.Proofs.CommandLine.Saving

/-!
# What a search finds and saves

A search loads what it is given, climbs, and saves the best formula. What it comes to is a function
of what it loads, of the seed, of the limit and of the keyboard; the surroundings change only by
what is saved and by what is said. Both outputs are made from one result, the one that plain
generations come to.
-/
namespace SymbolicRegression.CommandLine

open Search Json

/-- The formula to start from, if one is given and can be used. -/
def givenStart (options : SolveOptions) (d : Dataset) : InFolder (Option Formula) :=
  match options.start with
  | some path => loadFirstFormula d path
  | none => pure none

theorem isLoading_givenStart (options : SolveOptions) (d : Dataset) :
    IsLoading (givenStart options d) := by
  unfold givenStart
  split
  · exact isLoading_loadFirstFormula d _
  · exact isLoading_pure _

/-- The seed of a search in given surroundings. -/
def seedOf (options : SolveOptions) (w : Surroundings) : UInt64 := options.seed.getD w.seed

/-- What a search loads: the dataset, the configuration, and the formula to start from. -/
def loaded (options : SolveOptions) (w : Surroundings) :
    Except Failure (Dataset × Config × Option Formula) := do
  let d ← (loadDataset (m := InFolder) options.dataset w).1
  let config ← (loadConfig (m := InFolder) options.config w).1
  pure (d, config, (givenStart options d w).1)

theorem loads_of_loaded {options : SolveOptions} {w : Surroundings} {d : Dataset} {config : Config}
    {first : Option Formula} (h : loaded options w = .ok (d, config, first)) :
    (loadDataset (m := InFolder) options.dataset w).1 = .ok d ∧
      (loadConfig (m := InFolder) options.config w).1 = .ok config ∧
      (givenStart options d w).1 = first := by
  obtain ⟨d', dataset, h⟩ := ok_of_bind h
  obtain ⟨config', configuration, h⟩ := ok_of_bind h
  cases h
  exact ⟨dataset, configuration, rfl⟩

/-- What watching a keyboard comes to. -/
def watched (limit : Option UInt64) : Keyboard → Except Failure (Option Watcher)
  | .watched watcher => .ok (some watcher)
  | .unavailable reason =>
    if limit.isSome then .ok none
    else
      .error ⟨"Failed to read the keyboard; pass --max-generations to run without it", [reason]⟩

theorem keyboard_run (w : Surroundings) :
    (Workplace.keyboard : InFolder Keyboard) w = (w.keyboard, w) := rfl

theorem err_run (s : String) (w : Surroundings) :
    (Workplace.err s : InFolder Unit) w = ((), { w with err := w.err ++ s }) := rfl

theorem watch_run (limit : Option UInt64) {w w' : Surroundings} (same : w.Alike w') :
    ∃ w'', w.Alike w'' ∧ watch (m := InFolder) limit w' = (watched limit w.keyboard, w'') := by
  have keyboard : w'.keyboard = w.keyboard := by rw [same]
  unfold watch watched
  rw [bind_run, keyboard_run, keyboard]
  cases w.keyboard with
  | watched watcher => exact ⟨w', same, rfl⟩
  | unavailable reason =>
    dsimp only
    split_ifs
    · exact ⟨_, same.trans (w'.alike_err _), rfl⟩
    · exact ⟨w', same, rfl⟩

/-- The climb of a search that has loaded everything, when it ends. -/
def climbed (options : SolveOptions) (d : Dataset) (config : Config) (first : Option Formula)
    (w : Surroundings) : Except Trouble (Climb Pcg) :=
  match Climb.start d config (Pcg.ofSeed (seedOf options w)) first with
  | .error (.setup e) => .error (.failure (setupFailure e))
  | .error (.draw e) => .error (.crash (.draw e))
  | .ok climb =>
    match watched options.maxGenerations w.keyboard with
    | .error f => .error (.failure f)
    | .ok watcher => ended climb options.maxGenerations watcher

/-- The climb of a search when it ends. -/
def found (options : SolveOptions) (w : Surroundings) : Except Trouble (Climb Pcg) :=
  match loaded options w with
  | .error f => .error (.failure f)
  | .ok (d, config, first) => climbed options d config first w

/-- Saves what has been found, if anything has. -/
def saveFound (options : SolveOptions) (seed : UInt64) (climb : Except Trouble (Climb Pcg)) :
    InFolder (Except Trouble Unit) := fun w =>
  match climb with
  | .error t => (.error t, w)
  | .ok last =>
    Prod.map (Except.mapError Trouble.failure) id
      (save (m := InFolder) options (savedFormula w.now seed last) w)

/-- What is made of the outcome of saving. -/
theorem report_run (r : Except Failure Unit × Surroundings) :
    (match r.1 with
      | .error f => pure (.error (.failure f))
      | .ok () => pure (.ok ()) : InFolder (Except Trouble Unit)) r.2 =
    Prod.map (Except.mapError Trouble.failure) id r := by
  obtain ⟨f | ⟨⟩, after⟩ := r <;> rfl

theorem climbAndSave_eq (options : SolveOptions) (seed : UInt64) (climb : Climb Pcg)
    (watcher : Option Watcher) (w : Surroundings) :
    ∃ w', w.Alike w' ∧ climbAndSave (m := InFolder) options seed climb watcher w =
      saveFound options seed (ended climb options.maxGenerations watcher) w' := by
  unfold climbAndSave ended
  cases climb.run display (patience options.maxGenerations watcher)
      (stopSource options.maxGenerations watcher) "" with
  | error e => exact ⟨w, rfl, rfl⟩
  | ok result =>
    obtain ⟨last, shown⟩ := result
    dsimp only
    rw [bind_run]
    cases watcher.bind Watcher.stuck with
    | some reason => exact ⟨_, w.alike_err _, rfl⟩
    | none =>
      dsimp only
      rw [bind_run, bind_run, bind_run]
      exact ⟨_, (w.alike_err _).trans (Surroundings.alike_err _ _), report_run _⟩

/-- A search that has loaded everything climbs and saves what it finds. -/
theorem search_run (options : SolveOptions) (d : Dataset) (config : Config)
    (first : Option Formula) (w : Surroundings) :
    ∃ w', w.Alike w' ∧ search (m := InFolder) options d config first w =
      saveFound options (seedOf options w) (climbed options d config first w) w' := by
  have chosen : chosenSeed options w = (seedOf options w, w) := by
    unfold chosenSeed seedOf
    cases options.seed <;> rfl
  rw [search_eq, bind_run, chosen]
  unfold search climbed
  simp only [SolveOptions.withSeed, pure_bind]
  rw [bind_run]
  cases Climb.start d config (Pcg.ofSeed (seedOf options w)) first with
  | error e => cases e <;> exact ⟨_, w.alike_err _, rfl⟩
  | ok climb =>
    dsimp only
    rw [bind_run, bind_run, err_run, err_run]
    obtain ⟨w', alike, watches⟩ := watch_run options.maxGenerations (w.alike_err _)
    dsimp only
    rw [watches]
    dsimp only
    cases watched options.maxGenerations w.keyboard with
    | error f => exact ⟨w', alike, rfl⟩
    | ok watcher =>
      obtain ⟨w'', alike', climbs⟩ := climbAndSave_eq _ (seedOf options w) climb watcher w'
      exact ⟨w'', alike.trans alike', climbs⟩

theorem isBlind_saveFound (options : SolveOptions) (seed : UInt64)
    (climb : Except Trouble (Climb Pcg)) : IsBlind (saveFound options seed climb) := by
  intro w said
  cases climb with
  | error t => exact ⟨rfl, w.alike_err said⟩
  | ok last =>
    obtain ⟨result, after⟩ := isBlind_save options (savedFormula w.now seed last) w said
    exact ⟨congrArg (Except.mapError Trouble.failure) result, after⟩

/-- Once everything has been loaded, the search goes on in surroundings that differ in nothing but
the messages. -/
theorem solve_of_loaded (options : SolveOptions) (w : Surroundings) :
    ∃ w', w.Alike w' ∧ solve (m := InFolder) options w =
      match loaded options w with
      | .error f => (.error (.failure f), w')
      | .ok (d, config, first) => search (m := InFolder) options d config first w' := by
  have after_dataset := (isLoading_loadDataset options.dataset).keeps w
  obtain ⟨config_eq, -⟩ := (isLoading_loadConfig options.config).blind.of_alike after_dataset
  have after_config := after_dataset.trans ((isLoading_loadConfig options.config).keeps _)
  unfold solve loaded
  rw [bind_run]
  cases (loadDataset (m := InFolder) options.dataset w).1 with
  | error f => exact ⟨_, after_dataset, rfl⟩
  | ok d =>
    dsimp only
    rw [bind_run, config_eq]
    cases (loadConfig (m := InFolder) options.config w).1 with
    | error f => exact ⟨_, after_config, rfl⟩
    | ok config =>
      obtain ⟨first_eq, -⟩ := (isLoading_givenStart options d).blind.of_alike after_config
      refine ⟨_, after_config.trans ((isLoading_givenStart options d).keeps _), ?_⟩
      change _ = search (m := InFolder) options d config (givenStart options d w).1 _
      rw [← first_eq]
      unfold givenStart
      cases options.start <;> rfl

/-- A search saves what it finds, in surroundings that differ from the given ones in nothing but
the messages. -/
theorem solve_run (options : SolveOptions) (w : Surroundings) :
    ∃ w', w.Alike w' ∧ solve (m := InFolder) options w =
      saveFound options (seedOf options w) (found options w) w' := by
  obtain ⟨w', alike, solves⟩ := solve_of_loaded options w
  rw [solves]
  unfold found
  cases loaded options w with
  | error f => exact ⟨w', alike, rfl⟩
  | ok result =>
    obtain ⟨d, config, first⟩ := result
    obtain ⟨w'', alike', runs⟩ := search_run options d config first w'
    have seed : seedOf options w' = seedOf options w := by rw [alike]; rfl
    have climb : climbed options d config first w' = climbed options d config first w := by
      rw [alike]
      rfl
    refine ⟨w'', alike.trans alike', ?_⟩
    dsimp only
    rw [runs, seed, climb]

/-- What is found is the climb behind the generations of the search, if these take place and are not
in vain. -/
theorem climbed_eq_ok_iff {options : SolveOptions} {d : Dataset} {config : Config}
    {first : Option Formula} {w : Surroundings} {last : Climb Pcg} :
    climbed options d config first w = .ok last ↔
      ∃ climb watcher outcomes,
        Climb.start d config (Pcg.ofSeed (seedOf options w)) first = .ok climb ∧
        watched options.maxGenerations w.keyboard = .ok watcher ∧
        spoiled options.maxGenerations watcher = none ∧
        climb.steps (generations options.maxGenerations watcher) = .ok (last, outcomes) := by
  unfold climbed
  cases started : Climb.start d config (Pcg.ofSeed (seedOf options w)) first with
  | error e => cases e <;> exact ⟨nofun, fun ⟨_, _, _, same, _⟩ => nomatch same⟩
  | ok climb =>
    cases watched options.maxGenerations w.keyboard with
    | error f => exact ⟨nofun, fun ⟨_, _, _, _, same, _⟩ => nomatch same⟩
    | ok watcher =>
      dsimp only
      rw [ended_eq (Climb.invariant_of_start started)]
      constructor
      · intro ends
        cases ran : climb.steps (generations options.maxGenerations watcher) with
        | error e =>
          rw [ran] at ends
          cases ends
        | ok result =>
          rw [ran] at ends
          cases useful : spoiled options.maxGenerations watcher with
          | some t =>
            rw [useful] at ends
            cases ends
          | none =>
            rw [useful] at ends
            cases ends
            exact ⟨climb, watcher, result.2, rfl, rfl, useful, ran⟩
      · rintro ⟨_, _, outcomes, same, same', useful, ran⟩
        cases same
        cases same'
        rw [ran, useful]

/-- A search with a limit ends behind it, unless a key asks to stop before. -/
theorem exists_toNat_eq_generations {n : UInt64} {keyboard : Keyboard} {watcher : Option Watcher}
    (pos : n ≠ 0) (h : watched (some n) keyboard = .ok watcher) :
    ∃ k : UInt64, k.toNat = generations (some n) watcher ∧
      (k.toNat : ℕ∞) = min (n.toNat : ℕ∞) keyboard.firstRequest := by
  have least : max 1 n.toNat = n.toNat :=
    max_eq_right (Nat.one_le_iff_ne_zero.mpr fun zero => pos (UInt64.toNat_inj.mp zero))
  have last : lastGeneration (some n) watcher = min (n.toNat : ℕ∞) keyboard.firstRequest := by
    rw [lastGeneration, Option.elim_some, least]
    cases keyboard <;> cases h <;> rfl
  have early : lastGeneration (some n) watcher ≤ n.toNat := last ▸ min_le_left _ _
  have taken : (generations (some n) watcher : ℕ∞) = lastGeneration (some n) watcher := by
    rw [generations, patience, least, min_eq_left early,
      ENat.natCast_toNat (lastGeneration_ne_top n watcher)]
  have short : generations (some n) watcher < UInt64.size :=
    (Nat.cast_le.mp (taken.trans_le early)).trans_lt n.toNat_lt
  refine ⟨.ofNat (generations (some n) watcher), UInt64.toNat_ofNat_of_lt' short, ?_⟩
  rw [UInt64.toNat_ofNat_of_lt' short, taken, last]

/-- What a search finds does not depend on the time. -/
theorem found_now (options : SolveOptions) (w : Surroundings) (t : Instant) :
    found options { w with now := t } = found options w := by
  have loads : loaded options { w with now := t } = loaded options w := by
    unfold loaded
    rw [(isLoading_loadDataset options.dataset).reads { w with now := t } w rfl,
      (isLoading_loadConfig options.config).reads { w with now := t } w rfl]
    congr 1
    funext d
    rw [(isLoading_givenStart options d).reads { w with now := t } w rfl]
  unfold found
  rw [loads]
  rfl

/-- What comes of a search is what comes of saving what it finds. -/
theorem solve_result (options : SolveOptions) (w : Surroundings) :
    (solve (m := InFolder) options w).1 =
      match found options w with
      | .error t => .error t
      | .ok last => Except.mapError Trouble.failure
          (save (m := InFolder) options (savedFormula w.now (seedOf options w) last) w).1 := by
  obtain ⟨w', alike, solves⟩ := solve_run options w
  rw [solves]
  have blind := ((isBlind_saveFound options (seedOf options w) (found options w)).of_alike alike).1
  rw [blind]
  cases found options w <;> rfl

/-- A search that succeeds has found something and has saved it. -/
theorem exists_of_solve {options : SolveOptions} {w : Surroundings}
    (done : (solve (m := InFolder) options w).1 = .ok ()) :
    ∃ last said, found options w = .ok last ∧
      save (m := InFolder) options (savedFormula w.now (seedOf options w) last)
        { w with err := said } = (.ok (), (solve (m := InFolder) options w).2) := by
  obtain ⟨w', alike, solves⟩ := solve_run options w
  rw [solves] at done ⊢
  cases ends : found options w with
  | error t =>
    rw [ends] at done
    cases done
  | ok last =>
    rw [ends, alike] at done
    refine ⟨last, w'.err, rfl, ?_⟩
    rw [alike]
    unfold saveFound at done ⊢
    dsimp only at done ⊢
    generalize save (m := InFolder) options (savedFormula w.now (seedOf options w) last)
      { w with err := w'.err } = outcome at done ⊢
    obtain ⟨f | ⟨⟩, w''⟩ := outcome
    · cases done
    · rfl

theorem exists_of_found {options : SolveOptions} {w : Surroundings} {last : Climb Pcg}
    (h : found options w = .ok last) :
    ∃ d config first, loaded options w = .ok (d, config, first) ∧
      climbed options d config first w = .ok last := by
  unfold found at h
  cases loads : loaded options w with
  | error f =>
    rw [loads] at h
    cases h
  | ok result =>
    obtain ⟨d, config, first⟩ := result
    rw [loads] at h
    exact ⟨d, config, first, rfl, h⟩

/-- A search that succeeds with a limit and two different files as outputs has written into one of
them the document of the result that a number of generations come to, and into the other one its
formula. The number is the limit, unless a key asks to stop before. The size in that document is the
size of this formula, and the fitness its fitness on the dataset. -/
theorem outputs_of_solve (options : SolveOptions) (w : Surroundings) (n : UInt64)
    (limit : options.maxGenerations = some n) (pos : n ≠ 0)
    (json : isStream options.jsonOutput = false) (text : isStream options.textOutput = false)
    (distinct : w.folder.follow options.jsonOutput (Folder.names options.jsonOutput) ≠
      w.folder.follow options.textOutput (Folder.names options.textOutput))
    (done : (solve (m := InFolder) options w).1 = .ok ()) :
    ∃ k : UInt64, (k.toNat : ℕ∞) = min (n.toNat : ℕ∞) w.keyboard.firstRequest ∧
      ((∃ reason, w.keyboard = .unavailable reason) → k = n) ∧
      ∃ d config first climb last outcomes,
      (loadDataset (m := InFolder) options.dataset w).1 = .ok d ∧
      (loadConfig (m := InFolder) options.config w).1 = .ok config ∧
      (givenStart options d w).1 = first ∧
      Climb.start d config (Pcg.ofSeed (options.seed.getD w.seed)) first = .ok climb ∧
      climb.steps k.toNat = .ok (last, outcomes) ∧
      ∃ saved : SavedFormula,
        (solve (m := InFolder) options w).2.folder.readText options.jsonOutput =
            .ok (saved.toValue.indented ++ "\n") ∧
          (solve (m := InFolder) options w).2.folder.readText options.textOutput =
            .ok (saved.formula.render ++ "\n") ∧
          saved.solvedAt = w.now ∧ saved.seed = options.seed.getD w.seed ∧
          saved.generations = k ∧ saved.successes.toNat = last.successes ∧
          saved.fitness = last.best.fitness ∧ saved.size = .ofNat last.best.size ∧
          saved.formula = last.best.formula ∧
          saved.size = .ofNat saved.formula.size ∧ saved.fitness = saved.formula.fitness d := by
  obtain ⟨last, said, finds, saves⟩ := exists_of_solve done
  obtain ⟨d, config, first, loads, ends⟩ := exists_of_found finds
  obtain ⟨climb, watcher, outcomes, started, watches, -, ran⟩ := climbed_eq_ok_iff.mp ends
  rw [limit] at watches ran
  obtain ⟨k, taken, until_⟩ := exists_toNat_eq_generations pos watches
  rw [← taken] at ran
  obtain ⟨dataset, configuration, start⟩ := loads_of_loaded loads
  have final := (Climb.invariant_of_start started).steps ran
  rw [List.nil_append] at final
  have generation : last.generation = k.toNat :=
    final.generation.trans (Climb.length_of_steps ran)
  have successes : last.successes < UInt64.size :=
    final.successes_le.trans_lt (generation ▸ k.toNat_lt)
  obtain ⟨document, rendering⟩ :=
    readText_of_save (w := { w with err := said }) json text distinct
    (congrArg Prod.fst saves)
  rw [saves] at document rendering
  have alone : (∃ reason, w.keyboard = .unavailable reason) → k = n := by
    rintro ⟨reason, keyboard⟩
    rw [keyboard, Keyboard.firstRequest, min_eq_left le_top, Nat.cast_inj] at until_
    exact UInt64.toNat_inj.mp until_
  refine ⟨k, until_, alone, d, config, first, climb, last, outcomes,
    dataset, configuration, start, started, ran, savedFormula w.now (seedOf options w) last,
    document, rendering, rfl, rfl, ?_, ?_, rfl, rfl, rfl, congrArg UInt64.ofNat final.best.size,
    final.best.fitness⟩
  · rw [savedFormula, generation, UInt64.ofNat_toNat]
  · exact UInt64.toNat_ofNat_of_lt' successes

/-- What becomes of each of a number of generations. -/
def outcomesOf (started : Except StartError (Climb Pcg)) (n : ℕ) : Option (List Outcome) := do
  let climb ← started.toOption
  let result ← (climb.steps n).toOption
  pure result.2

/-- Where a search with a limit and without a keyboard has loaded everything, it comes to what its
generations come to. -/
theorem found_of_start {options : SolveOptions} {w : Surroundings} {d : Dataset} {config : Config}
    {first : Option Formula} {n : UInt64} {climb : Climb Pcg} {reason : String}
    (loads : loaded options w = .ok (d, config, first)) (limit : options.maxGenerations = some n)
    (pos : n ≠ 0) (alone : w.keyboard = .unavailable reason)
    (started : Climb.start d config (Pcg.ofSeed (seedOf options w)) first = .ok climb) :
    found options w =
      match climb.steps n.toNat with
      | .error e => .error (.crash (.draw e))
      | .ok (last, _) => .ok last := by
  have watches : watched (some n) w.keyboard = .ok none := by
    rw [alone]
    rfl
  obtain ⟨k, taken, until_⟩ := exists_toNat_eq_generations pos watches
  rw [alone, Keyboard.firstRequest, min_eq_left le_top, Nat.cast_inj] at until_
  have useful : spoiled (some n) none = none := by
    rw [spoiled, if_neg (lastGeneration_ne_top n none)]
    rfl
  rw [found, loads]
  dsimp only
  rw [climbed, started]
  dsimp only
  rw [limit, watches]
  dsimp only
  rw [ended_eq (Climb.invariant_of_start started), ← taken, until_]
  cases climb.steps n.toNat with
  | error e => rfl
  | ok result =>
    dsimp only
    rw [useful]

/-- Where the generations take place, a search finds something. -/
theorem exists_found {options : SolveOptions} {w : Surroundings} {d : Dataset} {config : Config}
    {first : Option Formula} {n : UInt64} {outcomes : List Outcome}
    (loads : loaded options w = .ok (d, config, first)) (limit : options.maxGenerations = some n)
    (pos : n ≠ 0) {reason : String} (alone : w.keyboard = .unavailable reason)
    (ran : outcomesOf (Climb.start d config (Pcg.ofSeed (seedOf options w)) first) n.toNat =
      some outcomes) :
    ∃ last, found options w = .ok last := by
  obtain ⟨climb, started, ran⟩ := Option.bind_eq_some_iff.mp ran
  obtain ⟨result, ends, -⟩ := Option.bind_eq_some_iff.mp ran
  refine ⟨result.1, ?_⟩
  rw [found_of_start loads limit pos alone (ok_of_toOption started), ok_of_toOption ends]

/-- A search that finds something and can save it in two files succeeds. -/
theorem solve_eq_ok {options : SolveOptions} {w : Surroundings} {last : Climb Pcg}
    {place place' : List String} (finds : found options w = .ok last)
    (json : isStream options.jsonOutput = false) (text : isStream options.textOutput = false)
    (document : w.folder.target options.jsonOutput = .ok place)
    (rendering : ∀ content, (w.folder.put place content).target options.textOutput = .ok place') :
    (solve (m := InFolder) options w).1 = .ok () := by
  rw [solve_result, finds]
  dsimp only
  rw [save_eq_ok json text document rendering]
  rfl

/-- A search of one generation on the built-in dataset. -/
def oneGeneration : SolveOptions := ⟨none, none, none, some 7, some 1, "a", "b"⟩

/-- An empty folder, at the start of 1970. -/
def emptyPlace : Surroundings := ⟨⟨[], []⟩, "", "", ⟨0, 0⟩, 0, "no keyboard"⟩

/-- One generation on the built-in dataset, saved in an empty folder. -/
theorem outputs_of_solve_sample :
    oneGeneration.maxGenerations = some 1 ∧ (1 : UInt64) ≠ 0 ∧
      isStream oneGeneration.jsonOutput = false ∧ isStream oneGeneration.textOutput = false ∧
      emptyPlace.folder.follow oneGeneration.jsonOutput (Folder.names oneGeneration.jsonOutput) ≠
        emptyPlace.folder.follow oneGeneration.textOutput (Folder.names oneGeneration.textOutput) ∧
      (solve (m := InFolder) oneGeneration emptyPlace).1 = .ok () ∧
      ∃ saved : SavedFormula,
        (solve (m := InFolder) oneGeneration emptyPlace).2.folder.readText "a" =
            .ok (saved.toValue.indented ++ "\n") ∧
          (solve (m := InFolder) oneGeneration emptyPlace).2.folder.readText "b" =
            .ok (saved.formula.render ++ "\n") ∧
          saved.seed = 7 ∧ saved.generations = 1 := by
  have pos : (1 : UInt64) ≠ 0 := by decide
  have json : isStream oneGeneration.jsonOutput = false := by cbv
  have text : isStream oneGeneration.textOutput = false := by cbv
  have distinct : emptyPlace.folder.follow oneGeneration.jsonOutput
        (Folder.names oneGeneration.jsonOutput) ≠
      emptyPlace.folder.follow oneGeneration.textOutput
        (Folder.names oneGeneration.textOutput) := by
    have first : emptyPlace.folder.follow "a" (Folder.names "a") = .ok ["a"] := by cbv
    have second : emptyPlace.folder.follow "b" (Folder.names "b") = .ok ["b"] := by cbv
    rw [oneGeneration, first, second]
    decide
  have ran : outcomesOf (Climb.start Dataset.sample .standard (Pcg.ofSeed 7) none) 1 =
      some [.rejected] := by decide +kernel
  have done : (solve (m := InFolder) oneGeneration emptyPlace).1 = .ok () := by
    have loads : loaded oneGeneration emptyPlace = .ok (Dataset.sample, .standard, none) := rfl
    have place : emptyPlace.folder.target "a" = .ok ["a"] := by cbv
    have place' (content : ByteArray) :
        (emptyPlace.folder.put ["a"] content).target "b" = .ok ["b"] := by cbv
    obtain ⟨last, finds⟩ := exists_found loads rfl pos rfl ran
    exact solve_eq_ok finds json text place place'
  obtain ⟨k, -, alone, d, config, first, climb, last, outcomes, -, -, -, -, -, saved, document,
    rendering, -, seed, generations, -⟩ := outputs_of_solve oneGeneration emptyPlace 1 rfl pos json
      text distinct done
  have limit : k = 1 := alone ⟨"no keyboard", rfl⟩
  exact ⟨rfl, pos, json, text, distinct, done, saved, document, rendering, seed,
    generations.trans limit⟩

end SymbolicRegression.CommandLine
