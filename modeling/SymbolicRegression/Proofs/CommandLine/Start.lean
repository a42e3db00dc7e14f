import SymbolicRegression.Proofs.CommandLine.Solve
import SymbolicRegression.Proofs.SavedFormula.Json
import SymbolicRegression.Proofs.Search.Descent
import SymbolicRegression.Proofs.Search.Overrides
import SymbolicRegression.Proofs.Search.Ranges

/-!
# Files to start from

Whatever stands at the path of a formula to start from, a search either takes up a formula that fits
the dataset, or does what it would have done without such a path. It fails because of what stands
there only if a mutation of that formula draws where nothing can be drawn, which the checks of a
configuration do not rule out.
-/
namespace SymbolicRegression.CommandLine

open Search Json

theorem loadDocument_run {α : Type} (kind : String) (read : String → Except Json.Fault α)
    (path : String) (w : Surroundings) :
    loadDocument (m := InFolder) kind read path w =
      (match w.folder.readText path with
        | .error e => .error ⟨"Failed to read " ++ kind ++ " file: " ++ path, [e.message]⟩
        | .ok text =>
          match read text with
          | .error e => .error ⟨"Failed to parse " ++ kind ++ " JSON file: " ++ path, [e.message]⟩
          | .ok a => .ok a, w) := by
  unfold loadDocument
  rw [bind_run, readText_run]
  cases w.folder.readText path with
  | error e => rfl
  | ok text =>
    dsimp only
    cases read text <;> rfl

theorem loadConfig_eq_ok {path text : String} {config : Config} {w : Surroundings}
    (stored : w.folder.readText path = .ok text) (read : Config.read text = .ok config) :
    (loadConfig (m := InFolder) (some path) w).1 = .ok config := by
  unfold loadConfig
  dsimp only
  rw [loadDocument_run, stored]
  dsimp only
  rw [read]

/-- A formula is taken from a file if the text there is a document whose formula fits the dataset,
and it is this formula; from anything else none is taken. -/
theorem loadFirstFormula_eq_some_iff {d : Dataset} {path : String} {w : Surroundings}
    {f : Formula} :
    (loadFirstFormula (m := InFolder) d path w).1 = some f ↔
      ∃ text file, w.folder.readText path = .ok text ∧ FormulaDocument.read text = .ok file ∧
        f = file.toFormula ∧ f.validate d = .ok () := by
  unfold loadFirstFormula
  rw [bind_run, loadDocument_run]
  cases w.folder.readText path with
  | error e => exact ⟨nofun, nofun⟩
  | ok text =>
    dsimp only
    cases read : FormulaDocument.read text with
    | error e =>
      refine ⟨nofun, ?_⟩
      rintro ⟨_, file, same, reads, -⟩
      cases same
      rw [read] at reads
      cases reads
    | ok file =>
      dsimp only
      cases valid : file.toFormula.validate d with
      | error e =>
        refine ⟨nofun, ?_⟩
        rintro ⟨_, file', same, reads, rfl, fits⟩
        cases same
        rw [read] at reads
        cases reads
        rw [valid] at fits
        cases fits
      | ok u =>
        constructor
        · intro loads
          cases loads
          exact ⟨text, file, rfl, read, rfl, valid⟩
        · rintro ⟨_, file', same, reads, rfl, -⟩
          cases same
          rw [read] at reads
          cases reads
          rfl

/-- A written expression is taken up if it fits the dataset and is not too deep to be read. -/
theorem loadFirstFormula_of_expr {d : Dataset} {path : String} {w : Surroundings} {e : Expr}
    (stored : w.folder.readText path = .ok e.toValue.indented) (finite : e.HasFiniteLiterals)
    (shallow : e.depth ≤ depthLimit) (fits : e.validate d = .ok ()) :
    (loadFirstFormula (m := InFolder) d path w).1 = some ⟨e⟩ :=
  loadFirstFormula_eq_some_iff.mpr
    ⟨_, .expr e, stored, FormulaDocument.read_expr finite shallow, rfl, fits⟩

theorem start_of_invalid {d : Dataset} {config : Config} {e : SetupError}
    (invalid : config.validate = .error e) (source : Pcg) (first : Option Formula) :
    Climb.start d config source first = .error (.setup e) := by
  rw [Climb.start, Climb.contextOf, invalid]

variable {options : SolveOptions} {d : Dataset} {config : Config} {first : Option Formula}
  {w : Surroundings}

/-- Two climbs with one limit and one keyboard both go through their generations and then come to
the same, be it a fault or not, unless one of them draws where nothing can be drawn. -/
theorem ended_cases {limit : Option UInt64} {watcher : Option Watcher} {climb climb' : Climb Pcg}
    (h : climb.Invariant d config []) (h' : climb'.Invariant d config []) :
    (∃ e, ended climb limit watcher = .error (.crash (.draw e))) ∨
      (∃ e, ended climb' limit watcher = .error (.crash (.draw e))) ∨
      (∃ t, ended climb limit watcher = .error t ∧ ended climb' limit watcher = .error t) ∨
      ∃ last last',
        ended climb limit watcher = .ok last ∧ ended climb' limit watcher = .ok last' := by
  rw [ended_eq h, ended_eq h']
  cases climb.steps (generations limit watcher) with
  | error e => exact .inl ⟨e, rfl⟩
  | ok result =>
    cases climb'.steps (generations limit watcher) with
    | error e => exact .inr (.inl ⟨e, rfl⟩)
    | ok result' =>
      cases spoiled limit watcher with
      | some t => exact .inr (.inr (.inl ⟨t, rfl, rfl⟩))
      | none => exact .inr (.inr (.inr ⟨result.1, result'.1, rfl, rfl⟩))

/-- A search from a formula and one from a random formula both find something, or fail in the same
way, unless one of them draws where nothing can be drawn. -/
theorem climbed_cases (options : SolveOptions) (config : Config) (w : Surroundings)
    (fits : ∀ f, first = some f → f.validate d = .ok ()) :
    (∃ e, climbed options d config first w = .error (.crash (.draw e))) ∨
      (∃ e, climbed options d config none w = .error (.crash (.draw e))) ∨
      (∃ t, climbed options d config first w = .error t ∧
        climbed options d config none w = .error t) ∨
      ∃ last last', climbed options d config first w = .ok last ∧
        climbed options d config none w = .ok last' := by
  unfold climbed
  cases checked : config.validate with
  | error e =>
    rw [start_of_invalid checked, start_of_invalid checked]
    exact .inr (.inr (.inl ⟨_, rfl, rfl⟩))
  | ok u =>
    have no_formula (f : Formula) : none = some f → f.validate d = .ok () := nofun
    obtain ⟨-, e, failed⟩ | ⟨climb, started, initially⟩ :=
      Climb.start_spec (Pcg.ofSeed (seedOf options w)) checked fits
    · rw [failed]
      exact .inl ⟨e, rfl⟩
    obtain ⟨-, e, failed⟩ | ⟨fresh, started', initially'⟩ :=
      Climb.start_spec (Pcg.ofSeed (seedOf options w)) checked no_formula
    · rw [failed]
      exact .inr (.inl ⟨e, rfl⟩)
    rw [started, started']
    cases watched options.maxGenerations w.keyboard with
    | error f => exact .inr (.inr (.inl ⟨_, rfl, rfl⟩))
    | ok watcher => exact ended_cases initially initially'

/-- What holds of all failures of mutation holds of what a search fails with where nothing can be
drawn. -/
theorem fault_of_climbed {fault : DrawError → Prop} {c : Mutation.Context} (h : c.Admits fault)
    (context : Climb.contextOf d config = .ok c) {e : DrawError}
    (fails : climbed options d config first w = .error (.crash (.draw e))) : fault e := by
  unfold climbed at fails
  cases started : Climb.start d config (Pcg.ofSeed (seedOf options w)) first with
  | error e' =>
    rw [started] at fails
    cases e' with
    | setup e' => cases fails
    | draw e' =>
      cases fails
      exact fault_of_start h context started
  | ok climb =>
    rw [started] at fails
    cases watches : watched options.maxGenerations w.keyboard with
    | error f =>
      rw [watches] at fails
      cases fails
    | ok watcher =>
      rw [watches] at fails
      dsimp only at fails
      rw [ended_eq (Climb.invariant_of_start started)] at fails
      rw [← Climb.context_of_start started context] at h
      cases ran : climb.steps (generations options.maxGenerations watcher) with
      | error e' =>
        rw [ran] at fails
        cases fails
        exact fault_of_steps h ran
      | ok result =>
        rw [ran] at fails
        unfold spoiled at fails
        split_ifs at fails
        · cases fails
        · cases stuck : watcher.bind Watcher.stuck <;> rw [stuck] at fails <;> cases fails

/-- What a search from a given formula finds is not worse than this formula. -/
theorem best_of_climbed_some {f : Formula} {last : Climb Pcg}
    (h : climbed options d config (some f) w = .ok last) :
    last.best.fitness < f.fitness d ∨
      (last.best.fitness == f.fitness d) = true ∧ last.best.size ≤ f.size := by
  obtain ⟨climb, watcher, outcomes, started, -, -, ran⟩ := climbed_eq_ok_iff.mp h
  have initially := Climb.invariant_of_start started
  have best := Climb.best_of_start_some started
  have final := (initially.steps ran).best.isFinite
  rcases initially.rank_steps ran with ⟨-, lower⟩ | ⟨-, kept⟩
  · have beats := (Candidate.beats_iff_rank_lt final initially.best.isFinite).mpr lower
    rw [best, Candidate.beats] at beats
    simp only [Candidate.scored, Bool.or_eq_true, Bool.and_eq_true] at beats
    exact beats.imp of_decide_eq_true
      (And.imp_right fun smaller => (of_decide_eq_true smaller).le)
  · right
    rw [kept] at final ⊢
    rw [best] at final ⊢
    exact ⟨(Binary64.beq_iff final final).mpr rfl, le_rfl⟩

theorem validate_ne_invalidStart (config : Config) (e : Misfit) :
    config.validate ≠ .error (.invalidStart e) := by
  unfold Config.validate
  split_ifs
  · nofun
  · cases config.mutation.validate <;> nofun

/-- A formula that fits is not called invalid when a climb starts. -/
theorem start_ne_invalidStart (source : Pcg) (fits : ∀ f, first = some f → f.validate d = .ok ())
    (e : Misfit) : Climb.start d config source first ≠ .error (.setup (.invalidStart e)) := by
  cases checked : config.validate with
  | error e' =>
    rw [start_of_invalid checked]
    intro same
    cases same
    exact validate_ne_invalidStart config e checked
  | ok u =>
    obtain ⟨-, e', failed⟩ | ⟨climb, started, -⟩ := Climb.start_spec source checked fits
    · rw [failed]
      nofun
    · rw [started]
      nofun

/-- Whether a message tells of setting up a search, as far as its first letters show. -/
def tellsOfSetup (message : String) : Bool := message.toList.take 11 = "Failed to s".toList

theorem tellsOfSetup_append {beginning : String} (rest : String)
    (long : 11 ≤ beginning.toList.length) :
    tellsOfSetup (beginning ++ rest) = tellsOfSetup beginning := by
  unfold tellsOfSetup
  rw [String.toList_append, List.take_append_of_le_length long]

theorem tellsOfSetup_loadDocument {α : Type} {kind : String} {read : String → Except Json.Fault α}
    {path : String} {f : Failure}
    (h : (loadDocument (m := InFolder) kind read path w).1 = .error f) :
    tellsOfSetup f.message = false := by
  rw [loadDocument_run] at h
  dsimp only at h
  split at h
  · cases h
    rw [String.append_assoc, String.append_assoc, tellsOfSetup_append _ (by decide)]
    decide
  · split at h
    · cases h
      rw [String.append_assoc, String.append_assoc, tellsOfSetup_append _ (by decide)]
      decide
    · cases h

theorem tellsOfSetup_loadDataset {path : Option String} {f : Failure}
    (h : (loadDataset (m := InFolder) path w).1 = .error f) : tellsOfSetup f.message = false := by
  cases path with
  | none => cases h
  | some path =>
    unfold loadDataset at h
    dsimp only at h
    rw [bind_run] at h
    cases document : (loadDocument (m := InFolder) "dataset" Dataset.read path w).1 with
    | error f' =>
      rw [document] at h
      cases h
      exact tellsOfSetup_loadDocument document
    | ok d =>
      rw [document] at h
      cases h

theorem tellsOfSetup_loadConfig {path : Option String} {f : Failure}
    (h : (loadConfig (m := InFolder) path w).1 = .error f) : tellsOfSetup f.message = false := by
  cases path with
  | none => cases h
  | some path => exact tellsOfSetup_loadDocument h

theorem tellsOfSetup_loaded {f : Failure} (h : loaded options w = .error f) :
    tellsOfSetup f.message = false := by
  rcases error_of_bind h with dataset | ⟨d, -, h⟩
  · exact tellsOfSetup_loadDataset dataset
  rcases error_of_bind h with configuration | ⟨config, -, h⟩
  · exact tellsOfSetup_loadConfig configuration
  · cases h

theorem tellsOfSetup_savable {path : String} {folder : Folder} {f : Failure}
    (h : savable path folder = .error f) : tellsOfSetup f.message = false := by
  unfold savable at h
  split_ifs at h
  split at h
  · cases h
  · cases h
    rw [tellsOfSetup_append _ (by decide)]
    decide
  · cases h
    rw [tellsOfSetup_append _ (by decide)]
    decide

theorem tellsOfSetup_save {saved : SavedFormula} {f : Failure}
    (h : (save (m := InFolder) options saved w).1 = .error f) :
    tellsOfSetup f.message = false := by
  rw [save_result] at h
  rcases error_of_bind h with document | ⟨u, -, text⟩
  · exact tellsOfSetup_savable document
  · exact tellsOfSetup_savable text

theorem tellsOfSetup_setupFailure (e : SetupError) :
    tellsOfSetup (setupFailure e).message = true :=
  (by decide : tellsOfSetup "Failed to set up solver" = true)

theorem tellsOfSetup_watched {limit : Option UInt64} {keyboard : Keyboard} {f : Failure}
    (h : watched limit keyboard = .error f) : tellsOfSetup f.message = false := by
  cases keyboard with
  | watched watcher => cases h
  | unavailable reason =>
    unfold watched at h
    split_ifs at h
    cases h
    exact (by decide : tellsOfSetup
      "Failed to read the keyboard; pass --max-generations to run without it" = false)

theorem tellsOfSetup_ended {limit : Option UInt64} {watcher : Option Watcher} {climb : Climb Pcg}
    {f : Failure} (h : ended climb limit watcher = .error (.failure f)) :
    tellsOfSetup f.message = false := by
  unfold ended at h
  split at h
  · cases h
  · split at h
    · cases h
      exact (by decide : tellsOfSetup "Failed to restore the terminal mode" = false)
    · cases h

/-- Nothing but the start of a climb makes a search fail for how it was set up. -/
theorem tellsOfSetup_climbed {f : Failure} (setup : tellsOfSetup f.message = true)
    (h : climbed options d config first w = .error (.failure f)) :
    ∃ e, Climb.start d config (Pcg.ofSeed (seedOf options w)) first = .error (.setup e) ∧
      setupFailure e = f := by
  unfold climbed at h
  rcases started : Climb.start d config (Pcg.ofSeed (seedOf options w)) first with (e | e) | climb
  · rw [started] at h
    exact ⟨e, rfl, Trouble.failure.inj (Except.error.inj h)⟩
  · rw [started] at h
    cases h
  · rw [started] at h
    cases watches : watched options.maxGenerations w.keyboard with
    | error f' =>
      rw [watches] at h
      cases h
      exact absurd ((tellsOfSetup_watched watches).symm.trans setup) Bool.false_ne_true
    | ok watcher =>
      rw [watches] at h
      exact absurd ((tellsOfSetup_ended h).symm.trans setup) Bool.false_ne_true

theorem eq_invalidStart_of_setupFailure {e : SetupError} {cause : Misfit}
    (h : setupFailure e = setupFailure (.invalidStart cause)) :
    ∃ cause', e = .invalidStart cause' := by
  have message : e.message = "invalid start formula" :=
    (List.cons.inj (congrArg Failure.causes h)).1
  cases e with
  | parameters cause' => exact absurd message (by rw [SetupError.message]; decide)
  | reportInterval => exact absurd message (by decide)
  | invalidStart cause' => exact ⟨cause', rfl⟩

/-- The options of a search with another formula to start from. -/
def SolveOptions.startingAt (options : SolveOptions) (start : Option String) : SolveOptions :=
  { options with start := start }

/-- What is loaded beside the formula to start from does not depend on it. -/
theorem found_startingAt (options : SolveOptions) (w : Surroundings) :
    (∃ f, tellsOfSetup f.message = false ∧
      ∀ start, found (options.startingAt start) w = .error (.failure f)) ∨
    ∃ d config, (loadDataset (m := InFolder) options.dataset w).1 = .ok d ∧
      (loadConfig (m := InFolder) options.config w).1 = .ok config ∧
      ∀ start, found (options.startingAt start) w =
        climbed options d config (givenStart (options.startingAt start) d w).1 w := by
  cases loads : loaded options w with
  | error f =>
    refine .inl ⟨f, tellsOfSetup_loaded loads, fun start => ?_⟩
    unfold found loaded
    rw [SolveOptions.startingAt]
    rcases error_of_bind loads with dataset | ⟨d, dataset, loads⟩
    · rw [dataset]
      rfl
    rcases error_of_bind loads with configuration | ⟨config, -, loads⟩
    · rw [dataset, configuration]
      rfl
    · cases loads
  | ok result =>
    obtain ⟨d, config, first⟩ := result
    obtain ⟨dataset, configuration, -⟩ := loads_of_loaded loads
    refine .inr ⟨d, config, dataset, configuration, fun start => ?_⟩
    unfold found loaded
    rw [SolveOptions.startingAt, dataset, configuration]
    rfl

/-- Searches that find the same do the same, wherever they start. -/
theorem solve_congr {start start' : Option String}
    (same : found (options.startingAt start) w = found (options.startingAt start') w) :
    (solve (m := InFolder) (options.startingAt start) w).1 =
        (solve (m := InFolder) (options.startingAt start') w).1 ∧
      (solve (m := InFolder) (options.startingAt start') w).2.Alike
        (solve (m := InFolder) (options.startingAt start) w).2 := by
  obtain ⟨w₁, alike₁, solves₁⟩ := solve_run (options.startingAt start) w
  obtain ⟨w₂, alike₂, solves₂⟩ := solve_run (options.startingAt start') w
  rw [solves₁, solves₂, same]
  exact (isBlind_saveFound options (seedOf options w) _).of_alike (alike₂.symm.trans alike₁)

/-- The formula that a search starts from fits the dataset. -/
theorem validate_of_givenStart {f : Formula} (h : (givenStart options d w).1 = some f) :
    f.validate d = .ok () := by
  unfold givenStart at h
  cases given : options.start with
  | none =>
    rw [given] at h
    cases h
  | some path =>
    rw [given] at h
    obtain ⟨-, -, -, -, -, fits⟩ := loadFirstFormula_eq_some_iff.mp h
    exact fits

/-- No search complains of the formula to start from. -/
theorem solve_ne_invalidStart (options : SolveOptions) (w : Surroundings) (e : Misfit) :
    (solve (m := InFolder) options w).1 ≠ .error (.failure (setupFailure (.invalidStart e))) := by
  intro fails
  have setup := tellsOfSetup_setupFailure (.invalidStart e)
  rw [solve_result, show options = options.startingAt options.start from rfl] at fails
  rcases found_startingAt options w with ⟨f, quiet, finds⟩ | ⟨d, config, -, -, finds⟩
  · rw [finds] at fails
    cases fails
    exact Bool.false_ne_true (quiet.symm.trans setup)
  rw [finds] at fails
  cases ends : climbed options d config (givenStart (options.startingAt options.start) d w).1 w with
  | error t =>
    rw [ends] at fails
    cases fails
    obtain ⟨e', stops, same⟩ := tellsOfSetup_climbed setup ends
    obtain ⟨cause, rfl⟩ := eq_invalidStart_of_setupFailure same
    exact start_ne_invalidStart _ (fun f => validate_of_givenStart) cause stops
  | ok last =>
    rw [ends] at fails
    dsimp only at fails
    cases saves : (save (m := InFolder) (options.startingAt options.start)
      (savedFormula w.now (seedOf (options.startingAt options.start) w) last) w).1 with
    | error f =>
      rw [saves] at fails
      cases fails
      exact Bool.false_ne_true ((tellsOfSetup_save saves).symm.trans setup)
    | ok u =>
      rw [saves] at fails
      cases fails

/-- A search that comes to nothing from a formula does so in the same way from a random one, unless
one of them draws where nothing can be drawn. -/
theorem trouble_startingAt {options : SolveOptions} {start : Option String} {w : Surroundings}
    {t : Trouble} (fails : (solve (m := InFolder) (options.startingAt start) w).1 = .error t) :
    (solve (m := InFolder) (options.startingAt none) w).1 = .error t ∨
      (∃ e, (solve (m := InFolder) (options.startingAt none) w).1 = .error (.crash (.draw e))) ∨
      ∃ e, t = .crash (.draw e) := by
  rw [solve_result] at fails ⊢
  rcases found_startingAt options w with ⟨f, -, finds⟩ | ⟨d, config, -, -, finds⟩
  · rw [finds] at fails ⊢
    exact .inl fails
  rw [finds] at fails ⊢
  have fresh : (givenStart (options.startingAt none) d w).1 = none := rfl
  rw [fresh]
  have fits (f : Formula) (given : (givenStart (options.startingAt start) d w).1 = some f) :
      f.validate d = .ok () := validate_of_givenStart given
  obtain ⟨e, crashes⟩ | ⟨e, crashes⟩ | ⟨t', stops, stops'⟩ | ⟨last, last', ends, ends'⟩ :=
    climbed_cases options config w fits
  · rw [crashes] at fails
    exact .inr (.inr ⟨e, (Except.error.inj fails).symm⟩)
  · rw [crashes]
    exact .inr (.inl ⟨e, rfl⟩)
  · rw [stops] at fails
    rw [stops']
    exact .inl fails
  · rw [ends] at fails
    rw [ends', ← fails]
    exact .inl (congrArg (Except.mapError Trouble.failure) (save_result_congr options _ _ rfl))

/-- A search draws where nothing can be drawn only while it climbs. -/
theorem climbed_of_solve {options : SolveOptions} {start : Option String} {w : Surroundings}
    {d : Dataset} {config : Config} {e : DrawError}
    (dataset : (loadDataset (m := InFolder) options.dataset w).1 = .ok d)
    (configuration : (loadConfig (m := InFolder) options.config w).1 = .ok config)
    (fails : (solve (m := InFolder) (options.startingAt start) w).1 = .error (.crash (.draw e))) :
    climbed options d config (givenStart (options.startingAt start) d w).1 w =
      .error (.crash (.draw e)) := by
  rw [solve_result] at fails
  rcases found_startingAt options w with
    ⟨f, -, finds⟩ | ⟨d', config', dataset', configuration', finds⟩
  · rw [finds] at fails
    cases fails
  cases dataset.symm.trans dataset'
  cases configuration.symm.trans configuration'
  rw [finds] at fails
  cases ends : climbed options d config (givenStart (options.startingAt start) d w).1 w with
  | error t =>
    rw [ends] at fails
    exact congrArg Except.error (Except.error.inj fails)
  | ok last =>
    rw [ends] at fails
    dsimp only at fails
    generalize (save (m := InFolder) (options.startingAt start)
      (savedFormula w.now (seedOf (options.startingAt start) w) last) w).1 = saves at fails
    cases saves <;> cases fails

/-- Searches that find the same, one of them at another time, save the same but for the time. -/
theorem saves_of_found_eq {start start' : Option String}
    (same : found (options.startingAt start) w = found (options.startingAt start') w) (t : Instant)
    (done : (solve (m := InFolder) (options.startingAt start) w).1 = .ok ()) :
    ∃ saved said said',
      save (m := InFolder) options saved { w with err := said } =
          (.ok (), (solve (m := InFolder) (options.startingAt start) w).2) ∧
        save (m := InFolder) options { saved with solvedAt := t }
            { w with now := t, err := said' } =
          (.ok (), (solve (m := InFolder) (options.startingAt start') { w with now := t }).2) := by
  obtain ⟨last, said, finds, saves⟩ := exists_of_solve done
  have folder : { w with now := t }.folder = { w with err := said }.folder := rfl
  have saves_now (saved : SavedFormula) :
      (save (m := InFolder) options saved { w with now := t }).1 = .ok () :=
    (save_result_congr options saved _ folder).trans (congrArg Prod.fst saves)
  have done' :
      (solve (m := InFolder) (options.startingAt start') { w with now := t }).1 = .ok () := by
    rw [solve_result, found_now, ← same, finds]
    exact congrArg (Except.mapError Trouble.failure) (saves_now _)
  obtain ⟨last', said', finds', saves'⟩ := exists_of_solve done'
  rw [found_now, ← same, finds] at finds'
  cases finds'
  exact ⟨savedFormula w.now (seedOf options w) last, said, said', saves, saves'⟩

theorem found_of_no_formula {path : String}
    (dataset : (loadDataset (m := InFolder) options.dataset w).1 = .ok d)
    (absent : (loadFirstFormula (m := InFolder) d path w).1 = none) :
    found (options.startingAt (some path)) w = found (options.startingAt none) w := by
  rcases found_startingAt options w with ⟨f, -, finds⟩ | ⟨d', config, dataset', -, finds⟩
  · rw [finds, finds]
  · cases dataset.symm.trans dataset'
    rw [finds, finds]
    exact congrArg (climbed options d config · w) absent

/-- What a search saves that starts from a formula is not worse than this formula. -/
theorem saves_of_formula {path : String} {f : Formula}
    (dataset : (loadDataset (m := InFolder) options.dataset w).1 = .ok d)
    (taken : (loadFirstFormula (m := InFolder) d path w).1 = some f)
    (done : (solve (m := InFolder) (options.startingAt (some path)) w).1 = .ok ()) :
    ∃ saved said,
      save (m := InFolder) options saved { w with err := said } =
          (.ok (), (solve (m := InFolder) (options.startingAt (some path)) w).2) ∧
        (saved.fitness < f.fitness d ∨
          (saved.fitness == f.fitness d) = true ∧ saved.size.toNat ≤ f.size) := by
  obtain ⟨last, said, finds, saves⟩ := exists_of_solve done
  refine ⟨savedFormula w.now (seedOf options w) last, said, saves, ?_⟩
  rcases found_startingAt options w with ⟨f', -, finds'⟩ | ⟨d', config, dataset', -, finds'⟩
  · rw [finds'] at finds
    cases finds
  · cases dataset.symm.trans dataset'
    rw [finds'] at finds
    change climbed options d config (loadFirstFormula (m := InFolder) d path w).1 w = _ at finds
    rw [taken] at finds
    refine (best_of_climbed_some finds).imp_right (And.imp_right fun size => ?_)
    refine le_trans ?_ size
    change (UInt64.ofNat last.best.size).toNat ≤ last.best.size
    rw [UInt64.toNat_ofNat']
    exact Nat.mod_le _ _

/-- Whatever stands at the path of a formula to start from, no search complains of an invalid
formula, and what fails with it fails in the same way without it, unless one of the two searches
draws where nothing can be drawn. If the text there is no document whose formula fits the dataset,
the search ends as it would without a path, and leaves the same behind but for its messages; without
a path at another time, it saves the same but for the time. Otherwise the search starts from the
formula of the document, and what it saves has no greater fitness, and no greater size with the same
fitness. Nothing can be drawn from a range without a finite width, or for a tree that grows too
deep; where neither can come up under the configuration, the path never makes the search fail. -/
theorem solve_startingAt (options : SolveOptions) (path : String) (w : Surroundings) :
    let started := solve (m := InFolder) (options.startingAt (some path)) w
    let bare := solve (m := InFolder) (options.startingAt none) w
    (∀ e, started.1 ≠ .error (.failure (setupFailure (.invalidStart e)))) ∧
    (∀ t, started.1 = .error t → bare.1 = .error t ∨
      (∃ e, bare.1 = .error (.crash (.draw e))) ∨ ∃ e, t = .crash (.draw e)) ∧
    ∀ d, (loadDataset (m := InFolder) options.dataset w).1 = .ok d →
      ((loadFirstFormula (m := InFolder) d path w).1 = none →
        started.1 = bare.1 ∧ bare.2.Alike started.2 ∧
        ∀ t, started.1 = .ok () → ∃ saved said said',
          save (m := InFolder) options saved { w with err := said } = (.ok (), started.2) ∧
          save (m := InFolder) options { saved with solvedAt := t }
              { w with now := t, err := said' } =
            (.ok (), (solve (m := InFolder) (options.startingAt none) { w with now := t }).2)) ∧
      (∀ f, (loadFirstFormula (m := InFolder) d path w).1 = some f →
        (∃ text file, w.folder.readText path = .ok text ∧ FormulaDocument.read text = .ok file ∧
          f = file.toFormula ∧ f.validate d = .ok ()) ∧
        (started.1 = .ok () → ∃ saved said,
          save (m := InFolder) options saved { w with err := said } = (.ok (), started.2) ∧
          (saved.fitness < f.fitness d ∨
            (saved.fitness == f.fitness d) = true ∧ saved.size.toNat ≤ f.size))) ∧
      ∀ config c, (loadConfig (m := InFolder) options.config w).1 = .ok config →
        Climb.contextOf d config = .ok c →
        (∀ e, started.1 = .error (.crash (.draw e)) → e = .tooDeep ∨ e = .unboundedRange) ∧
        (HasFiniteRanges c → ¬c.HasCoarseLeaves →
          ∀ t, started.1 = .error t → bare.1 = .error t) := by
  intro started bare
  refine ⟨solve_ne_invalidStart _ w, fun t => trouble_startingAt, fun d dataset => ⟨?_, ?_, ?_⟩⟩
  · intro absent
    have same := found_of_no_formula dataset absent
    obtain ⟨result, alike⟩ := solve_congr same
    exact ⟨result, alike, saves_of_found_eq same⟩
  · intro f taken
    exact ⟨loadFirstFormula_eq_some_iff.mp taken, saves_of_formula dataset taken⟩
  · intro config c configuration context
    refine ⟨fun e crashes => ?_, fun finite fine t fails => ?_⟩
    · exact fault_of_climbed admits_unbounded context
        (climbed_of_solve dataset configuration crashes)
    · have calm (start : Option String) (e : DrawError) :
          (solve (m := InFolder) (options.startingAt start) w).1 ≠ .error (.crash (.draw e)) :=
        fun crashes => fault_of_climbed (finite.admits_nothing fine) context
          (climbed_of_solve dataset configuration crashes)
      obtain same | ⟨e, crashes⟩ | ⟨e, rfl⟩ := trouble_startingAt fails
      · exact same
      · exact absurd crashes (calm none e)
      · exact absurd fails (calm (some path) e)

/-- An empty folder but for a file that holds a formula. -/
def placeWithFormula : Surroundings :=
  { emptyPlace with
    folder := ⟨[], [(["c"], .file (Expr.input "first").toValue.indented.toUTF8)]⟩ }

/-- With the standard configuration there always is something to be drawn. -/
theorem contextOf_standard (d : Dataset) :
    Climb.contextOf d .standard = .ok (Mutation.Context.standard d) ∧
      HasFiniteRanges (Mutation.Context.standard d) ∧
      ¬(Mutation.Context.standard d).HasCoarseLeaves := by
  have valid : Config.standard.validate = .ok () := by decide
  have built : Mutation.Context.build d Config.standard.mutation = .ok (.standard d) :=
    (Mutation.Context.standard d).build_eq
  have coarse : ¬Mutation.Parameters.standard.leafWeight ≤ Mutation.Context.coarseWeight := by
    decide +kernel
  refine ⟨?_, ⟨?_, fun _ => ?_⟩, coarse⟩
  · rw [Climb.contextOf, valid, built]
  · exact (by decide +kernel : (Mutation.Parameters.standard.leafWeight +
      Mutation.Parameters.standard.binaryWeight).isFinite = true)
  · exact (by decide +kernel : (Mutation.Parameters.standard.maxDelta -
      -Mutation.Parameters.standard.maxDelta).isFinite = true)

/-- A search from a formula, and one from a file that is not there. -/
theorem solve_startingAt_sample :
    (loadFirstFormula (m := InFolder) Dataset.sample "c" placeWithFormula).1 =
        some ⟨.input "first"⟩ ∧
      (solve (m := InFolder) (oneGeneration.startingAt (some "c")) placeWithFormula).1 = .ok () ∧
      (∃ saved said,
        save (m := InFolder) oneGeneration saved { placeWithFormula with err := said } =
            (.ok (),
              (solve (m := InFolder) (oneGeneration.startingAt (some "c")) placeWithFormula).2) ∧
          (saved.fitness < (⟨.input "first"⟩ : Formula).fitness Dataset.sample ∨
            (saved.fitness == (⟨.input "first"⟩ : Formula).fitness Dataset.sample) = true ∧
              saved.size.toNat ≤ 1)) ∧
      (∀ t, (solve (m := InFolder) (oneGeneration.startingAt (some "c")) placeWithFormula).1 =
          .error t →
        (solve (m := InFolder) (oneGeneration.startingAt none) placeWithFormula).1 = .error t) ∧
      (loadFirstFormula (m := InFolder) Dataset.sample "d" placeWithFormula).1 = none ∧
      (solve (m := InFolder) (oneGeneration.startingAt (some "d")) placeWithFormula).1 =
        (solve (m := InFolder) (oneGeneration.startingAt none) placeWithFormula).1 := by
  have leads (content : ByteArray) :
      Folder.follow ⟨[], [(["c"], .file content)]⟩ "c" (Folder.names "c") = .ok ["c"] := by cbv
  have text : placeWithFormula.folder.readText "c" = .ok (Expr.input "first").toValue.indented :=
    Folder.readText_of_lookup (leads _) (by cbv) rfl
  have taken : (loadFirstFormula (m := InFolder) Dataset.sample "c" placeWithFormula).1 =
      some ⟨.input "first"⟩ :=
    loadFirstFormula_of_expr text (Expr.hasFiniteLiterals_input _) (by decide) (by decide)
  have absent :
      (loadFirstFormula (m := InFolder) Dataset.sample "d" placeWithFormula).1 = none := by
    have missing : placeWithFormula.folder.readText "d" = .error .notFound := by cbv
    rw [Option.eq_none_iff_forall_ne_some]
    intro f taken
    obtain ⟨text, -, found, -⟩ := loadFirstFormula_eq_some_iff.mp taken
    rw [missing] at found
    cases found
  have ran : outcomesOf (Climb.start Dataset.sample .standard (Pcg.ofSeed 7)
      (some ⟨.input "first"⟩)) 1 = some [.rejected] := by decide +kernel
  have done : (solve (m := InFolder) (oneGeneration.startingAt (some "c")) placeWithFormula).1 =
      .ok () := by
    have loads : loaded (oneGeneration.startingAt (some "c")) placeWithFormula =
        .ok (Dataset.sample, .standard, some ⟨.input "first"⟩) := by
      rw [← taken]
      rfl
    have place : placeWithFormula.folder.target "a" = .ok ["a"] := by cbv
    have place' (content : ByteArray) :
        (placeWithFormula.folder.put ["a"] content).target "b" = .ok ["b"] := by cbv
    obtain ⟨last, finds⟩ := exists_found loads rfl (by decide) rfl ran
    exact solve_eq_ok finds (by cbv) (by cbv) place place'
  obtain ⟨context, finite, fine⟩ := contextOf_standard Dataset.sample
  obtain ⟨-, -, all⟩ := solve_startingAt oneGeneration "c" placeWithFormula
  obtain ⟨-, usable, safe⟩ := all Dataset.sample rfl
  obtain ⟨-, -, all'⟩ := solve_startingAt oneGeneration "d" placeWithFormula
  obtain ⟨unusable, -⟩ := all' Dataset.sample rfl
  exact ⟨taken, done, (usable _ taken).2 done, (safe _ _ rfl context).2 finite fine, absent,
    (unusable absent).1⟩

/-- A configuration that always changes literals, and by an amount from a range without a finite
width, but draws none in fresh trees. -/
def wideConfig : Config :=
  { Config.standard with
    mutation :=
      { Mutation.Parameters.standard with change := 1.0, maxDelta := 1e308, literalWeight := 0.0 } }

/-- A search of one generation with the configuration of a file. -/
def wideGeneration : SolveOptions := ⟨none, none, some "k", some 7, some 1, "a", "b"⟩

def folderOfTwo (first second : ByteArray) : Folder :=
  ⟨[], [(["c"], .file first), (["k"], .file second)]⟩

/-- A folder with a file that holds a literal, and one that holds that configuration. -/
def widePlace : Surroundings :=
  { emptyPlace with
    folder := folderOfTwo (Expr.literal 1.0).toValue.indented.toUTF8
      wideConfig.toValue.compact.toUTF8 }

/-- The failure of a number of generations, if they fail. -/
def faultOf (started : Except StartError (Climb Pcg)) (n : ℕ) : Option DrawError :=
  match started.map (Climb.steps n) with
  | .ok (.error e) => some e
  | _ => none

/-- Where a generation draws and nothing can be drawn, the search does not go on. -/
theorem found_eq_crash {n : UInt64} {reason : String} {e : DrawError}
    (loads : loaded options w = .ok (d, config, first)) (limit : options.maxGenerations = some n)
    (pos : n ≠ 0) (alone : w.keyboard = .unavailable reason)
    (ran : faultOf (Climb.start d config (Pcg.ofSeed (seedOf options w)) first) n.toNat = some e) :
    found options w = .error (.crash (.draw e)) := by
  cases started : Climb.start d config (Pcg.ofSeed (seedOf options w)) first with
  | error e' =>
    rw [started] at ran
    cases ran
  | ok climb =>
    rw [started, faultOf, Except.map] at ran
    rw [found_of_start loads limit pos alone started]
    cases ends : climb.steps n.toNat with
    | error e' =>
      rw [ends] at ran
      cases ran
      rfl
    | ok result =>
      rw [ends] at ran
      cases ran

/-- Because of the file to start from, the search draws where nothing can be drawn. -/
theorem solve_crashes_from_formula :
    (loadFirstFormula (m := InFolder) Dataset.sample "c" widePlace).1 = some ⟨.literal 1.0⟩ ∧
      (solve (m := InFolder) (wideGeneration.startingAt (some "c")) widePlace).1 =
        .error (.crash (.draw .unboundedRange)) ∧
      (solve (m := InFolder) (wideGeneration.startingAt none) widePlace).1 = .ok () := by
  have leads (file file' : ByteArray) :
      (folderOfTwo file file').follow "c" (Folder.names "c") = .ok ["c"] ∧
        (folderOfTwo file file').follow "k" (Folder.names "k") = .ok ["k"] := ⟨by cbv, by cbv⟩
  have start_text : widePlace.folder.readText "c" = .ok (Expr.literal 1.0).toValue.indented :=
    Folder.readText_of_lookup (leads _ _).1 (by cbv) rfl
  have config_text : widePlace.folder.readText "k" = .ok wideConfig.toValue.compact :=
    Folder.readText_of_lookup (leads _ _).2 (by cbv) rfl
  have taken : (loadFirstFormula (m := InFolder) Dataset.sample "c" widePlace).1 =
      some ⟨.literal 1.0⟩ :=
    loadFirstFormula_of_expr start_text (by decide) (by decide) (by decide)
  have valid : wideConfig.validate = .ok () := by decide +kernel
  have configuration : (loadConfig (m := InFolder) (some "k") widePlace).1 = .ok wideConfig :=
    loadConfig_eq_ok config_text (Config.read_toValue valid)
  have started : faultOf (Climb.start Dataset.sample wideConfig (Pcg.ofSeed 7)
      (some ⟨.literal 1.0⟩)) 1 = some .unboundedRange := by decide +kernel
  have ran : outcomesOf (Climb.start Dataset.sample wideConfig (Pcg.ofSeed 7) none) 1 =
      some [.rejected] := by decide +kernel
  have loads (start : Option String) : loaded (wideGeneration.startingAt start) widePlace =
      .ok (Dataset.sample, wideConfig,
        (givenStart (wideGeneration.startingAt start) Dataset.sample widePlace).1) := by
    change (loadConfig (m := InFolder) (some "k") widePlace).1 >>= _ = _
    rw [configuration]
    rfl
  have limit (start : Option String) :
      (wideGeneration.startingAt start).maxGenerations = some 1 := rfl
  have alone : widePlace.keyboard = .unavailable "no keyboard" := rfl
  have pos : (1 : UInt64) ≠ 0 := by decide
  have place (file file' : ByteArray) : (folderOfTwo file file').target "a" = .ok ["a"] := by cbv
  have place' (file file' content : ByteArray) :
      ((folderOfTwo file file').put ["a"] content).target "b" = .ok ["b"] := by cbv
  refine ⟨taken, ?_, ?_⟩
  · have crashes : found (wideGeneration.startingAt (some "c")) widePlace =
        .error (.crash (.draw .unboundedRange)) := by
      refine found_eq_crash (loads _) (limit _) pos alone ?_
      exact taken ▸ started
    rw [solve_result, crashes]
  · obtain ⟨last, finds⟩ := exists_found (loads none) (limit none) pos alone ran
    exact solve_eq_ok finds (by cbv) (by cbv) (place _ _) (place' _ _)

end SymbolicRegression.CommandLine
