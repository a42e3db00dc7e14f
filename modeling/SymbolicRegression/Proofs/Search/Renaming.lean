import SymbolicRegression.Proofs.Mutation.Renaming
import SymbolicRegression.Proofs.Search.Invariant

/-!
# Climbs on datasets that read alike

A climb sees its dataset only through the order of the inputs and the values that are read. On a
dataset that reads alike, from the renamed formula and the same source, it goes through the same
generations: a step commutes with renaming, and so do all of them.
-/
namespace SymbolicRegression

open Mutation

variable {σ : Type} [WordSource σ] {s : String → String}

omit [WordSource σ] in
theorem Draw.map_run {α β : Type} (f : α → β) (draw : Draw σ α) (source : σ) :
    (f <$> draw) source = (fun result => (f result.1, result.2)) <$> draw source := by
  rw [map_eq_pure_bind]
  change (draw source >>= fun result => (pure (f result.1) : Draw σ β) result.2) = _
  cases draw source <;> rfl

namespace Formula

variable {c c' : Context}

theorem random_rename (h : c.Alike s c') :
    (Formula.random c' : Draw σ Formula) = Formula.rename s <$> Formula.random c := by
  unfold Formula.random
  rw [h.freshTree]
  simp only [map_bind, bind_map_left, map_pure, Formula.rename]

theorem mutate_rename (h : c.Alike s c') (f : Formula) :
    ((f.rename s).mutate c' : Draw σ Formula) = Formula.rename s <$> f.mutate c := by
  unfold Formula.mutate
  rw [Formula.rename, h.mutate, h.freshOr]
  simp only [map_bind, bind_map_left, map_pure, Formula.rename]

end Formula

namespace Search

def Candidate.rename (s : String → String) (candidate : Candidate) : Candidate :=
  { candidate with formula := candidate.formula.rename s }

theorem Candidate.scored_rename {d d' : Dataset} (h : d.Alike s d') {f : Formula}
    (hf : f.root.Fits d) : scored (f.rename s) d' = (scored f d).rename s := by
  have fitness : (f.rename s).fitness d' = f.fitness d := Expr.fitness_rename h hf
  have size : (f.rename s).size = f.size := f.root.size_rename
  rw [scored, fitness, size]
  rfl

namespace Climb

/-- The climb in another context, with other names for its inputs. -/
def rename (s : String → String) (c : Context) (climb : Climb σ) : Climb σ :=
  { climb with context := c, best := climb.best.rename s }

omit [WordSource σ] in
theorem settle_rename (s : String → String) (c : Context) (climb : Climb σ)
    (candidate : Candidate) (source : σ) :
    (climb.rename s c).settle (candidate.rename s) source =
      ((climb.settle candidate source).1.rename s c, (climb.settle candidate source).2) := by
  have same : (candidate.rename s).beats (climb.best.rename s) = candidate.beats climb.best := rfl
  unfold settle
  rw [rename, same]
  split_ifs <;> rfl

variable {d : Dataset} {config : Config} {c : Context}

/-- A generation on the other dataset is the renamed generation. -/
theorem Invariant.step_rename {outcomes : List Outcome} {climb : Climb σ}
    (h : climb.Invariant d config outcomes) (alike : d.Alike s c.dataset)
    (parameters : c.parameters = config.mutation) :
    (climb.rename s c).step = (fun next => (next.1.rename s c, next.2)) <$> climb.step := by
  obtain rfl := h.dataset
  have contexts : climb.context.Alike s c :=
    ⟨parameters.trans h.parameters.symm, alike.inputs_eq⟩
  have drawn : (climb.rename s c).best.formula.mutate (climb.rename s c).context climb.source =
      (fun result => (result.1.rename s, result.2)) <$>
        climb.best.formula.mutate climb.context climb.source := by
    change (climb.best.formula.rename s).mutate c climb.source = _
    rw [Formula.mutate_rename contexts, Draw.map_run]
  rw [step_eq, step_eq]
  change _ <$> (climb.rename s c).best.formula.mutate (climb.rename s c).context climb.source = _
  rw [drawn]
  cases mutated : climb.best.formula.mutate climb.context climb.source with
  | error e => rfl
  | ok result =>
    -- only what fits has the same fitness on both sides, and the invariant says that it does
    have fits : result.1.root.Fits climb.context.dataset :=
      (Formula.yields_mutate (closed_fits _) (admits_all _) h.best.fits).ok mutated
    have settled := settle_rename s c climb (.scored result.1 climb.context.dataset) result.2
    rw [← Candidate.scored_rename alike fits] at settled
    exact congrArg Except.ok settled

/-- Generations on the other dataset are the renamed generations. -/
theorem Invariant.steps_rename {before : List Outcome} {climb : Climb σ}
    (h : climb.Invariant d config before) (alike : d.Alike s c.dataset)
    (parameters : c.parameters = config.mutation) (n : ℕ) :
    (climb.rename s c).steps n =
      (fun last => (last.1.rename s c, last.2)) <$> climb.steps n := by
  induction n generalizing climb before with
  | zero => rfl
  | succ n ih =>
    rw [steps_succ_eq, steps_succ_eq, h.step_rename alike parameters, map_bind, bind_map_left]
    cases first : climb.step with
    | error e => rfl
    | ok next =>
      have others := ih (h.step first)
      change _ <$> (next.1.rename s c).steps n = _ <$> _ <$> next.1.steps n
      rw [others]
      cases next.1.steps n <;> rfl

theorem firstFormula_rename {c c' : Context} (contexts : c.Alike s c')
    (alike : c.dataset.Alike s c'.dataset) (source : σ) {first : Option Formula}
    (valid : ∀ f, first = some f → f.validate c.dataset = .ok ()) :
    firstFormula c' source (first.map (Formula.rename s)) =
      (fun result => (result.1.rename s, result.2)) <$> firstFormula c source first := by
  cases first with
  | none =>
    rw [Option.map_none, firstFormula, firstFormula, Formula.random_rename contexts, Draw.map_run]
    cases Formula.random c source <;> rfl
  | some f =>
    have fits : f.validate c.dataset = .ok () := valid f rfl
    have renamed : (f.rename s).validate c'.dataset = .ok () :=
      Expr.validate_eq_ok_iff.mpr ((Expr.validate_eq_ok_iff.mp fits).rename alike)
    rw [Option.map_some, firstFormula, firstFormula, fits, renamed]
    rfl

/-- Both climbs start, or neither does for the same reason. -/
theorem start_rename {d' : Dataset} (alike : d.Alike s d') (config : Config) (source : σ)
    {first : Option Formula} (valid : ∀ f, first = some f → f.validate d = .ok ()) :
    (∃ e, start d config source first = .error e ∧
        start d' config source (first.map (Formula.rename s)) = .error e) ∨
      ∃ (climb : Climb σ) (c : Context), start d config source first = .ok climb ∧
        start d' config source (first.map (Formula.rename s)) = .ok (climb.rename s c) ∧
        c.dataset = d' ∧ c.parameters = config.mutation := by
  cases checked : config.validate with
  | error e =>
    left
    refine ⟨.setup e, ?_, ?_⟩ <;> rw [start, contextOf, checked]
  | ok =>
    obtain ⟨c, context, rfl, parameters⟩ := contextOf_eq_ok (d := d) checked
    obtain ⟨c', context', rfl, parameters'⟩ := contextOf_eq_ok (d := d') checked
    have contexts : c.Alike s c' := ⟨parameters'.trans parameters.symm, alike.inputs_eq⟩
    have formulas := firstFormula_rename contexts alike source valid
    obtain ⟨-, e, failed⟩ | ⟨f, rest, ok, fits⟩ := firstFormula_spec source valid
    · left
      rw [failed] at formulas
      refine ⟨.draw e, ?_, ?_⟩
      · simp only [start, context, failed]
      · simp only [start, context', formulas]
        rfl
    · right
      have renamed : firstFormula c' source (first.map (Formula.rename s)) =
          .ok (f.rename s, rest) := by
        rw [formulas, ok]
        rfl
      refine ⟨⟨c, config.reportInterval, rest, .scored f c.dataset, 0, 0⟩, c', ?_, ?_, rfl,
        parameters'⟩
      · simp only [start, context, ok]
      · simp only [start, context', renamed, Candidate.scored_rename alike fits]
        rfl

/-- Whether two climbs, from a formula and from the renamed formula, or both from a random one, go
through the same generations: both fail at the same time and for the same reason, or they come to
the same outcomes and counts, from the same words of their source, with a best candidate that has
the same fitness and size and is the renamed one on the other side. -/
def RunAlike (s : String → String) (d d' : Dataset) (config : Config) (source : σ)
    (first : Option Formula) : Prop :=
  (∀ e, start d config source first = .error e ↔
    start d' config source (first.map (Formula.rename s)) = .error e) ∧
  ∀ climb climb', start d config source first = .ok climb →
    start d' config source (first.map (Formula.rename s)) = .ok climb' →
      ∀ n, (∀ e, climb.steps n = .error e ↔ climb'.steps n = .error e) ∧
        ∀ last outcomes, climb.steps n = .ok (last, outcomes) →
          ∃ last', climb'.steps n = .ok (last', outcomes) ∧
            last'.source = last.source ∧
            last'.best.formula = last.best.formula.rename s ∧
            last'.best.fitness = last.best.fitness ∧
            last'.best.size = last.best.size ∧
            last'.generation = last.generation ∧
            last'.successes = last.successes

theorem runAlike_of_alike {d' : Dataset} (alike : d.Alike s d') (config : Config) (source : σ)
    {first : Option Formula} (valid : ∀ f, first = some f → f.validate d = .ok ()) :
    RunAlike s d d' config source first := by
  obtain ⟨e, failed, failed'⟩ | ⟨climb, c, started, started', rfl, parameters⟩ :=
    start_rename alike config source valid
  · constructor
    · intro e'
      rw [failed, failed']
    · intro climb climb' started
      rw [failed] at started
      cases started
  · constructor
    · intro e
      rw [started, started']
      exact iff_of_false nofun nofun
    · intro climb₁ climb₂ first_start second_start n
      obtain rfl := Except.ok.inj (started.symm.trans first_start)
      obtain rfl := Except.ok.inj (started'.symm.trans second_start)
      rw [(invariant_of_start started).steps_rename alike parameters n]
      cases run : climb.steps n with
      | error e => exact ⟨fun e' => Iff.rfl, fun last outcomes ran => nomatch ran⟩
      | ok result =>
        refine ⟨fun e => iff_of_false nofun nofun, fun last outcomes ran => ?_⟩
        cases ran
        exact ⟨_, rfl, rfl, rfl, rfl, rfl, rfl, rfl⟩

/-- A climb sees its dataset only through the order of the inputs and the values that are read:
on any dataset that reads alike it goes through the same generations. So it does if missing inputs
are written out as zeros, and if the fields are given other names without a change in the order of
the inputs. -/
theorem runAlike (d : Dataset) (config : Config) (source : σ) (first : Option Formula)
    (valid : ∀ f, first = some f → f.validate d = .ok ()) :
    (∀ s d', d.Alike s d' → RunAlike s d d' config source first) ∧
    (∃ d', Dataset.build d.target (d.records.map (Record.filled d.inputs)) = .ok d' ∧
      RunAlike id d d' config source first) ∧
    ∀ s : String → String, (∀ name ∈ d.inputs, s name ≠ s d.target) →
      (∀ a ∈ d.inputs, ∀ b ∈ d.inputs, a < b → s a < s b) →
        ∃ d', Dataset.build (s d.target) (d.records.map (Record.renamed s)) = .ok d' ∧
          RunAlike s d d' config source first := by
  refine ⟨fun s d' alike => runAlike_of_alike alike config source valid, ?_, ?_⟩
  · obtain ⟨d', built, alike⟩ := d.alike_filled
    exact ⟨d', built, runAlike_of_alike alike config source valid⟩
  · intro s distinct ordered
    obtain ⟨d', built, alike⟩ := d.alike_renamed distinct ordered
    exact ⟨d', built, runAlike_of_alike alike config source valid⟩

/-- With a letter in front of all names of the built-in dataset, the climb on nothing but zeros
accepts and rejects as before; and it runs alike on the dataset itself. -/
theorem runAlike_sample :
    (⟨.input "first"⟩ : Formula).validate Dataset.sample = .ok () ∧
      (∃ d', Dataset.build "xtarget" (Dataset.sample.records.map (Record.renamed ("x" ++ ·)))
          = .ok d' ∧
        ∃ climb last, start d' Config.standard (Script.ofWords #[]) (some ⟨.input "xfirst"⟩)
            = .ok climb ∧
          climb.steps 2 = .ok (last, [.accepted, .rejected])) ∧
      Dataset.sample.Alike id Dataset.sample ∧
      RunAlike id Dataset.sample Dataset.sample Config.standard (Script.ofWords #[])
        (some ⟨.input "first"⟩) := by
  have fits : (⟨.input "first"⟩ : Formula).validate Dataset.sample = .ok () := by decide
  have itself : Dataset.sample.Alike id Dataset.sample :=
    ⟨fun _ member => member, fun name member => ⟨name, member, rfl⟩, fun _ _ _ _ lt => lt,
      List.forall₂_same.mpr fun _ _ => ⟨rfl, fun _ _ => rfl⟩⟩
  obtain ⟨all, -, named⟩ := runAlike Dataset.sample Config.standard (Script.ofWords #[])
    (some ⟨.input "first"⟩) fun f given => by
      cases given
      exact fits
  obtain ⟨d', built, fails, lockstep⟩ := named ("x" ++ ·) (by decide) (by decide)
  obtain ⟨climb, last, started, twice⟩ := steps_of_zeros
  refine ⟨fits, ⟨d', built, ?_⟩, itself, all id Dataset.sample itself⟩
  cases started' : start d' Config.standard (Script.ofWords #[]) (some ⟨.input "xfirst"⟩) with
  | error e =>
    rw [(fails e).mpr started'] at started
    cases started
  | ok climb' =>
    obtain ⟨-, ran⟩ := lockstep climb climb' started started' 2
    obtain ⟨last', twice', -⟩ := ran last _ twice
    exact ⟨climb', last', rfl, twice'⟩

end Climb
end Search
end SymbolicRegression
