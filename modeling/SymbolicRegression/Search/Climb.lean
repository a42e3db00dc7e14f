import SymbolicRegression.Search.Candidate
import SymbolicRegression.Search.Config

/-!
# Hill climbing

A climb holds one candidate, the best so far. In each generation a mutated copy of it is scored,
and takes its place if it is better. All randomness comes from the source that the climb owns.
-/
namespace SymbolicRegression.Search

/-- The state of a search. Generations and successes are counted in numbers of 64 bits elsewhere;
no search comes to the end of these, since a limit is itself such a number, and a search that is
stopped by hand or goes on without end would take centuries to get there. -/
structure Climb (σ : Type) where
  context : Mutation.Context
  reportInterval : UInt64
  source : σ
  best : Candidate
  /-- The number of generations so far. -/
  generation : Nat
  /-- The number of accepted candidates so far. -/
  successes : Nat

/-- What reports tell about a search. -/
structure Status where
  generation : Nat
  successes : Nat
  fitness : Float
  size : Nat
deriving DecidableEq

/-- What became of the candidate of a generation. -/
inductive Outcome where
  | accepted
  | rejected
deriving DecidableEq

/-- Why a climb does not come about. -/
inductive StartError where
  | setup (error : SetupError)
  | draw (error : DrawError)
deriving DecidableEq

namespace Climb

variable {σ : Type} [WordSource σ]

/-- The context of a climb, its configuration having been checked. -/
def contextOf (d : Dataset) (config : Config) : Except SetupError Mutation.Context :=
  match config.validate with
  | .error e => .error e
  | .ok () =>
    match Mutation.Context.build d config.mutation with
    | .ok c => .ok c
    | .error e => .error (.parameters e)

/-- The first formula of a climb: the given one, which has to fit the dataset, or a random one. -/
def firstFormula (c : Mutation.Context) (source : σ) :
    Option Formula → Except StartError (Formula × σ)
  | some f =>
    match f.validate c.dataset with
    | .ok () => .ok (f, source)
    | .error e => .error (.setup (.invalidStart e))
  | none =>
    match Formula.random c source with
    | .ok result => .ok result
    | .error e => .error (.draw e)

/-- A climb that starts from a given formula, or else from a random one. -/
def start (d : Dataset) (config : Config) (source : σ) (first : Option Formula) :
    Except StartError (Climb σ) :=
  match contextOf d config with
  | .error e => .error (.setup e)
  | .ok context =>
    match firstFormula context source first with
    | .error e => .error e
    | .ok (formula, source) =>
      .ok {
        context, source
        reportInterval := config.reportInterval
        best := .scored formula d
        generation := 0
        successes := 0 }

def status (climb : Climb σ) : Status :=
  ⟨climb.generation, climb.successes, climb.best.fitness, climb.best.size⟩

/-- The climb behind a generation whose candidate was drawn. -/
def settle (climb : Climb σ) (candidate : Candidate) (source : σ) : Climb σ × Outcome :=
  if candidate.beats climb.best then
    ({ climb with
        source, best := candidate
        generation := climb.generation + 1
        successes := climb.successes + 1 }, .accepted)
  else ({ climb with source, generation := climb.generation + 1 }, .rejected)

/-- One generation. -/
def step (climb : Climb σ) : Except DrawError (Climb σ × Outcome) :=
  match climb.best.formula.mutate climb.context climb.source with
  | .error e => .error e
  | .ok (formula, source) =>
    .ok (climb.settle (.scored formula climb.context.dataset) source)

/-- The outcomes of `n` generations, in their order, and the climb behind them. -/
def steps : Nat → Climb σ → Except DrawError (Climb σ × List Outcome)
  | 0, climb => .ok (climb, [])
  | n + 1, climb =>
    match climb.step with
    | .error e => .error e
    | .ok (climb, outcome) =>
      match steps n climb with
      | .error e => .error e
      | .ok (climb, outcomes) => .ok (climb, outcome :: outcomes)

end Climb
end SymbolicRegression.Search
