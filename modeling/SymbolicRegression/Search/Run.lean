import SymbolicRegression.Search.StopSource
import SymbolicRegression.Search.Climb

/-!
# Running a search

A run climbs until its source of requests asks to stop. It is asked once after each generation, so
at least one takes place. A reporter is told the status at the start, after each accepted candidate
and at regular intervals; it may raise tokens, so the run asks it which are raised.
-/
namespace SymbolicRegression.Search

/-- What receives the reports of a run, with a state of type `ρ`. -/
structure Reporter (ρ : Type) where
  report : Status → ρ → ρ
  /-- The tokens that are raised. -/
  raised : ρ → String → Bool

/-- Why a run does not finish. -/
inductive RunError where
  | draw (error : DrawError)
  /-- No request to stop came within the generations that were allowed. -/
  | unfinished
deriving DecidableEq

namespace Climb

variable {σ ρ : Type} [WordSource σ]

def isReported (climb : Climb σ) (outcome : Outcome) : Bool :=
  outcome = .accepted || climb.generation % climb.reportInterval.toNat = 0

/-- Climbs until a request to stop, for at most so many generations: the climb, the source of
requests and the state of the reporter behind the poll that asks to stop. -/
def runFrom (reporter : Reporter ρ) :
    Nat → Climb σ → StopSource → ρ → Except RunError (Climb σ × StopSource × ρ)
  | 0, _, _, _ => .error .unfinished
  | generations + 1, climb, stop, state =>
    match climb.step with
    | .error e => .error (.draw e)
    | .ok (climb, outcome) =>
      let state := if climb.isReported outcome then reporter.report climb.status state else state
      let (answer, stop) := stop.poll (reporter.raised state)
      if answer then .ok (climb, stop, state) else runFrom reporter generations climb stop state

/-- A run of at most so many generations: the climb at its end, and the state of the reporter. -/
def run (reporter : Reporter ρ) (generations : Nat) (climb : Climb σ) (stop : StopSource)
    (state : ρ) : Except RunError (Climb σ × ρ) :=
  match runFrom reporter generations climb stop (reporter.report climb.status state) with
  | .ok (climb, _, state) => .ok (climb, state)
  | .error e => .error e

end Climb
end SymbolicRegression.Search
