import SymbolicRegression.Formula.Basic

/-!
# Configuration of a search

How often a search reports while nothing improves, and how it mutates.
-/
namespace SymbolicRegression.Search

structure Config where
  /-- The number of generations between two reports while no candidate is accepted. -/
  reportInterval : UInt64
  mutation : Mutation.Parameters
deriving DecidableEq

/-- Why a search cannot start. -/
inductive SetupError where
  | parameters (cause : Mutation.ParameterError)
  | reportInterval
  | invalidStart (cause : Misfit)
deriving DecidableEq

namespace SetupError

/-- The wording of a fault, without its cause. -/
def message : SetupError → String
  | parameters _ => "invalid mutation parameters"
  | reportInterval => "report interval must be at least 1"
  | invalidStart _ => "invalid start formula"

/-- The wording of the cause of a fault. -/
def causeMessage? : SetupError → Option String
  | parameters cause => some cause.message
  | reportInterval => none
  | invalidStart cause => some cause.message

end SetupError

namespace Config

/-- The configuration where nothing else is said. -/
def standard : Config := ⟨10000, .standard⟩

/-- Checks a configuration: the interval first. -/
def validate (c : Config) : Except SetupError Unit :=
  if c.reportInterval = 0 then .error .reportInterval
  else
    match c.mutation.validate with
    | .ok () => .ok ()
    | .error e => .error (.parameters e)

end Config
end SymbolicRegression.Search
