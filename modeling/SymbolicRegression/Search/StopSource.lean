/-!
# Requests to stop

A search asks a source after each generation whether to stop. Sources can be combined, and some
change as they are asked. Tokens are shared: whether one has been raised is told from outside.
-/
namespace SymbolicRegression.Search

/-- A source of requests to stop. -/
inductive StopSource where
  /-- Asks to stop once it has been polled `remaining` times, and from then on. -/
  | limit (remaining : UInt64)
  /-- Asks to stop while the token of that name is raised. -/
  | token (name : String)
  /-- Gives the answers of a sequence, `polls` of which have been given. -/
  | answers (sequence : Nat → Bool) (polls : Nat)
  /-- The source that is not there never asks to stop. -/
  | absent
  /-- The source that may be absent, but is there. -/
  | present (source : StopSource)
  /-- Asks to stop when either source does. The second one is not polled when the first one asks
  to stop. -/
  | either (first second : StopSource)

namespace StopSource

/-- A source that may be absent. -/
def ofOption : Option StopSource → StopSource
  | none => absent
  | some source => present source

/-- The answer of a source, and the source behind the poll; `raised` tells which tokens are
raised. -/
def poll (raised : String → Bool) : StopSource → Bool × StopSource
  | limit remaining =>
    let remaining := if remaining = 0 then 0 else remaining - 1
    (remaining = 0, limit remaining)
  | token name => (raised name, token name)
  | answers sequence polls => (sequence polls, answers sequence (polls + 1))
  | absent => (false, absent)
  | present source =>
    let (answer, source) := poll raised source
    (answer, present source)
  | either first second =>
    let (answer, first) := poll raised first
    if answer then (true, either first second)
    else
      let (answer, second) := poll raised second
      (answer, either first second)

end StopSource
end SymbolicRegression.Search
