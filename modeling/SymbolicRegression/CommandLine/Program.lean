import SymbolicRegression.CommandLine.Evaluate
import SymbolicRegression.CommandLine.Solve
import SymbolicRegression.CommandLine.Usage

/-!
# The program

Reads the arguments, carries out the command, and accounts for a failure.
-/
namespace SymbolicRegression.CommandLine

/-- How the program ends. -/
inductive Ending where
  | success
  /-- A command failed, and the failure has been accounted for. -/
  | failure
  | stopped (reason : Stop)
  | crash (e : Search.RunError)

def Ending.code : Ending → UInt32
  | success | stopped (.help _) | stopped .version => 0
  | failure => 1
  | stopped .misuse => 2
  | crash _ => 101

variable {m : Type → Type} [Monad m] [Workplace m]

/-- Accounts for the result of a command. -/
def conclude : Except Trouble Unit → m Ending
  | .ok () => pure .success
  | .error (.failure f) => do
    Workplace.err f.account
    pure .failure
  | .error (.crash e) => pure (.crash e)

/-- Says what was asked for, or how the program is used. -/
def explain : Stop → m Unit
  | .help topic => Workplace.out topic.text
  | .version => Workplace.out versionLine
  | .misuse => Workplace.err Topic.program.text

def program (arguments : List String) : m Ending := do
  match Command.ofArguments arguments with
  | .error reason =>
    explain reason
    pure (.stopped reason)
  | .ok (.solve options) =>
    let result ← solve options
    conclude result
  | .ok (.evaluate options) =>
    match ← evaluate options with
    | .ok () => pure .success
    | .error f => conclude (.error (.failure f))

end SymbolicRegression.CommandLine
