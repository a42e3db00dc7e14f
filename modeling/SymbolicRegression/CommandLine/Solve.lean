import SymbolicRegression.CommandLine.Arguments
import SymbolicRegression.CommandLine.Loading
import SymbolicRegression.Json.Printer
import SymbolicRegression.Random.Pcg
import SymbolicRegression.Report

/-!
# Searching for a formula

The command that searches for a formula and saves it, as a document and as text. It goes on until
its limit, or until a key asks it to stop. While it searches, each report takes the place of the one
before it on the line.
-/
namespace SymbolicRegression.CommandLine

open Search

/-- Moves to the start of the line and clears it. -/
def clearLine : String := "\x1b[1G\x1b[2K"

/-- The reporter that writes each status over the one before it. -/
def display : Reporter String where
  report status shown := shown ++ clearLine ++ status.line
  raised _ _ := false

def setupFailure (e : SetupError) : Failure :=
  ⟨"Failed to set up solver", e.message :: e.causeMessage?.toList⟩

def savedFormula {σ : Type} (solvedAt : Instant) (seed : UInt64) (climb : Climb σ) :
    SavedFormula where
  solvedAt := solvedAt
  seed := seed
  generations := .ofNat climb.generation
  successes := .ofNat climb.successes
  fitness := climb.best.fitness
  size := .ofNat climb.best.size
  formula := climb.best.formula

/-- Whether a path stands for the stream of results; a trailing slash makes no difference. -/
def isStream (path : String) : Bool :=
  match path.splitOn "/" with
  | first :: rest => first = "-" && rest.all (fun c => c = "" || c = ".")
  | [] => false

/-- How messages call the place of an output. -/
def outputLabel (path : String) : String := if isStream path then "stdout" else path

variable {m : Type → Type} [Monad m] [Workplace m]

/-- Saves a text, ended by a line break. -/
def saveText (path text : String) : m (Except Failure Unit) := do
  if isStream path then
    Workplace.out (text ++ "\n")
    pure (.ok ())
  else
    match ← Workplace.writeText path (text ++ "\n") with
    | .ok () => pure (.ok ())
    | .error (.create e) =>
      pure (.error ⟨"Failed to create output file: " ++ path, [e.message]⟩)
    | .error (.write e) => pure (.error ⟨"Failed to write " ++ path, [e.message]⟩)

def savedLines (options : SolveOptions) (saved : SavedFormula) : String :=
  "\nFormula saved successfully\n" ++
  "  JSON: " ++ outputLabel options.jsonOutput ++ "\n" ++
  "  Text: " ++ outputLabel options.textOutput ++ "\n" ++
  "  Generations: " ++ natText saved.generations.toNat ++ "\n" ++
  "  Successes: " ++ natText saved.successes.toNat ++ "\n" ++
  "  Fitness: " ++ Decimal.plain saved.fitness ++ "\n" ++
  "  Size: " ++ natText saved.size.toNat ++ "\n" ++
  "  Formula: " ++ saved.formula.render ++ "\n"

/-- Saves a result, first the document and then the text. -/
def save (options : SolveOptions) (saved : SavedFormula) : m (Except Failure Unit) := do
  match ← saveText options.jsonOutput saved.toValue.indented with
  | .error f => pure (.error f)
  | .ok () =>
    match ← saveText options.textOutput saved.formula.render with
    | .error f => pure (.error f)
    | .ok () =>
      Workplace.err (savedLines options saved)
      pure (.ok ())

/-- Begins to watch the keyboard. A search with a limit can do without it. -/
def watch (limit : Option UInt64) : m (Except Failure (Option Watcher)) := do
  match ← Workplace.keyboard with
  | .watched watcher => pure (.ok (some watcher))
  | .unavailable reason =>
    if limit.isSome then
      Workplace.err ("Warning: keyboard unavailable (" ++ reason ++
        "), running until the generation limit\n")
      pure (.ok none)
    else
      pure (.error
        ⟨"Failed to read the keyboard; pass --max-generations to run without it", [reason]⟩)

/-- What asks a search to stop: its limit, or else the keyboard. -/
def stopSource (limit : Option UInt64) (watcher : Option Watcher) : StopSource :=
  .either (.ofOption (limit.map .limit)) (.ofOption (watcher.map Watcher.requests))

/-- The number of generations by which a search with that limit and keyboard is asked to stop, if it
ever is. -/
def patience (limit : Option UInt64) (watcher : Option Watcher) : Nat :=
  match limit, watcher with
  | some generations, _ => max 1 generations.toNat
  | none, some watcher => watcher.arrivals.length
  | none, none => 0

/-- Climbs until a request to stop, and saves the best formula. Where no request ever comes, the
climb has no end, and is told from the others as an unfinished one. -/
def climbAndSave (options : SolveOptions) (seed : UInt64) (climb : Climb Pcg)
    (watcher : Option Watcher) : m (Except Trouble Unit) := do
  match climb.run display (patience options.maxGenerations watcher)
      (stopSource options.maxGenerations watcher) "" with
  | .error e => pure (.error (.crash e))
  | .ok (climb, shown) =>
    Workplace.err shown
    match watcher.bind Watcher.stuck with
    | some reason =>
      pure (.error (.failure ⟨"Failed to restore the terminal mode", [reason]⟩))
    | none =>
      Workplace.err "\r\n"
      let solvedAt ← Workplace.now
      match ← save options (savedFormula solvedAt seed climb) with
      | .error f => pure (.error (.failure f))
      | .ok () => pure (.ok ())

/-- Searches from what has been loaded. -/
def search (options : SolveOptions) (d : Dataset) (config : Config) (first : Option Formula) :
    m (Except Trouble Unit) := do
  let seed ←
    match options.seed with
    | some seed => pure seed
    | none => Workplace.freshSeed
  Workplace.err ("Seed: " ++ natText seed.toNat ++ "\n")
  match Climb.start d config (Pcg.ofSeed seed) first with
  | .error (.setup e) => pure (.error (.failure (setupFailure e)))
  | .error (.draw e) => pure (.error (.crash (.draw e)))
  | .ok climb =>
    Workplace.err "Searching... press Esc to stop\n"
    match ← watch options.maxGenerations with
    | .error f => pure (.error (.failure f))
    | .ok watcher => climbAndSave options seed climb watcher

/-- Searches for a formula and saves it. -/
def solve (options : SolveOptions) : m (Except Trouble Unit) := do
  match ← loadDataset options.dataset with
  | .error f => pure (.error (.failure f))
  | .ok d =>
    match ← loadConfig options.config with
    | .error f => pure (.error (.failure f))
    | .ok config =>
      let first ←
        match options.start with
        | some path => loadFirstFormula d path
        | none => pure none
      search options d config first

end SymbolicRegression.CommandLine
