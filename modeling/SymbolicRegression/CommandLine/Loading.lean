import SymbolicRegression.CommandLine.Failure
import SymbolicRegression.CommandLine.Workplace
import SymbolicRegression.Dataset.Json
import SymbolicRegression.Dataset.Sample
import SymbolicRegression.SavedFormula
import SymbolicRegression.Search.Json

/-!
# Loading documents

The documents that commands read, and what is said about them on the stream of messages.
-/
namespace SymbolicRegression.CommandLine

variable {m : Type → Type} [Monad m] [Workplace m]

/-- Reads the document at a path; `kind` names it in messages. -/
def loadDocument {α : Type} (kind : String) (read : String → Except Json.Fault α)
    (path : String) : m (Except Failure α) := do
  match ← Workplace.readText path with
  | .error e => pure (.error ⟨"Failed to read " ++ kind ++ " file: " ++ path, [e.message]⟩)
  | .ok text =>
    match read text with
    | .error e =>
      pure (.error ⟨"Failed to parse " ++ kind ++ " JSON file: " ++ path, [e.message]⟩)
    | .ok a => pure (.ok a)

def datasetLine (d : Dataset) : String :=
  "Dataset: " ++ String.ofList (Nat.toDigits 10 d.records.length) ++ " records, target `" ++
    d.target ++ "`, inputs [" ++ ", ".intercalate d.inputs ++ "]\n"

/-- The dataset at a path, or the built-in one. -/
def loadDataset (path : Option String) : m (Except Failure Dataset) := do
  let loaded : Except Failure Dataset ←
    match path with
    | some path => loadDocument "dataset" Dataset.read path
    | none => pure (.ok Dataset.sample)
  match loaded with
  | .error f => pure (.error f)
  | .ok d =>
    Workplace.err (datasetLine d)
    pure (.ok d)

/-- The configuration at a path, or the standard one. -/
def loadConfig : Option String → m (Except Failure Search.Config)
  | some path => loadDocument "config" Search.Config.read path
  | none => pure (.ok .standard)

/-- The formula at a path to start from. One that cannot be read or does not fit the dataset is
passed over with a warning. -/
def loadFirstFormula (d : Dataset) (path : String) : m (Option Formula) := do
  let loaded : Except Failure FormulaDocument ←
    loadDocument "start formula" FormulaDocument.read path
  match loaded with
  | .error f =>
    Workplace.err ("Warning: " ++ f.line ++ "; starting from a fresh formula\n")
    pure none
  | .ok file =>
    let formula := file.toFormula
    match formula.validate d with
    | .error e =>
      Workplace.err ("Warning: start formula " ++ path ++ " does not fit the dataset (" ++
        e.message ++ "); starting from a fresh formula\n")
      pure none
    | .ok () =>
      Workplace.err ("Starting from " ++ path ++ ": " ++ formula.render ++ "\n")
      pure (some formula)

end SymbolicRegression.CommandLine
