/-!
# Arguments

What the program is asked to do. Options have long names and take one value each, behind a blank or
an equals sign; each may be given once. Arguments are read from left to right, and the first thing
that stops the reading counts: a request for help or for the version, or a misuse.
-/
namespace SymbolicRegression.CommandLine

structure SolveOptions where
  start : Option String
  dataset : Option String
  config : Option String
  seed : Option UInt64
  maxGenerations : Option UInt64
  jsonOutput : String
  textOutput : String
deriving DecidableEq

structure EvaluateOptions where
  formula : String
  dataset : Option String
deriving DecidableEq

/-- What the program is asked to do. -/
inductive Command where
  | solve (options : SolveOptions)
  | evaluate (options : EvaluateOptions)
deriving DecidableEq

/-- What help is given on. -/
inductive Topic where
  | program
  | solve
  | evaluate
  | help
deriving DecidableEq

/-- Why there is nothing to be done. -/
inductive Stop where
  | help (topic : Topic)
  | version
  | misuse
deriving DecidableEq

/-- Where a result is saved if nothing else is said. -/
def defaultJsonOutput : String := "formula.json"

/-- Where the text of a formula is saved if nothing else is said. -/
def defaultTextOutput : String := "formula.txt"

/-- The whole number of 64 bits that a text of digits, perhaps behind a plus sign, denotes. -/
def wordOfText? (s : String) : Option UInt64 :=
  let digits :=
    match s.toList with
    | '+' :: rest => rest
    | all => all
  if digits.isEmpty || !digits.all Char.isDigit then none
  else
    let n := digits.foldl (fun n c => n * 10 + (c.toNat - 48)) 0
    if n < UInt64.size then some (.ofNat n) else none

/-- An option: its name, the values that it takes, and what help says about it. -/
structure OptionKind where
  name : String
  accepts : String → Bool
  description : String
  /-- The value where none is given, if there is one. -/
  default : Option String

def isPath (v : String) : Bool := v ≠ ""

/-- Whether a text is a whole number of at least `least`. -/
def isWord (least : UInt64) (v : String) : Bool := (wordOfText? v).any (fun n => least ≤ n)

def datasetOption : OptionKind :=
  ⟨"dataset", isPath, "Dataset JSON file (defaults to the built-in sample)", none⟩

def solveOptions : List OptionKind :=
  [ ⟨"start", isPath, "Formula JSON file to continue from " ++
      "(a fresh formula is generated if it cannot be used)", none⟩,
    datasetOption,
    ⟨"config", isPath, "Solver configuration JSON file", none⟩,
    ⟨"seed", isWord 0, "Random seed (random if omitted)", none⟩,
    ⟨"max-generations", isWord 1, "Stop after this many generations", none⟩,
    ⟨"json-output", isPath, "Output path for the solved formula JSON (`-` for stdout)",
      some defaultJsonOutput⟩,
    ⟨"text-output", isPath, "Output path for the rendered formula (`-` for stdout)",
      some defaultTextOutput⟩ ]

def evaluateOptions : List OptionKind :=
  [ ⟨"formula", isPath,
      "Formula JSON file (a solved formula, a bare formula, or an expression tree)",
      some defaultJsonOutput⟩,
    datasetOption ]

/-- The name of a long option, and the value behind an equals sign if there is one. -/
def splitLong (s : List Char) : String × Option String :=
  let name := s.takeWhile (· ≠ '=')
  match s.drop name.length with
  | _ :: value => (String.ofList name, some (String.ofList value))
  | [] => (String.ofList name, none)

/-- Whether an argument looks like an option, so that it is no value. -/
def isFlag (s : String) : Bool := s ≠ "-" && s.startsWith "-"

/-- Adds the value of an option, which must be known, acceptable and new. -/
def addValue (known : List OptionKind) (given : List (String × String)) (name value : String) :
    Except Stop (List (String × String)) :=
  match known.find? (fun o => o.name = name) with
  | none => .error .misuse
  | some option =>
    if given.any (fun g => g.1 = name) || !option.accepts value then .error .misuse
    else .ok (given ++ [(name, value)])

/-- Reads the options of a command, on which `topic` gives help. -/
def readOptions (topic : Topic) (known : List OptionKind) :
    List (String × String) → List String → Except Stop (List (String × String))
  | given, [] => .ok given
  | given, arg :: args =>
    match arg.toList with
    | ['-', '-'] => if args.isEmpty then .ok given else .error .misuse
    | '-' :: '-' :: long =>
      match splitLong long with
      | (name, some value) => do
        let given ← addValue known given name value
        readOptions topic known given args
      | (name, none) =>
        if name = "help" then .error (.help topic)
        else
          match args with
          | [] => .error .misuse
          | value :: args =>
            if isFlag value then .error .misuse
            else do
              let given ← addValue known given name value
              readOptions topic known given args
    | '-' :: 'h' :: _ => .error (.help topic)
    | _ => .error .misuse

def valueOf (given : List (String × String)) (name : String) : Option String :=
  (given.find? (fun g => g.1 = name)).map Prod.snd

def SolveOptions.ofGiven (given : List (String × String)) : SolveOptions where
  start := valueOf given "start"
  dataset := valueOf given "dataset"
  config := valueOf given "config"
  seed := (valueOf given "seed").bind wordOfText?
  maxGenerations := (valueOf given "max-generations").bind wordOfText?
  jsonOutput := (valueOf given "json-output").getD defaultJsonOutput
  textOutput := (valueOf given "text-output").getD defaultTextOutput

def EvaluateOptions.ofGiven (given : List (String × String)) : EvaluateOptions where
  formula := (valueOf given "formula").getD defaultJsonOutput
  dataset := valueOf given "dataset"

/-- The topic of a command, the request for help being one. -/
def Topic.ofName? : String → Option Topic
  | "solve" => some solve
  | "evaluate" => some evaluate
  | "help" => some help
  | _ => none

/-- Reads the arguments of the program. Without a command it searches. -/
def Command.ofArguments : List String → Except Stop Command
  | [] => .ok (.solve (.ofGiven []))
  | arg :: args =>
    if arg = "solve" then do
      let given ← readOptions .solve solveOptions [] args
      pure (.solve (.ofGiven given))
    else if arg = "evaluate" then do
      let given ← readOptions .evaluate evaluateOptions [] args
      pure (.evaluate (.ofGiven given))
    else if arg = "help" then
      match args with
      | [] => .error (.help .program)
      | [name] =>
        match Topic.ofName? name with
        | some topic => .error (.help topic)
        | none => .error .misuse
      | _ => .error .misuse
    else if arg = "--" ∧ args = [] then .ok (.solve (.ofGiven []))
    else if arg = "--help" ∨ arg.startsWith "-h" then .error (.help .program)
    else if arg = "--version" ∨ arg.startsWith "-V" then .error .version
    else .error .misuse

end SymbolicRegression.CommandLine
