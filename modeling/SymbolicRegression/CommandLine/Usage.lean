import SymbolicRegression.CommandLine.Arguments

/-!
# Help

What is said about the program and its commands where help is asked for. A list has two columns;
where the left one is wide and a description does not fit beside it, every description stands on a
line of its own.
-/
namespace SymbolicRegression.CommandLine

def programName : String := "numeric"

def versionLine : String := "numeric-cli 0.1.0\n"

/-- An entry of a list: what is described, and its description. -/
structure Entry where
  subject : String
  description : String

namespace Entry

/-- The width of the widest subject. -/
def width (entries : List Entry) : Nat := (entries.map fun e => e.subject.length).foldl max 0

/-- The number of characters of a line. -/
def lineLength : Nat := 100

/-- Whether descriptions stand on lines of their own: the subjects take more than two fifths of a
line, and a description would be longer than what is left. -/
def isBroken (entries : List Entry) : Bool :=
  let taken := width entries + 6
  2 * lineLength < 5 * taken && entries.any fun e => lineLength - taken < e.description.length

/-- An entry in two columns, the left one of the given width. -/
def inColumns (width : Nat) (e : Entry) : String :=
  e.subject.pushn ' ' (width - e.subject.length + 2) ++ e.description ++ "\n"

/-- An entry on two lines. -/
def onLines (e : Entry) : String := e.subject ++ "\n          " ++ e.description ++ "\n"

def lines (entries : List Entry) : String :=
  String.join (entries.map (if isBroken entries then onLines else inColumns (width entries)))

end Entry

/-- The entry of an option: its value is called by the name of the option. -/
def OptionKind.entry (o : OptionKind) : Entry where
  subject := "      --" ++ o.name ++ " <" ++
    o.name.map (fun c => if c = '-' then '_' else c.toUpper) ++ ">"
  description := o.description ++
    match o.default with
    | some value => " [default: " ++ value ++ "]"
    | none => ""

def helpEntry : Entry := ⟨"  -h, --help", "Print help"⟩

def versionEntry : Entry := ⟨"  -V, --version", "Print version"⟩

namespace Topic

def name : Topic → String
  | program => programName
  | solve => "solve"
  | evaluate => "evaluate"
  | help => "help"

/-- What a command does; the program as a whole is described by its commands. -/
def description : Topic → String
  | program => ""
  | solve => "Search for a formula fitting the dataset (press Esc to stop)"
  | evaluate => "Score a saved formula against the dataset"
  | help => "Print this message or the help of the given subcommand(s)"

def entry (topic : Topic) : Entry := ⟨"  " ++ topic.name, topic.description⟩

def optionsText (topic : Topic) (options : List OptionKind) : String :=
  topic.description ++ "\n\nUsage: " ++ programName ++ " " ++ topic.name ++
    " [OPTIONS]\n\nOptions:\n" ++ Entry.lines (options.map OptionKind.entry ++ [helpEntry])

def text : Topic → String
  | program =>
    "Usage: " ++ programName ++ " [COMMAND]\n\nCommands:\n" ++
      Entry.lines [solve.entry, evaluate.entry, help.entry] ++
      "\nOptions:\n" ++ Entry.lines [helpEntry, versionEntry]
  | solve => solve.optionsText solveOptions
  | evaluate => evaluate.optionsText evaluateOptions
  | help =>
    help.description ++ "\n\nUsage: " ++ programName ++ " help [COMMAND]...\n\nArguments:\n" ++
      Entry.lines [⟨"  [COMMAND]...", "Print help for the subcommand(s)"⟩]

end Topic
end SymbolicRegression.CommandLine
