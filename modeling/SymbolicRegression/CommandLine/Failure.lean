import SymbolicRegression.Search.Run

/-!
# How a command ends

A command succeeds, or fails with a message and the chain of its causes, or draws where nothing can
be drawn, or goes on for ever.
-/
namespace SymbolicRegression.CommandLine

/-- A failure with its causes, each of which explains the one before it. -/
structure Failure where
  message : String
  causes : List String
deriving DecidableEq

namespace Failure

/-- A text whose lines after the first one are indented. -/
def indented (indent : String) (s : String) : String :=
  String.join (s.toList.map fun c => if c = '\n' then "\n" ++ indent else String.singleton c)

def numbered : Nat → List String → String
  | _, [] => ""
  | n, cause :: causes =>
    let digits := Nat.toDigits 10 n
    "\n" ++ String.ofList (List.replicate (5 - digits.length) ' ' ++ digits) ++ ": " ++
      indented "       " cause ++ numbered (n + 1) causes

/-- The causes of a failure as a block of their own. -/
def causeBlock : List String → String
  | [] => ""
  | [cause] => "\n\nCaused by:\n    " ++ indented "    " cause
  | causes => "\n\nCaused by:" ++ numbered 0 causes

def account (f : Failure) : String := "Error: " ++ f.message ++ causeBlock f.causes ++ "\n"

def line (f : Failure) : String := ": ".intercalate (f.message :: f.causes)

end Failure

/-- How a command does not succeed. -/
inductive Trouble where
  | failure (f : Failure)
  | crash (e : Search.RunError)

end SymbolicRegression.CommandLine
