import SymbolicRegression.CommandLine.Keyboard
import SymbolicRegression.Instant.Calendar

/-!
# Where a command works

A command reads and writes files by their paths, writes to two streams, watches the keyboard, asks
for the time and, if it needs one, for a random seed. The surroundings that provide this are left
open.
-/
namespace SymbolicRegression.CommandLine

/-- Why a file cannot be read or written. -/
inductive FileError where
  | notFound
  | notDirectory
  | isDirectory
  | notText
  | nameTooLong
  | noRoom
  /-- Anything else the surroundings complain about. -/
  | other (reason : String)
deriving DecidableEq

def FileError.message : FileError → String
  | notFound => "No such file or directory (os error 2)"
  | notDirectory => "Not a directory (os error 20)"
  | isDirectory => "Is a directory (os error 21)"
  | notText => "stream did not contain valid UTF-8"
  | nameTooLong => "File name too long (os error 36)"
  | noRoom => "No space left on device (os error 28)"
  | other reason => reason

/-- Why a text did not get into a file. -/
inductive WriteError where
  /-- There is no such file, and none can be made. -/
  | create (e : FileError)
  /-- The file does not take the text. -/
  | write (e : FileError)
deriving DecidableEq

/-- The surroundings of a command. -/
class Workplace (m : Type → Type) where
  /-- The text of the file at a path. -/
  readText : String → m (Except FileError String)
  /-- Puts a text into the file at a path. -/
  writeText : String → String → m (Except WriteError Unit)
  /-- Writes to the stream of results. -/
  out : String → m Unit
  /-- Writes to the stream of messages. -/
  err : String → m Unit
  /-- The time. -/
  now : m Instant
  /-- A seed that nobody chose. -/
  freshSeed : m UInt64
  /-- The keyboard, with all that will come in while it is watched. -/
  keyboard : m Keyboard

end SymbolicRegression.CommandLine
