import Std.Time.DateTime.Timestamp
import SymbolicRegression.CommandLine.Program

/-!
# The program in its real surroundings

Files, streams and the clock of the machine. There is no keyboard to watch, so a search has to be
given the number of its generations.
-/
namespace SymbolicRegression.CommandLine

/-- The reason for a failed access to a file. -/
def fileError : IO.Error → FileError
  | .noFileOrDirectory .. => .notFound
  | .inappropriateType _ code _ => if code = 20 then .notDirectory else .isDirectory
  | .invalidArgument _ 36 _ => .nameTooLong
  | .resourceExhausted _ 28 _ => .noRoom
  | e => .other (toString e)

def access {α : Type} (action : IO α) : IO (Except FileError α) := do
  try
    let a ← action
    return .ok a
  catch e => return .error (fileError e)

instance : Workplace IO where
  readText path := do
    match ← access (IO.FS.readBinFile path) with
    | .error e => return .error e
    | .ok content =>
      match String.fromUTF8? content with
      | some text => return .ok text
      | none => return .error .notText
  writeText path text := do
    match ← access (IO.FS.Handle.mk path .write) with
    | .error e => return .error (.create e)
    | .ok file =>
      match ← access (do file.putStr text; file.flush) with
      | .error e => return .error (.write e)
      | .ok () => return .ok ()
  out s := do
    let stream ← IO.getStdout
    stream.putStr s
    stream.flush
  err s := do
    let stream ← IO.getStderr
    stream.putStr s
    stream.flush
  now := do
    let time ← Std.Time.Timestamp.now
    let nanoseconds := time.toNanosecondsSinceUnixEpoch.val
    return ⟨nanoseconds / 1000000000, (nanoseconds % 1000000000).toNat⟩
  freshSeed := do
    let bytes ← IO.getRandomBytes 8
    return bytes.foldl (fun n b => n * 256 + b.toUInt64) 0
  keyboard := pure (.unavailable "No such device or address (os error 6)")

/-- What is said at the end, if the command has not said it. -/
def epilogue : Ending → IO Unit
  | .crash _ => Workplace.err "nothing can be drawn from such a range\n"
  | _ => pure ()

end SymbolicRegression.CommandLine

def main (arguments : List String) : IO UInt32 := do
  let ending ← SymbolicRegression.CommandLine.program arguments
  SymbolicRegression.CommandLine.epilogue ending
  return ending.code
