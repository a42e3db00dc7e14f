import SymbolicRegression.Search.StopSource

/-!
# Watching the keyboard

A search that can watch the keyboard asks it behind each generation whether to stop. All that has
come in by then is read, up to the first request: a press of the escape key, or of the letter c
with the control key held down, or a fault, since nothing can be read behind it. Everything else is
passed over, and a request that has been made stands.
-/
namespace SymbolicRegression.CommandLine

inductive KeyCode where
  | escape
  | letter (c : Char)
  | other
deriving DecidableEq

inductive KeyMotion where
  | press
  | repetition
  | release
deriving DecidableEq

structure KeyEvent where
  code : KeyCode
  /-- Whether the control key is held down. -/
  control : Bool
  motion : KeyMotion
deriving DecidableEq

/-- What is read while the keyboard is watched. -/
inductive Reading where
  | key (event : KeyEvent)
  /-- The mouse, a pasted text, or a new size of the screen. -/
  | other
  | fault
deriving DecidableEq

/-- Whether a key asks to stop. -/
def KeyEvent.isStop (event : KeyEvent) : Bool :=
  match event.code with
  | .escape => true
  | .letter c => c = 'c' && event.control
  | .other => false

def Reading.isRequest : Reading → Bool
  | key event => event.motion = .press && event.isStop
  | other => false
  | fault => true

/-- A keyboard that is being watched. -/
structure Watcher where
  /-- What comes in before the first poll, then between that and the second one, and so on. Behind
  the last of them nothing comes in any more. -/
  arrivals : List (List Reading)
  /-- Why the terminal cannot be set back in the end, if it cannot. -/
  stuck : Option String

/-- Whether a stop has been asked for by the poll that comes behind so many others. -/
def Watcher.hasRequest (watcher : Watcher) (polls : Nat) : Bool :=
  (watcher.arrivals.take (polls + 1)).any fun readings => readings.any Reading.isRequest

/-- The requests that come from the keyboard. -/
def Watcher.requests (watcher : Watcher) : Search.StopSource := .answers watcher.hasRequest 0

/-- The keyboard, as far as a search can watch it. -/
inductive Keyboard where
  | unavailable (reason : String)
  | watched (watcher : Watcher)

instance : Coe String Keyboard := ⟨.unavailable⟩

end SymbolicRegression.CommandLine
