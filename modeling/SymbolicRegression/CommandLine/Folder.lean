import SymbolicRegression.CommandLine.Program

/-!
# A folder in memory

Surroundings that consist of files held in memory and of what has been written to the streams, so
that a run of the program is a function of its arguments and files. A path is followed name by name
from the working folder, or from the top if it starts with a slash.
-/
namespace SymbolicRegression.CommandLine

/-- What a path may lead to. -/
inductive Node where
  | directory
  | file (content : ByteArray)
  /-- A file without room for any text. -/
  | full

/-- Directories and files, and the directory in which the program works. A place is told by the
names on the way to it from the top. -/
structure Folder where
  home : List String
  /-- What is where. The directories on the way to something need not be listed. -/
  nodes : List (List String × Node)

namespace Folder

def lookup (f : Folder) (place : List String) : Option Node :=
  if place.isPrefixOf f.home then some .directory
  else
    match f.nodes.find? (fun n => n.1 = place) with
    | some n => some n.2
    | none => if f.nodes.any (fun n => place.isPrefixOf n.1) then some .directory else none

def names (path : String) : List String := (path.splitOn "/").filter (· ≠ "")

/-- Where a name leads from a directory. -/
def step (place : List String) (name : String) : List String :=
  if name = "." then place
  else if name = ".." then place.dropLast
  else place ++ [name]

/-- The greatest number of bytes of a name. -/
def nameLimit : Nat := 255

/-- The greatest number of bytes of a path. -/
def pathLimit : Nat := 4095

/-- Where names lead from a place. Only a directory can be left, so every place on the way but the
last one has to be a directory; there, a name that is too long cannot be looked for. -/
def walk (f : Folder) : List String → List String → Except FileError (List String)
  | place, [] => .ok place
  | place, name :: rest =>
    match f.lookup place with
    | some .directory =>
      if nameLimit < name.utf8ByteSize then .error .nameTooLong
      else walk f (step place name) rest
    | some _ => .error .notDirectory
    | none => .error .notFound

/-- The place where names of a path lead. It starts at the top if the path starts with a slash. -/
def follow (f : Folder) (path : String) (steps : List String) : Except FileError (List String) :=
  if pathLimit < path.utf8ByteSize then .error .nameTooLong
  else f.walk (if path.startsWith "/" then [] else f.home) steps

/-- The names by which a file to be read is found: a slash at the end asks for a directory. -/
def readingNames (path : String) : List String :=
  if path.endsWith "/" then names path ++ ["."] else names path

/-- The names on the way to the directory that holds a file to be written, which has to be one. -/
def holdingNames (path : String) : List String := (names path).dropLast ++ ["."]

def readText (f : Folder) (path : String) : Except FileError String := do
  let place ← f.follow path (readingNames path)
  match f.lookup place with
  | none => .error .notFound
  | some .directory => .error .isDirectory
  | some .full => .ok ""
  | some (.file content) =>
    match String.fromUTF8? content with
    | some text => .ok text
    | none => .error .notText

/-- The folder with a file at a place, in place of an older one. -/
def put (f : Folder) (place : List String) (content : ByteArray) : Folder :=
  { f with nodes := (place, .file content) :: f.nodes.filter (fun n => n.1 ≠ place) }

/-- The folder with a text in the file at a path. A path that ends with a slash leads to the
directory that would hold the file, since no file can be made under it. -/
def writeText (f : Folder) (path text : String) : Except WriteError Folder :=
  match f.follow path (if path.endsWith "/" then holdingNames path else names path) with
  | .error e => .error (.create e)
  | .ok place =>
    match f.lookup place with
    | some .directory => .error (.create .isDirectory)
    | some .full => .error (.write .noRoom)
    | _ => .ok (f.put place text.toUTF8)

end Folder

/-- A folder, the streams, and what else the program asks for. -/
structure Surroundings where
  folder : Folder
  out : String
  err : String
  now : Instant
  seed : UInt64
  keyboard : Keyboard

/-- A computation in such surroundings. -/
abbrev InFolder := StateM Surroundings

instance : Workplace InFolder where
  readText path := fun w => (w.folder.readText path, w)
  writeText path text := fun w =>
    match w.folder.writeText path text with
    | .ok folder => (.ok (), { w with folder })
    | .error e => (.error e, w)
  out s := modify fun w => { w with out := w.out ++ s }
  err s := modify fun w => { w with err := w.err ++ s }
  now := fun w => (w.now, w)
  freshSeed := fun w => (w.seed, w)
  keyboard := fun w => (w.keyboard, w)

end SymbolicRegression.CommandLine
