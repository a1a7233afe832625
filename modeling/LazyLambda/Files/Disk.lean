/-
# LazyLambda.Files.Disk — a tree of files as an operating system shows it.

Paths are taken from the root or from the working directory and walked one component after another:
each component needs a directory to be looked up in, also `.`, `..` and the empty one after a final
slash.
-/
import LazyLambda.Files.Basic
import LazyLambda.Files.Path
import LazyLambda.Files.Tree

namespace LazyLambda.Files

/-- A tree of files and a working directory. -/
structure Disk where
  tree : Tree
  workingDirectory : Place
  deriving DecidableEq, Inhabited

namespace Disk

/-- How many bytes a name may have. -/
def maxName : Nat := 255

/-- How many bytes a path may have, the mark of its end included. -/
def maxPath : Nat := 4096

/-- What stands at a place; the root is always there. -/
def item? (d : Disk) (p : Place) : Option Item := if p = [] then some .directory else d.tree.get? p

/-- The place that one component leads to from a place. -/
def enter (d : Disk) (p : Place) (c : String) : Except Refusal Place :=
  match d.item? p with
  | none => .error .noEntry
  | some .directory =>
    if c = "" || c = "." then .ok p
    else if c = ".." then .ok p.dropLast
    else if maxName < c.utf8ByteSize then .error .nameTooLong
    else .ok (p ++ [c])
  | some _ => .error .notDirectory

/-- The place that some components lead to from a place. The last of them need not exist. -/
def walk (d : Disk) (p : Place) : List String → Except Refusal Place
  | [] => .ok p
  | c :: cs => do walk d (← d.enter p c) cs

/-- The place that a path leads to, whether or not something stands there. -/
def locate (d : Disk) (path : String) : Except Refusal Place :=
  if path.toList.contains '\x00' then .error .invalid
  else if path = "" then .error .noEntry
  else if maxPath ≤ path.utf8ByteSize then .error .nameTooLong
  else d.walk (if Path.isAbsolute path then [] else d.workingDirectory) (Path.components path)

/-- What a path leads to. -/
def find (d : Disk) (path : String) : Except Refusal (Place × Item) := do
  let p ← d.locate path
  match d.item? p with
  | some i => return (p, i)
  | none => throw .noEntry

/-- The outcome of a call on a path, as it is reported. -/
def report {α : Type} (call path : String) (r : Except Refusal α) : Except Error α :=
  r.mapError (.system call path)

/-- Whether a path leads to anything. -/
def fileExists (d : Disk) (path : String) : Bool := (d.find path).isOk

/-- Whether a path leads to a directory. -/
def isDirectory (d : Disk) (path : String) : Except Error Bool := do
  return (← report "stat" path (d.find path)).2 = .directory

/-- What lies in the directory that a path leads to. -/
def list (d : Disk) (path : String) : Except Error (List (String × Bool)) := do
  let (p, _) ← report "open" path (d.find path)
  return (d.tree.list p).map fun e => (e.1, e.2 = .directory)

/-- The text of the file that a path leads to. -/
def read (d : Disk) (path : String) : Except Error Text := do
  match (← report "open" path (d.find path)).2 with
  | .file text => return text
  | _ => throw (.system "read" path .isDirectory)

/-! ## Changes -/

/-- Makes one directory at a path. -/
def makeDirectory (d : Disk) (path : String) : Except Error Disk := do
  let p ← report "mkdir" path (d.locate path)
  return { d with tree := d.tree.set p .directory }

/-- Makes sure that a path leads to a directory, given the paths on the way in order, the path itself
last. Something else on the way is an obstacle. -/
def makeAll (d : Disk) : List String → Except Error Disk
  | [] => .ok d
  | path :: rest =>
    match d.find path with
    | .ok (_, .directory) => makeAll d rest
    | .ok _ => .error (.system "mkdir" path .notDirectory)
    | .error _ => do makeAll (← d.makeDirectory path) rest

/-- A path and those on the way to it, in order. -/
def steps (path : String) : List String :=
  let cs := Path.settled path
  if cs = [] then [path]
  else (List.range cs.length).map fun n =>
    (if Path.isAbsolute path then "/" else "") ++ String.intercalate "/" (cs.take (n + 1))

/-- Makes sure that a path leads to a directory. -/
def makeDirectories (d : Disk) (path : String) : Except Error Disk := d.makeAll (steps path)

/-- Writes a text to the file at a path, in the room of what it held. -/
def write (d : Disk) (path : String) (text : Text) : Except Error Disk := do
  let p ← report "open" path (d.locate path)
  match d.item? p with
  | some .directory => throw (.system "open" path .isDirectory)
  | _ => return { d with tree := d.tree.set p (.file text) }

/-! ## Directories seen from inside -/

/-- The files in and below the directory at a path, by paths from there. -/
def view (d : Disk) (base : String) : View where
  isDirectory path := d.isDirectory (Path.join base path)
  list path := d.list (Path.join base path)
  read path := d.read (Path.join base path)

end Disk

end LazyLambda.Files
