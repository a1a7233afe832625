/-
# LazyLambda.Files.Store — a tree of files on its own.

Paths are taken from the root of the tree and settled by their text. A link stands for the file that
its target leads to.
-/
import LazyLambda.Files.Basic
import LazyLambda.Files.Path
import LazyLambda.Files.Tree

namespace LazyLambda.Files.Store

/-- The place that a path leads to. A path that climbs above the root is refused, unless it only
says `..`, which is the root. -/
def locate (path : String) : Except Error Place :=
  if ['.', '.', '/'].isPrefixOf (Path.clean path).toList then .error .outside
  else .ok (Path.settled ("/" ++ path))

/-- The place that a link's target leads to, for a link at the given place. -/
def targetPlace (p : Place) (target : String) : Place :=
  if Path.isAbsolute target then Path.settled target
  else Path.settled ("/" ++ String.intercalate "/" p.dropLast ++ "/" ++ target)

/-- What stands at a place once links are followed, at most `hops` of them, and where. -/
def follow (t : Tree) (hops : Nat) (p : Place) : Except Error (Place × Item) :=
  match t.get? p with
  | none => .error .missing
  | some (.link target) =>
    match hops with
    | 0 => .error .missing
    | hops + 1 => follow t hops (targetPlace p target)
  | some i => .ok (p, i)

/-- What a path leads to. -/
def find (t : Tree) (path : String) : Except Error (Place × Item) := do
  follow t t.entries.length (← locate path)

/-- Whether a path leads to a directory. -/
def isDirectory (t : Tree) (path : String) : Except Error Bool := do
  return (← find t path).2 = .directory

/-- What lies in the directory that a path leads to. A link is no directory, whatever it stands
for. -/
def list (t : Tree) (path : String) : Except Error (List (String × Bool)) := do
  let (p, _) ← find t path
  return (t.list p).map fun e => (e.1, e.2 = .directory)

/-- The text of the file that a path leads to. -/
def read (t : Tree) (path : String) : Except Error Text := do
  match ← find t path with
  | (_, .file text) => return text
  | (p, _) => throw (.directory ("/" ++ String.intercalate "/" p))

/-- The files of a tree by paths from its root. -/
def view (t : Tree) : View := ⟨isDirectory t, list t, read t⟩

end LazyLambda.Files.Store
