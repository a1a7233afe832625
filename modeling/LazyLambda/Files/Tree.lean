/-
# LazyLambda.Files.Tree — trees of files, as values.

A place in a tree is the list of names that lead to it from the root. Every place between the root
and an item is a directory.
-/
import LazyLambda.Text.Basic

namespace LazyLambda.Files

/-- What stands at a place. -/
inductive Item where
  | directory
  | file (text : Text)
  /-- A name for another place, written as a path. -/
  | link (target : String)
  deriving DecidableEq, Inhabited

/-- A place in a tree. -/
abbrev Place := List String

/-- A tree: its places and what stands there. -/
structure Tree where
  entries : List (Place × Item)
  deriving DecidableEq, Inhabited

namespace Tree

/-- A tree with nothing in it, not even a root. -/
def empty : Tree := ⟨[]⟩

/-- What stands at a place. -/
def get? (t : Tree) (p : Place) : Option Item := t.entries.lookup p

/-- The tree with an item at a place, in the room of what stood there. -/
def set (t : Tree) (p : Place) (i : Item) : Tree :=
  ⟨t.entries.filter (fun e => e.1 ≠ p) ++ [(p, i)]⟩

/-- The tree with a directory at a place, unless something stands there. -/
def ensureDirectory (t : Tree) (p : Place) : Tree :=
  if (t.get? p).isSome then t else t.set p .directory

/-- The places on the way to a place, from the root on. -/
def ancestors (p : Place) : List Place := (List.range p.length).map fun n => p.take n

/-- The tree with an item at a place, and with the directories that lead to it. -/
def put (t : Tree) (p : Place) (i : Item) : Tree :=
  ((ancestors p).foldl ensureDirectory t).set p i

/-- The name that a place has in a directory, if it lies directly there. -/
def nameIn? (dir p : Place) : Option String :=
  match p.getLast? with
  | some name => if p.dropLast = dir then some name else none
  | none => none

/-- One name more in a listing, which is in increasing order. -/
def insertName (x : String × Item) : List (String × Item) → List (String × Item)
  | [] => [x]
  | y :: rest => if x.1 < y.1 then x :: y :: rest else y :: insertName x rest

/-- What lies directly in a directory, in increasing order of names. -/
def list (t : Tree) (dir : Place) : List (String × Item) :=
  let inside := t.entries.filterMap fun e => (nameIn? dir e.1).map fun name => (name, e.2)
  inside.foldl (fun l x => insertName x l) []

end Tree

end LazyLambda.Files
