/-
# LazyLambda.Library.Directory — directories of modules.

The modules of a directory are the files directly in it whose names end in `.lc`, in natural order of
their paths. Names are strings here (`Files.View`): files with names of other bytes are left out of account.
-/
import LazyLambda.Files.Basic
import LazyLambda.Files.Path
import LazyLambda.Library.Source
import LazyLambda.Text.Numeral

namespace LazyLambda.Library

/-- How the names of modules end. -/
def extension : String := ".lc"

/-- Why a directory of modules cannot be read. -/
inductive DirectoryError where
  /-- The directory cannot be reached. -/
  | unreachable (dir : String) (error : Files.Error)
  /-- The path leads to something else. -/
  | notDirectory (dir : String)
  /-- A module in it cannot be read. -/
  | unreadable (name : String) (error : Files.Error)
  /-- Its modules cannot be loaded. -/
  | unloadable (error : Error)
  deriving DecidableEq, Inhabited

namespace DirectoryError

/-- The error in words. -/
def message : DirectoryError → String
  | .unreachable dir e => s!"failed to read library directory {dir}: {e.message}"
  | .notDirectory dir => s!"failed to read library directory {dir}: not a directory"
  | .unreadable name e => s!"failed to read module {name}: {e.message}"
  | .unloadable e => e.message

end DirectoryError

/-- Whether an entry of a directory is a module. -/
def isModule (entry : String × Bool) : Bool :=
  !entry.2 && extension.toList.isSuffixOf entry.1.toList

/-- The sources of that name in a directory, in the given order. -/
def readAll (v : Files.View) (dir : String) : List String → Except DirectoryError (List Source)
  | [] => .ok []
  | name :: rest => do
    let path := Path.join dir name
    let text ← (v.read path).mapError (.unreadable path)
    return ⟨path, text⟩ :: (← readAll v dir rest)

/-- Whether a source comes before another. -/
def Source.before (a b : Source) : Bool := Text.naturalLess a.name.toList b.name.toList

/-- The sources in a directory, in natural order. -/
def readDirectory (v : Files.View) (dir : String) : Except DirectoryError (List Source) := do
  if !(← (v.isDirectory dir).mapError (.unreachable dir)) then throw (.notDirectory dir)
  let entries ← (v.list dir).mapError (.unreachable dir)
  let sources ← readAll v dir ((entries.filter isModule).map Prod.fst)
  return Text.sortBy Source.before sources

/-- Loads the modules of a directory into a session. -/
def loadDirectory (s : Session) (v : Files.View) (dir : String) : Effect DirectoryError Unit :=
  match readDirectory v dir with
  | .error e => ⟨.error e, s, []⟩
  | .ok sources => (load s sources).mapError .unloadable

end LazyLambda.Library
