/-
# LazyLambda.Settings.Load — where settings and history are kept on disk.
-/
import LazyLambda.Files.Disk
import LazyLambda.Settings.Decode

namespace LazyLambda.Settings

/-- Where a user's files belong. -/
structure Homes where
  /-- The user's own configuration. -/
  config : String
  /-- Configuration for all users, the first directory first. -/
  configDirs : List String
  /-- What programs keep from one run to the next. -/
  state : String
  deriving DecidableEq, Inhabited

/-- Where settings are kept below a directory for configuration. -/
def fileName : String := "lcalc/config.yaml"

/-- Where the history is kept below a directory for state. -/
def historyName : String := "lcalc/history"

/-- The file with settings that is in use, if there is one. -/
def findFile (disk : Files.Disk) (homes : Homes) : Option String :=
  ((homes.config :: homes.configDirs).map fun dir => Path.join dir fileName).find?
    disk.fileExists

/-- Why settings cannot be had from a file. -/
inductive LoadFailure where
  | unreadable (path : String) (error : Files.Error)
  | invalid (path : String) (error : DecodeError)
  deriving DecidableEq, Inhabited

/-- The failure in words, given those for a text that is malformed. -/
def LoadFailure.message (malformed : String) : LoadFailure → String
  | .unreadable path e => s!"failed to read config {path}: {e.message}"
  | .invalid path .malformed => s!"invalid config {path}: {malformed}"
  | .invalid path (.objection o) => s!"invalid config {path}: {o.message}"

/-- The settings that a file makes of the usual ones, and what is wrong with it. No path stands for the
file in use, and a file that is missing changes nothing. -/
def load (disk : Files.Disk) (homes : Homes) (path : String) : Settings × Option LoadFailure :=
  match if path = "" then findFile disk homes else some path with
  | none => ({}, none)
  | some path =>
    match disk.read path with
    | .error e => ({}, if e.isMissing then none else some (.unreadable path e))
    | .ok text =>
      let (s, error) := ({} : Settings).decode text.toString
      (s, error.map (.invalid path))

/-- Why there is no place for the history: its directory cannot be made. -/
structure NoPlace where
  dir : String
  deriving DecidableEq, Inhabited

/-- The error in words. -/
def NoPlace.message (e : NoPlace) : String :=
  s!"could not create any of the following paths: {e.dir}"

/-- Where the history of the shell is kept, and the disk with the directory for it. -/
def historyPath (s : Settings) (disk : Files.Disk) (homes : Homes) :
    Except NoPlace (String × Files.Disk) :=
  if s.historyFile ≠ "" then .ok (s.historyFile, disk)
  else
    let path := Path.join homes.state historyName
    let dir := Path.parent path
    if disk.fileExists dir then .ok (path, disk)
    else match disk.makeDirectories dir with
      | .ok disk' => .ok (path, disk')
      | .error _ => .error ⟨dir⟩

end LazyLambda.Settings
