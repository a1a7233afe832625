/-
# LazyLambda.Main — the program.

What the program answers is worked out by `Command.answer`. Here the files that it can ask for are
looked up beforehand, and its answer is written out. Only a conversation on a terminal goes line by
line.
-/
import LazyLambda.Command.Run
import LazyLambda.Shell.History
import Std.Time.DateTime.Timestamp

namespace LazyLambda.Program

/-! ## What is around -/

/-- The place on disk that a path leads to from the working directory. -/
def placeOf (cwd path : String) : Files.Place :=
  Path.settled (if Path.isAbsolute path then path else cwd ++ "/" ++ path)

/-- Adds what stands at a path to a tree: a file with its text, or a directory with the modules in
it. What cannot be read counts as missing. -/
def look (cwd : String) (tree : Files.Tree) (path : String) : IO Files.Tree := do
  let place := placeOf cwd path
  let here := (← IO.currentDir) / path
  try
    let entries ← here.readDir
    let mut found := tree.put place .directory
    for e in entries do
      if Library.isModule (e.fileName, false) then
        let item ← try pure (Files.Item.file (Text.ofBytes (← IO.FS.readBinFile e.path).toList))
          catch _ => pure Files.Item.directory
        found := found.put (place ++ [e.fileName]) item
    return found
  catch _ =>
    try return tree.put place (.file (Text.ofBytes (← IO.FS.readBinFile here).toList))
    catch _ => return tree

/-- An environment variable, or what stands in for one that is missing or empty. -/
def variableOr (name usual : String) : IO String := do
  match ← IO.getEnv name with
  | some v => return if v = "" then usual else v
  | none => return usual

/-- Where the user's files belong. -/
def findHomes : IO Settings.Homes := do
  let home ← variableOr "HOME" "/"
  let dirs ← variableOr "XDG_CONFIG_DIRS" "/etc/xdg"
  return ⟨← variableOr "XDG_CONFIG_HOME" (Path.join home ".config"), dirs.splitOn ":",
    ← variableOr "XDG_STATE_HOME" (Path.join home ".local/state")⟩

/-- The disk as far as a command line can ask for it: its settings and its directories of modules. -/
def findDisk (homes : Settings.Homes) (usual : Command.Verb) (args : List String) :
    IO Files.Disk := do
  let cwd := (← IO.currentDir).toString
  let diskOf (tree : Files.Tree) : Files.Disk := ⟨tree, placeOf cwd "."⟩
  match Command.choose usual args with
  | .verb v args =>
    match v.readOptions args with
    | .ok (o, _) =>
      let files := if o.config = "" then
          (homes.config :: homes.configDirs).map fun d => Path.join d Settings.fileName
        else [o.config]
      let tree ← files.foldlM (look cwd) (Files.Tree.empty.put (placeOf cwd ".") .directory)
      let dirs := (Settings.load (diskOf tree) homes o.config).1.libraries ++ o.libraries
      return diskOf (← dirs.foldlM (look cwd) tree)
    | .error _ => return diskOf .empty
  | _ => return diskOf .empty

/-- The time of day, in hours of which a day has twice twelve. -/
def clock : IO String := do
  let seconds := (← Std.Time.Timestamp.now).toSecondsSinceUnixEpoch.val
  let minutes := (seconds % 86400).toNat / 60
  let hour := minutes / 60
  let shown := if hour % 12 = 0 then 12 else hour % 12
  let past := minutes % 60
  let zero := if past < 10 then "0" else ""
  let half := if hour < 12 then "AM" else "PM"
  return s!"{shown}:{zero}{past}{half}"

/-- A label for a session. -/
def freshLabel : IO String := do
  let digits := "0123456789abcdefghijklmnopqrstuv".toList
  let picks ← (List.range 20).mapM fun _ => IO.rand 0 31
  return String.ofList (picks.map fun n => digits.getD n '0')

/-! ## Input and output -/

/-- All that can be read from a stream. -/
partial def readAll (s : IO.FS.Stream) (before : ByteArray) : IO ByteArray := do
  let piece ← s.read 65536
  if piece.isEmpty then return before else readAll s (before ++ piece)

/-- Writes a text as the bytes that spell it. -/
def put (s : IO.FS.Stream) (t : Text) : IO Unit := s.write ⟨t.bytes.toArray⟩

/-- Writes an answer, and gives its status. -/
def write (a : Command.Answer) : IO UInt32 := do
  put (← IO.getStderr) a.errors
  put (← IO.getStdout) a.output
  return a.status.toUInt32

/-- Goes on with a conversation on a terminal, and gives the history of it. -/
partial def talk (w : Command.Workplace) (input : IO.FS.Stream) (st : Shell.State)
    (history : Shell.History) : IO Shell.History := do
  IO.print st.prompt
  (← IO.getStdout).flush
  let line ← input.getLine
  if line = "" then
    put (← IO.getStdout) (Shell.Ending.closed.output.render w.colored)
    return history
  let text := Shell.dropReturn ((Text.ofString line).filter (· ≠ .char '\n'))
  match st.enter text with
  | (st', none) => talk w input st' history
  | (st', some r) =>
    IO.eprint (w.log r.events)
    put (← IO.getStdout) (r.output.flatMap (Shell.Output.render w.colored))
    let history := r.history.elim history history.append
    if r.quit then return history else talk w input st' history

/-- Holds a conversation on a terminal, with its history in a file. -/
def converse (around : Command.Surroundings) (w : Command.Workplace) : IO UInt32 := do
  let loaded := w.openSession around.disk
  IO.eprint (w.log loaded.events)
  match loaded.result with
  | .error e => write (w.failure 1 e)
  | .ok () =>
    let path := if w.settings.historyFile ≠ "" then w.settings.historyFile
      else Path.join around.homes.state Settings.historyName
    let before ← try pure (Text.ofBytes (← IO.FS.readBinFile path).toList) catch _ => pure []
    IO.println "Welcome to the lcalc REPL. Type :help for help."
    let history ← talk w (← IO.getStdin) ⟨loaded.session, none⟩ (Shell.History.parse before).1
    try
      IO.FS.createDirAll (Path.parent path)
      IO.FS.writeBinFile path ⟨history.render.bytes.toArray⟩
    catch e => IO.eprintln s!"failed to save history: {e}"
    return 0

end LazyLambda.Program

open LazyLambda in
/-- Runs the program on the arguments of the command line. -/
def main (args : List String) : IO UInt32 := do
  let input ← IO.getStdin
  let terminal ← input.isTty
  let usual : Command.Verb := if terminal then .shell else .eval
  let homes ← Program.findHomes
  let around : Command.Surroundings :=
    { disk := ← Program.findDisk homes usual args
      homes := homes
      input := []
      inputError := none
      time := ← Program.clock
      sessionLabel := ← Program.freshLabel
      malformed := "malformed YAML" }
  match terminal, Command.choose usual args with
  | true, .verb .shell rest =>
    match Command.Verb.ready around .shell rest with
    | .error a => Program.write a
    | .ok (w, _) => Program.converse around w
  | _, .verb v rest =>
    match v.ready around rest with
    | .error a => Program.write a
    | .ok _ =>
      let text := Text.ofBytes (← Program.readAll input .empty).toList
      Program.write (v.answer { around with input := text } rest)
  | _, _ => Program.write (Command.answer around usual args)
