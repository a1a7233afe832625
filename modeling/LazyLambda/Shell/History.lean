/-
# LazyLambda.Shell.History — what was typed, kept in a file from one run to the next.

The file has one item on a line. There is a limit to how long a line may be, and to how many items are
kept; the oldest go first.
-/
import LazyLambda.Files.Disk
import LazyLambda.Log.Entry

namespace LazyLambda.Shell

/-- What was typed, the oldest item first. -/
structure History where
  items : List Text
  deriving DecidableEq, Inhabited

namespace History

/-- How many items are kept. -/
def limit : Nat := 1000

/-- The bytes there is room for while a line of the file is read, its end included. -/
def lineRoom : Nat := 4096

/-- No items. -/
def empty : History := ⟨[]⟩

/-- The last items, as many as are kept. -/
def keepLast (items : List Text) : History := ⟨items.drop (items.length - limit)⟩

/-- Adds an item, unless the last one is the same. -/
def append (h : History) (item : Text) : History :=
  if h.items.getLast? = some item then h else keepLast (h.items ++ [item])

/-- The text of the file. -/
def render (h : History) : Text := h.items.flatMap fun item => item ++ [.char '\n']

/-! ## Reading -/

/-- Why a line of the file cannot be read. Lines are counted from one. -/
inductive LineError where
  | tooLong (line : Nat)
  | invalid (line : Nat)
  deriving DecidableEq, Inhabited

/-- The error in words. -/
def LineError.message : LineError → String
  | .tooLong n => s!"line {n} is too long"
  | .invalid n => s!"invalid string at line {n}"

/-- The lines of a text up to the first that cannot be read, counted from a number. A carriage return
before the end of a line is not part of it. -/
def linesFrom (number : Nat) (t : Text) : List Text × Option LineError :=
  match t with
  | [] => ([], none)
  | s :: rest =>
    let raw : Text := (s :: rest).takeWhile (· ≠ .char '\n')
    let after := (s :: rest).drop raw.length
    let line : Text :=
      if !after.isEmpty && raw.getLast? = some (.char '\r') then raw.dropLast else raw
    if lineRoom ≤ raw.size then ([], some (.tooLong number))
    else if !line.isWellFormed then ([], some (.invalid number))
    else
      let (more, error) := linesFrom (number + 1) ((s :: rest).drop (raw.length + 1))
      (line :: more, error)
termination_by t.length
decreasing_by
  simp only [List.length_drop, List.length_cons]
  omega

/-- Reads the text of a file, as far as that is possible. -/
def parse (t : Text) : History × Option LineError :=
  let (items, error) := linesFrom 1 t
  (keepLast items, error)

/-! ## Files -/

/-- The entry of the log for something that went wrong. -/
def warning (message error : String) (more : List (String × Log.Value)) : Log.Entry :=
  ⟨.warn, message, (Log.errorField, .text error) :: more⟩

/-- Reads the history from a file, and tells what there is to log. -/
def load (disk : Files.Disk) (path : String) : History × List Log.Entry :=
  match disk.read path with
  | .ok text =>
    let (h, error) := parse text
    (h, error.toList.map fun e => warning "failed to read history" e.message [])
  | .error e =>
    if e.isMissing then (empty, [⟨.info, "no previous history", []⟩])
    else if disk.fileExists path then (empty, [warning "failed to read history" e.message []])
    else (empty, [warning "failed to open history" e.message []])

/-- Writes the history to a file, in a directory that is made if need be, and tells what there is to
log. -/
def save (h : History) (disk : Files.Disk) (path : String) : Files.Disk × List Log.Entry :=
  let failed (e : Files.Error) :=
    [warning "failed to save history" e.message [("path", .text path)]]
  match disk.makeDirectories (Path.parent path) with
  | .error e => (disk, failed e)
  | .ok disk' =>
    match disk'.write path h.render with
    | .error e => (disk', failed e)
    | .ok disk'' => (disk'', [])

end History

end LazyLambda.Shell
