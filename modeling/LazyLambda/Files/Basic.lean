/-
# LazyLambda.Files.Basic — what is asked of files in order to read a directory, and why it may fail.
-/
import LazyLambda.Text.Basic

namespace LazyLambda.Files

/-! ## Errors -/

/-- Why the system refuses a call. -/
inductive Refusal where
  | noEntry
  | notDirectory
  | isDirectory
  | nameTooLong
  | invalid
  deriving DecidableEq, Inhabited

/-- A refusal in the system's words. -/
def Refusal.message : Refusal → String
  | .noEntry => "no such file or directory"
  | .notDirectory => "not a directory"
  | .isDirectory => "is a directory"
  | .nameTooLong => "file name too long"
  | .invalid => "invalid argument"

/-- Why something cannot be done with a file. -/
inductive Error where
  /-- There is no such file. -/
  | missing
  /-- The path leads out of the files that are open to view. -/
  | outside
  /-- A directory was to be read as a file. -/
  | directory (path : String)
  /-- The system refused a call on a path. -/
  | system (call path : String) (refusal : Refusal)
  deriving DecidableEq, Inhabited

namespace Error

/-- The error in words. -/
def message : Error → String
  | .missing => "file does not exist"
  | .outside => "chroot boundary crossed"
  | .directory path => s!"cannot open directory: {path}"
  | .system call path r => s!"{call} {path}: {r.message}"

/-- Whether the trouble is that there is no such file. -/
def isMissing : Error → Bool
  | .missing => true
  | .system _ _ .noEntry => true
  | _ => false

end Error

/-! ## Views -/

/-- Files that can be looked at by path. Paths and names are strings, so that files whose names are not
well-formed UTF-8 are not among them. Texts of files may be any bytes. -/
structure View where
  /-- Whether a path leads to a directory. -/
  isDirectory : String → Except Error Bool
  /-- The names in a directory in increasing order, each with whether it is itself a directory. -/
  list : String → Except Error (List (String × Bool))
  /-- The text of a file. -/
  read : String → Except Error Text

end LazyLambda.Files
