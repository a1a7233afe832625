/-
# LazyLambda.Shell.Lines — lines read from a stream.

A line ends at a line feed, which is not part of it, and neither is a carriage return before it. The
last line need not be ended. There is room for so many bytes at a time: a line whose end does not show
within them cannot be read, and nothing after it is.
-/
import LazyLambda.Text.Basic

namespace LazyLambda.Shell

/-- How a stream of lines ends. -/
inductive Ending where
  /-- There are no more lines. -/
  | closed
  /-- The person at the prompt has given up on it. -/
  | interrupted
  /-- Reading has failed. -/
  | broken (message : String)
  deriving DecidableEq, Inhabited

/-- The bytes there is room for while the end of a line is looked for. -/
def room : Nat := 65536

/-- What reading fails with when a line is too long. -/
def tooLong : Ending := .broken "bufio.Scanner: token too long"

/-- The line without a carriage return at its end. -/
def dropReturn (line : Text) : Text :=
  if line.getLast? = some (.char '\r') then line.dropLast else line

/-- The lines of a text that ends in the given way, and how reading them ends. -/
def lines (ending : Ending) (t : Text) : List Text × Ending :=
  match t with
  | [] => ([], ending)
  | s :: rest =>
    let line : Text := (s :: rest).takeWhile (· ≠ .char '\n')
    if room ≤ line.size then ([], tooLong)
    else
      let (more, last) := lines ending ((s :: rest).drop (line.length + 1))
      (dropReturn line :: more, last)
termination_by t.length
decreasing_by
  simp only [List.length_drop, List.length_cons]
  omega

end LazyLambda.Shell
