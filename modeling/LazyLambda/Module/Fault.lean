/-
# LazyLambda.Module.Fault — what can be wrong with the text of a module.
-/
import LazyLambda.Token.Basic

namespace LazyLambda

/-- What a reader of tokens complains about. -/
inductive Complaint where
  /-- An expression should start here. -/
  | noExpression
  /-- The name of a parameter should stand here. -/
  | noParameter
  /-- The parenthesis opened at the position should be closed here. -/
  | unclosed (opened : Position)
  /-- The statement should end here. -/
  | leftover
  /-- The module has no statements at all. -/
  | emptyModule
  deriving DecidableEq, Inhabited

/-- A complaint, and the token it is about. -/
structure Fault where
  complaint : Complaint
  found : Token
  deriving DecidableEq, Inhabited

namespace Fault

/-- What is wrong, without the position. -/
def text (f : Fault) : String :=
  match f.complaint with
  | .noExpression => s!"expected an expression, got {f.found.describe}"
  | .noParameter => s!"expected a parameter name, got {f.found.describe}"
  | .unclosed opened =>
    s!"expected \")\" to close \"(\" opened at {opened.render}, got {f.found.describe}"
  | .leftover => s!"unexpected {f.found.describe}"
  | .emptyModule => "empty module"

/-- What is wrong, after the position. -/
def message (f : Fault) : String := s!"{f.found.pos.render}: {f.text}"

/-- The messages of some faults, one on a line. -/
def messages (fs : List Fault) : String := String.intercalate "\n" (fs.map message)

end Fault

end LazyLambda
