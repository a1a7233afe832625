/-
# LazyLambda.Yaml.Token — the pieces that YAML texts are made of.
-/
import LazyLambda.Yaml.Scalar

namespace LazyLambda.Yaml

/-- A piece that is no scalar. -/
inductive Mark where
  /-- The hyphen before an item of a sequence. -/
  | entry
  /-- The question mark before a key. -/
  | key
  /-- The colon after a key. -/
  | colon
  | comma
  | openSequence
  | closeSequence
  | openMapping
  | closeMapping
  /-- What stands for the key of fields that are merged in. -/
  | merge
  /-- Three hyphens, which start a document. -/
  | header
  /-- Three points, which end a document. -/
  | footer
  | directive
  | anchor
  | alias
  | tag
  /-- What announces a scalar in lines of its own. -/
  | block
  | comment
  deriving DecidableEq, Inhabited

/-- What a token is. -/
inductive Kind where
  | plain (value : Scalar)
  | quoted
  | mark (m : Mark)
  deriving DecidableEq, Inhabited

/-- A token, its text, and the column that it is taken to start in. -/
structure Token where
  kind : Kind
  text : String
  column : Int
  /-- Whether it goes on over the end of a line. -/
  runsOver : Bool
  /-- Whether the next token, comments included, is a colon. -/
  beforeColon : Bool := false
  deriving DecidableEq, Inhabited

namespace Token

/-- Whether a token is a mark. -/
def isMark (t : Token) (m : Mark) : Bool := t.kind = .mark m

/-- Whether a token is a plain scalar that stands for itself. -/
def isWord (t : Token) : Bool :=
  match t.kind with
  | .plain (.string _) => true
  | _ => false

/-- What a token stands for, if it is a scalar. -/
def scalar? (t : Token) : Option Scalar :=
  match t.kind with
  | .plain v => some v
  | .quoted => some (.string t.text)
  | .mark _ => none

/-- Notes at each token whether a colon comes next, and then drops the comments. -/
def linked : List Token → List Token
  | [] => []
  | t :: rest =>
    let t := { t with beforeColon := rest.head?.any fun u => u.isMark .colon }
    if t.isMark .comment then linked rest else t :: linked rest

end Token

end LazyLambda.Yaml
