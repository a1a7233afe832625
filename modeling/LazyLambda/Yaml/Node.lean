/-
# LazyLambda.Yaml.Node — the trees that YAML texts stand for.
-/
import LazyLambda.Yaml.Token

namespace LazyLambda.Yaml

/-- A node of a YAML document. -/
inductive Node where
  /-- A token that is no node where it stands. -/
  | void
  | scalar (text : String) (value : Scalar)
  /-- The key of fields that are merged in. -/
  | mergeKey
  | sequence (items : List Node)
  /-- A mapping, which may be in braces. -/
  | mapping (braced : Bool) (fields : List (Node × Node))
  | tagged (tag : String) (content : Node)
  | anchored (name : String) (content : Node)
  | alias (name : String)
  /-- A key behind a question mark. -/
  | explicitKey (content : Node)
  | document (body : Node)
  deriving Inhabited

namespace Node

/-- The node that stands for nothing. -/
def null : Node := .scalar "null" .null

/-- Whether a node is a string by itself. -/
def isString : Node → Bool
  | .scalar _ (.string _) => true
  | _ => false

/-- Whether there is a node at all. -/
def isVoid : Node → Bool
  | .void => true
  | _ => false

/-- The text that a node starts with, as far as it can be the name of an anchor. -/
def label : Node → String
  | .scalar text _ => text
  | .mapping false _ => ":"
  | .mapping true _ => "\x7b"
  | .sequence _ => "["
  | .tagged tag _ => tag
  | .anchored .. => "&"
  | .alias _ => "*"
  | _ => ""

end Node

end LazyLambda.Yaml
