/-
# LazyLambda.Module.Json — modules as JSON text.

Every statement and every expression is an object with a `type` field first. The module itself has none:
its object holds its name, unless that is empty, and its statements. The text comes in two layouts, on one
line or indented by two spaces; they differ in blanks between the parts and in nothing else.
-/
import LazyLambda.Module.Basic
import LazyLambda.Text.Quoted

namespace LazyLambda.Json

/-! ## Strings -/

/-- The form of a character in a JSON string. Besides what the format requires, the characters that
matter to HTML and the two Unicode line separators are written by number. -/
def escapedChar (c : Char) : String :=
  match c with
  | '"' => "\\\""
  | '\\' => "\\\\"
  | '\n' => "\\n"
  | '\r' => "\\r"
  | '\t' => "\\t"
  | _ =>
    if c.toNat < 0x20 || c = '<' || c = '>' || c = '&' || c = '\u2028' || c = '\u2029' then
      "\\u" ++ Text.hex 4 c.toNat
    else String.ofList [c]

/-- A JSON string. -/
def ofString (s : String) : String := "\"" ++ String.join (s.toList.map escapedChar) ++ "\""

/-! ## Layouts -/

/-- How the parts of a text are set apart. -/
inductive Layout where
  /-- Everything on one line, without blanks. -/
  | compact
  /-- Each field and each item on a line of its own. -/
  | indented
  deriving DecidableEq, Inhabited

namespace Layout

/-- What stands before a part at some depth of nesting. -/
def lineBreak (l : Layout) (depth : Nat) : String :=
  match l with
  | .compact => ""
  | .indented => "\n" ++ String.ofList (List.replicate (2 * depth) ' ')

/-- What stands between a field's name and its value. -/
def colon : Layout → String
  | .compact => ":"
  | .indented => ": "

/-- Some parts at a depth, with commas between them and the given brackets around them. -/
def bracket (l : Layout) (depth : Nat) (left right : String) (parts : List String) : String :=
  left ++ l.lineBreak (depth + 1) ++ String.intercalate ("," ++ l.lineBreak (depth + 1)) parts
    ++ l.lineBreak depth ++ right

/-- A field of an object, given the text of its value. -/
def field (l : Layout) (name value : String) : String := ofString name ++ l.colon ++ value

/-- An object, given the names of its fields and the texts of their values. -/
def object (l : Layout) (depth : Nat) (fields : List (String × String)) : String :=
  l.bracket depth "\x7b" "\x7d" (fields.map fun f => l.field f.1 f.2)

end Layout

/-! ## Nodes -/

/-- The text of an expression at a depth. -/
def ofExpr (l : Layout) (depth : Nat) : Expr → String
  | .name x => l.object depth [("type", ofString "identifier"), ("name", ofString x)]
  | .lambda x body => l.object depth
      [("type", ofString "definition"), ("parameter", ofString x), ("body", ofExpr l (depth + 1) body)]
  | .apply f a => l.object depth
      [("type", ofString "application"), ("target", ofExpr l (depth + 1) f),
        ("argument", ofExpr l (depth + 1) a)]

/-- The text of a statement at a depth. -/
def ofStatement (l : Layout) (depth : Nat) : Statement → String
  | .define target e => l.object depth
      [("type", ofString "assignment"), ("target", ofString target), ("expr", ofExpr l (depth + 1) e)]
  | .bare e => l.object depth [("type", ofString "expression"), ("expr", ofExpr l (depth + 1) e)]

/-- The text of a list of statements at a depth; no statements at all are written `null`. -/
def ofStatements (l : Layout) (depth : Nat) : List Statement → String
  | [] => "null"
  | ss => l.bracket depth "[" "]" (ss.map (ofStatement l (depth + 1)))

/-- The text of a module. An empty name is left out. -/
def ofModule (l : Layout) (m : Module) : String :=
  let body := [("statements", ofStatements l 1 m.statements)]
  l.object 0 (if m.name = "" then body else ("name", ofString m.name) :: body)

end LazyLambda.Json
