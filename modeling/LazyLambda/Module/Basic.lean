/-
# LazyLambda.Module.Basic — statements and modules.

A module is a list of statements under a name, which says where the text came from and may be empty.
A statement gives an expression a global name, or stands for an expression to be shown.
-/
import LazyLambda.Expr.Basic

namespace LazyLambda

/-- A statement of a module. -/
inductive Statement where
  /-- Gives the expression a global name. -/
  | define (target : String) (expr : Expr)
  /-- Asks for the value of an expression. -/
  | bare (expr : Expr)
  deriving DecidableEq, Inhabited

namespace Statement

/-- The tree of a statement. -/
def render : Statement → String
  | .define target expr => target ++ " = " ++ expr.render
  | .bare expr => expr.render

/-- The tree of a statement without its names. -/
def shape : Statement → String
  | .define _ expr => "let(" ++ expr.shape ++ ")"
  | .bare expr => expr.shape

end Statement

/-- A named list of statements. -/
structure Module where
  name : String
  statements : List Statement
  deriving DecidableEq, Inhabited

namespace Module

/-- The trees of some statements, one on a line. -/
def renderAll (statements : List Statement) : String :=
  String.join (statements.map fun s => s.render ++ "\n")

/-- The tree of a module, one statement on a line. -/
def render (m : Module) : String := renderAll m.statements

/-- How messages call the module at an index of a list: by its name, or else by the index. -/
def label (m : Module) (index : Nat) : String := if m.name = "" then s!"#{index}" else m.name

end Module

end LazyLambda
