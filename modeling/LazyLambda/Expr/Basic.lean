/-
# LazyLambda.Expr.Basic — expressions as they are written, and two ways to show them.

An expression is a name, a function of one parameter, or an application. `Expr.render` shows the
whole tree, with parentheses around every function and application; `Expr.shape` shows the tree
without its names.
-/

namespace LazyLambda

/-- An expression of the source. -/
inductive Expr where
  | name (name : String)
  | lambda (param : String) (body : Expr)
  | apply (target argument : Expr)
  deriving DecidableEq, Inhabited

namespace Expr

/-- The tree of an expression, fully parenthesised. -/
def render : Expr → String
  | .name x => x
  | .lambda x body => "(λ" ++ x ++ " " ++ body.render ++ ")"
  | .apply f a => "(" ++ f.render ++ " @ " ++ a.render ++ ")"

/-- The tree of an expression without its names. -/
def shape : Expr → String
  | .name _ => "id"
  | .lambda _ body => "def(" ++ body.shape ++ ")"
  | .apply f a => "call(" ++ f.shape ++ ", " ++ a.shape ++ ")"

end Expr

end LazyLambda
