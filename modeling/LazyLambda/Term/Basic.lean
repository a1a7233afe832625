/-
# LazyLambda.Term.Basic — terms: expressions whose names may have been given a meaning.

An identifier of a term is *free* until a meaning is found for it. It then keeps its name and carries
the term that it stands for: a *global* one the definition that the name had at that moment, a
*passed* one the argument of the call that bound it. What an identifier carries is closed off: no
later substitution looks inside.

`Term.inspect` writes a term in the syntax that expressions are read in.
-/
import LazyLambda.Expr.Basic

namespace LazyLambda

/-- A term. -/
inductive Term where
  | lam (param : String) (body : Term)
  | app (target argument : Term)
  /-- An identifier without a meaning so far. -/
  | free (name : String)
  /-- An identifier that stands for a global definition. -/
  | global (name : String) (definition : Term)
  /-- An identifier that stands for the argument of a call. -/
  | passed (name : String) (argument : Term)
  deriving DecidableEq, Inhabited

namespace Term

/-- The term of an expression, in which every name is free. -/
def ofExpr : Expr → Term
  | .name x => .free x
  | .lambda x body => .lam x (ofExpr body)
  | .apply f a => .app (ofExpr f) (ofExpr a)

/-! ## Writing terms -/

/-- The text in parentheses, if it holds the given character. -/
def parenthesiseIf (c : Char) (s : String) : String :=
  if s.toList.contains c then "(" ++ s ++ ")" else s

/-- The text of a term. Globals are shown by name and passed identifiers by what was passed. A target
with a function in it would swallow the argument, and an argument of several words would fall apart,
so these stand in parentheses. -/
def inspect : Term → String
  | .lam x body => "λ" ++ x ++ " " ++ body.inspect
  | .app f a => parenthesiseIf 'λ' f.inspect ++ " " ++ parenthesiseIf ' ' a.inspect
  | .free x => x
  | .global x _ => x
  | .passed _ t => t.inspect

end Term

end LazyLambda
