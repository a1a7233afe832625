/-
# LazyLambda.Term.Binding — giving identifiers a meaning.

`Term.resolve` looks free identifiers up among the globals. It knows nothing of parameters: an
identifier under a function of that parameter is resolved like any other, and the call that binds the
parameter replaces it all the same.

`Term.bind` replaces identifiers by the arguments of calls, whatever they stood for before. A
function hides its own parameter from the replacement.

Neither looks inside what an identifier stands for.
-/
import LazyLambda.Term.Basic

namespace LazyLambda

/-! ## Chains of bindings -/

/-- Parameters bound to arguments, the innermost first. -/
abbrev Chain := List (String × Term)

namespace Chain

/-- What the innermost binding of a name binds it to. -/
def find? (c : Chain) (x : String) : Option Term := c.lookup x

/-- The chain without the bindings of a name. -/
def without (c : Chain) (x : String) : Chain := c.filter fun b => b.1 ≠ x

/-- Whether a chain binds a name at all. -/
def binds (c : Chain) (x : String) : Bool := c.any fun b => b.1 = x

end Chain

namespace Term

/-! ## Arguments -/

/-- The term with every identifier that the chain binds replaced by its argument. -/
def bind (c : Chain) : Term → Term
  | .lam x body =>
    let inner := c.without x
    if inner.isEmpty then .lam x body else .lam x (body.bind inner)
  | .app f a => .app (f.bind c) (a.bind c)
  | .free x => ((c.find? x).map (.passed x)).getD (.free x)
  | .global x t => ((c.find? x).map (.passed x)).getD (.global x t)
  | .passed x t => ((c.find? x).map (.passed x)).getD (.passed x t)

/-- Whether `bind` replaces anything. -/
def bindChanges (c : Chain) : Term → Bool
  | .lam x body => body.bindChanges (c.without x)
  | .app f a => f.bindChanges c || a.bindChanges c
  | .free x => c.binds x
  | .global x _ => c.binds x
  | .passed x _ => c.binds x

/-- The term with one parameter replaced by its argument. -/
def subst (t : Term) (x : String) (arg : Term) : Term := t.bind [(x, arg)]

/-! ## Globals -/

/-- The term with every free identifier that has a definition resolved to it. -/
def resolve (definition? : String → Option Term) : Term → Term
  | .lam x body => .lam x (body.resolve definition?)
  | .app f a => .app (f.resolve definition?) (a.resolve definition?)
  | .free x => ((definition? x).map (.global x)).getD (.free x)
  | .global x t => .global x t
  | .passed x t => .passed x t

/-- Whether `resolve` resolves anything. -/
def resolveChanges (definition? : String → Option Term) : Term → Bool
  | .lam _ body => body.resolveChanges definition?
  | .app f a => f.resolveChanges definition? || a.resolveChanges definition?
  | .free x => (definition? x).isSome
  | .global .. => false
  | .passed .. => false

end Term

end LazyLambda
