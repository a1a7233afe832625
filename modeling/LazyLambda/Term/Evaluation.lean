/-
# LazyLambda.Term.Evaluation — reduction by name to a function.

Evaluating a term looks for a function: a function is its own value, an identifier has the value of
what it stands for, and the value of an application is that of the function's body once the parameter
is bound to the argument. Arguments are bound unevaluated, and evaluated anew at each use.

Only applying a function counts as a reduction, and only so many are allowed. The number still allowed
is what evaluation ends by: a reduction lowers it, and between two reductions the term only gets
smaller. This holds although a reduction may make the term grow.
-/
import LazyLambda.Term.Binding
import LazyLambda.Term.Failure

namespace LazyLambda

/-! ## Runs -/

/-- Why a run stops short of a function. -/
inductive Stop where
  /-- At an identifier without a meaning. -/
  | unbound (name : String)
  /-- At a reduction when none is left. -/
  | spent
  deriving DecidableEq, Inhabited

/-- What a run comes to: a function, with fewer than `n` reductions left, or a stop. -/
inductive Run (n : Nat) where
  | value (param : String) (body : Term) (left : Fin n)
  | stopped (trace : List Context) (stop : Stop) (left : Nat)

namespace Run

/-- The same run, seen from further out. -/
def within {n : Nat} (c : Context) : Run n → Run n
  | .value x body left => .value x body left
  | .stopped trace stop left => .stopped (c :: trace) stop left

/-- The same run under a weaker bound. -/
def widen {m n : Nat} (h : m ≤ n) : Run m → Run n
  | .value x body left => .value x body (left.castLE h)
  | .stopped trace stop left => .stopped trace stop left

end Run

namespace Term

mutual

/-- Evaluates a term with `n` reductions left. -/
def run (n : Nat) (t : Term) : Run (n + 1) :=
  match t with
  | .lam x body => .value x body (Fin.last n)
  | .app f a => ((apply n f a).widen (Nat.le_succ n)).within .calling
  | .free x => .stopped [] (.unbound x) n
  | .global x u => (run n u).within (.executing x)
  | .passed x u => (run n u).within (.executing x)
termination_by (n, sizeOf t)

/-- Applies a term to an argument with `n` reductions left. A function is reached through
identifiers and inner applications; on success at least one reduction has been made. -/
def apply (n : Nat) (f arg : Term) : Run n :=
  match f with
  | .lam x body =>
    match n with
    | 0 => .stopped [] .spent 0
    | m + 1 => run m (body.subst x arg)
  | .free x => .stopped [] (.unbound x) n
  | .global _ u => apply n u arg
  | .passed _ u => apply n u arg
  | .app g b =>
    match apply n g b with
    | .value x body left => (apply left.val (.lam x body) arg).widen (Nat.le_of_lt left.isLt)
    | .stopped trace stop left => .stopped trace stop left
termination_by (n, sizeOf f)

end

end Term

/-! ## Evaluation under an allowance -/

/-- How many reductions an evaluation may make: as many as the limit says, or, without a limit, as
long as the fuel lasts. -/
structure Allowance where
  limit : Option Nat
  fuel : Nat
  deriving DecidableEq, Inhabited

namespace Allowance

/-- Fuel that no evaluation uses up in practice. -/
def plenty : Nat := Nat.pow 10 18

/-- The allowance that a bound stands for. A bound that is not positive sets no limit. -/
def ofBound (n : Int) : Allowance := ⟨if 0 < n then some n.toNat else none, plenty⟩

/-- How many reductions are allowed. -/
def steps (a : Allowance) : Nat := a.limit.getD a.fuel

/-- What is said when all allowed reductions are spent. -/
def spentCause (a : Allowance) : Cause :=
  match a.limit with
  | some n => .stepLimit n
  | none => .outOfFuel

/-- The cause of a failure that a stop stands for. -/
def cause (a : Allowance) : Stop → Cause
  | .unbound x => .unbound x
  | .spent => a.spentCause

end Allowance

/-- The outcome of an evaluation, and how many reductions it made. -/
structure Report where
  result : Except Failure Term
  steps : Nat

/-- The report on a run with all that is allowed. -/
def Run.report {n : Nat} (a : Allowance) : Run n → Report
  | .value x body left => ⟨.ok (.lam x body), a.steps - left.val⟩
  | .stopped trace stop left => ⟨.error ⟨trace, a.cause stop⟩, a.steps - left⟩

namespace Term

/-- Evaluates a term. -/
def evaluate (a : Allowance) (t : Term) : Report := (t.run a.steps).report a

/-- Applies a term to an argument. -/
def call (a : Allowance) (f arg : Term) : Report := (f.apply a.steps arg).report a

end Term

end LazyLambda
