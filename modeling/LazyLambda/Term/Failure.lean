/-
# LazyLambda.Term.Failure — why an evaluation ends without a value.

A failure has one cause, under a trace of the contexts in which it came up, the outermost first.
-/

namespace LazyLambda

/-- What makes an evaluation fail. -/
inductive Cause where
  /-- An identifier without a meaning is needed. -/
  | unbound (name : String)
  /-- More reductions are needed than the limit allows. -/
  | stepLimit (limit : Nat)
  /-- No limit was set, and the evaluation was given up. -/
  | outOfFuel
  deriving DecidableEq, Inhabited

/-- Where an evaluation is when it fails. -/
inductive Context where
  /-- In evaluating what an identifier stands for. -/
  | executing (name : String)
  /-- In evaluating an application. -/
  | calling
  deriving DecidableEq, Inhabited

/-- A cause and the contexts around it. -/
structure Failure where
  trace : List Context
  cause : Cause
  deriving DecidableEq, Inhabited

namespace Cause

/-- A cause in words. -/
def message : Cause → String
  | .unbound x => s!"variable `{x}` is unbound"
  | .stepLimit n => s!"reduction limit of {n} steps exceeded"
  | .outOfFuel => "evaluation given up"

end Cause

namespace Context

/-- A context in words. -/
def message : Context → String
  | .executing x => s!"failure executing `{x}`"
  | .calling => "failure calling a function"

end Context

namespace Failure

/-- A failure in words: the contexts from the outermost inwards, then the cause. -/
def message (f : Failure) : String :=
  String.join (f.trace.map fun c => c.message ++ ": ") ++ f.cause.message

end Failure

end LazyLambda
