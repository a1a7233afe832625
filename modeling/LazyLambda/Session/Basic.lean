/-
# LazyLambda.Session.Basic — sessions, what can go wrong in them, and what they report.

A session is a scope of global names together with the allowance of its evaluations. Whatever is done
in a session has an *effect*: a result or an error, the session afterwards, and the events on the way,
in order. An error does not undo what was stored before it.
-/
import LazyLambda.Module.Basic
import LazyLambda.Scope
import LazyLambda.Term.Evaluation

namespace LazyLambda

/-! ## Sessions -/

/-- A scope, and how long an evaluation in it may take. -/
structure Session where
  scope : Scope
  allowance : Allowance

namespace Session

/-- The name of the last result of a bare expression. -/
def lastResult : String := "_"

/-- A session without definitions. -/
def new (a : Allowance) : Session := ⟨.empty, a⟩

end Session

/-! ## Errors -/

/-- Why a module does not run to its end. -/
inductive RunError where
  /-- The value of a global name is asked for, and there is none of that name. -/
  | undefined (name : String)
  /-- An evaluation fails. -/
  | evaluation (failure : Failure)
  /-- The module of that label has nothing to run. -/
  | noStatements (label : String)
  deriving DecidableEq, Inhabited

namespace RunError

/-- The error in words. -/
def message : RunError → String
  | .undefined x => s!"variable `{x}` is not defined"
  | .evaluation f => f.message
  | .noStatements label => s!"module `{label}` has no statements"

end RunError

/-- A module's label, and why the module does not run to its end. -/
structure LoadError where
  label : String
  error : RunError
  deriving DecidableEq, Inhabited

namespace LoadError

/-- The error in words. -/
def message (e : LoadError) : String := s!"failed to eval module `{e.label}`: {e.error.message}"

end LoadError

/-! ## Events and effects -/

/-- What a session reports. -/
inductive Event where
  /-- A name has been given a value. Whoever is told can look into the scope of that moment. -/
  | stored (name : String) (scope : Scope)
  /-- A bare expression has been evaluated, in so many reductions. -/
  | evaluated (steps : Nat)
  /-- A statement has failed. -/
  | failed (error : RunError) (statement : Statement)
  /-- A module has been run to its end, and so many names are now defined. -/
  | loaded (label : String) (names : Nat)
  deriving DecidableEq, Inhabited

/-- The name that an event assigns. The last result is no assignment. -/
def Event.assigned? : Event → Option String
  | .stored x _ => if x = Session.lastResult then none else some x
  | _ => none

/-- What something done in a session comes to. -/
structure Effect (ε α : Type) where
  result : Except ε α
  session : Session
  events : List Event

namespace Effect

variable {ε ε' α β : Type}

/-- The names assigned on the way, in order. -/
def assigned (e : Effect ε α) : List String := e.events.filterMap Event.assigned?

/-- Events that came before. -/
def after (events : List Event) (e : Effect ε α) : Effect ε α :=
  { e with events := events ++ e.events }

/-- Goes on in the session left behind, unless there was an error. -/
def andThen (e : Effect ε α) (next : α → Session → Effect ε β) : Effect ε β :=
  match e.result with
  | .ok a => (next a e.session).after e.events
  | .error err => ⟨.error err, e.session, e.events⟩

/-- The same effect under another kind of error. -/
def mapError (f : ε → ε') (e : Effect ε α) : Effect ε' α := { e with result := e.result.mapError f }

end Effect

end LazyLambda
