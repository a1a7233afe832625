/-
# LazyLambda.Session.Run — running statements and modules in a session.

A definition stores its term with the globals of the moment resolved, and evaluates nothing. A bare
name shows what it is defined as. Any other bare expression is evaluated, and its value becomes the
last result.
-/
import LazyLambda.Session.Basic

namespace LazyLambda.Session

/-- Gives a name a value. -/
def store {ε : Type} (s : Session) (x : String) (t : Term) : Effect ε Term :=
  ⟨.ok t, { s with scope := s.scope.set x t }, [.stored x (s.scope.set x t)]⟩

/-- The term of an expression, with the globals of the moment resolved. -/
def resolve (s : Session) (e : Expr) : Term := (Term.ofExpr e).resolve s.scope.get?

/-- Executes a statement. -/
def exec (s : Session) : Statement → Effect RunError Term
  | .define target e => s.store target (s.resolve e)
  | .bare (.name x) =>
    match s.scope.get? x with
    | some t => ⟨.ok t, s, []⟩
    | none => ⟨.error (.undefined x), s, []⟩
  | .bare e =>
    let report := (s.resolve e).evaluate s.allowance
    match report.result with
    | .ok t => (s.store lastResult t).after [.evaluated report.steps]
    | .error f => ⟨.error (.evaluation f), s, []⟩

/-- Executes a statement and reports its failure. -/
def step (s : Session) (st : Statement) : Effect RunError Term :=
  let e := s.exec st
  match e.result with
  | .ok _ => e
  | .error err => { e with events := e.events ++ [.failed err st] }

/-- Runs a statement and those after it, up to the first that fails. The result is the last one. -/
def runFrom (s : Session) (st : Statement) : List Statement → Effect RunError Term
  | [] => s.step st
  | next :: rest => (s.step st).andThen fun _ s' => s'.runFrom next rest

/-- Runs a module. -/
def run (s : Session) (m : Module) : Effect RunError Term :=
  match m.statements with
  | [] => ⟨.error (.noStatements (m.label 0)), s, []⟩
  | st :: rest => s.runFrom st rest

/-- Runs the module at an index of a list, and reports that it has been loaded. -/
def loadOne (s : Session) (m : Module) (index : Nat) : Effect LoadError Unit :=
  ((s.run m).mapError (LoadError.mk (m.label index))).andThen fun _ s' =>
    ⟨.ok (), s', [.loaded (m.label index) s'.scope.size]⟩

/-- Runs modules in order, up to the first that fails; `index` is the index of the first. -/
def loadFrom (s : Session) (index : Nat) : List Module → Effect LoadError Unit
  | [] => ⟨.ok (), s, []⟩
  | m :: rest => (s.loadOne m index).andThen fun _ s' => s'.loadFrom (index + 1) rest

/-- Runs modules in order, up to the first that fails. -/
def load (s : Session) (ms : List Module) : Effect LoadError Unit := s.loadFrom 0 ms

end LazyLambda.Session
