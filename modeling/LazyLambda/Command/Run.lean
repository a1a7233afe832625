/-
# LazyLambda.Command.Run — what the program answers to a command line.
-/
import LazyLambda.Command.Request
import LazyLambda.Library.Directory
import LazyLambda.Library.Prelude
import LazyLambda.Log.Console
import LazyLambda.Log.Threshold
import LazyLambda.Module.Json
import LazyLambda.Settings.Load
import LazyLambda.Shell.Basic

namespace LazyLambda.Command

/-! ## Around the program -/

/-- What the program is run in. -/
structure Surroundings where
  disk : Files.Disk
  homes : Settings.Homes
  /-- What can be read from standard input. -/
  input : Text
  /-- Why nothing more can be read, if it is not the end. -/
  inputError : Option String
  /-- The time that goes on lines of the log. -/
  time : String
  /-- What the log calls the session. -/
  sessionLabel : String
  /-- What is said of settings that are malformed. -/
  malformed : String

/-- What the program answers. What it shows may repeat stray bytes of its input. -/
structure Answer where
  status : Nat
  output : Text
  errors : Text
  deriving DecidableEq, Inhabited

namespace Answer

/-- All is well. -/
def ok (output : Text) : Answer := ⟨0, output, []⟩

/-- The program cannot do what it is asked for. -/
def refuse (errors : String) : Answer := ⟨1, [], .ofString errors⟩

/-- The answer after lines of the log. -/
def after (log : String) (a : Answer) : Answer := { a with errors := .ofString log ++ a.errors }

end Answer

/-- The status after an evaluation that failed. -/
def evaluationFailed : Nat := 2

/-- The status after a module that does not parse. -/
def parsingFailed : Nat := 3

/-- The name of the module on standard input. -/
def inputName : String := "<stdin>"

/-! ## Preparations -/

/-- What a verb works with: settings, and how to write the log. -/
structure Workplace where
  settings : Settings
  threshold : Int
  style : Log.Style

namespace Workplace

/-- Whether results and errors are coloured. Output is never taken for a terminal. -/
def colored (w : Workplace) : Bool := w.settings.color = "always"

/-- An answer that reports what went wrong. -/
def failure (w : Workplace) (status : Nat) (message : String) : Answer :=
  ⟨status, [], (Shell.Output.error message).render w.colored⟩

/-- The lines of the log for some events. -/
def log (w : Workplace) (events : List Event) : String := w.style.lines w.threshold events

/-- Puts the settings together from a file and the options; the other way it says what is wrong. -/
def prepare (around : Surroundings) (o : Options) : Except String Workplace := do
  let (s, failed) := Settings.load around.disk around.homes o.config
  if let some f := failed then throw (f.message around.malformed)
  let s := { s with
    logLevel := if o.logLevel = "" then s.logLevel else o.logLevel
    color := if o.color = "" then s.color else o.color }
  s.validate.mapError Settings.Objection.message
  let threshold ← (Log.threshold s.logLevel).mapError fun e => s!"invalid log level: {e.message}"
  let s := { s with
    prelude := s.prelude && !o.noPrelude
    libraries := s.libraries ++ o.libraries
    maxSteps := o.maxSteps.getD s.maxSteps }
  return ⟨s, threshold, ⟨around.time, around.sessionLabel, s.color ≠ "never"⟩⟩

/-- Loads directories of modules. An error names the directory. -/
def loadDirectories (disk : Files.Disk) (s : Session) : List String → Effect String Unit
  | [] => ⟨.ok (), s, []⟩
  | dir :: rest =>
    ((Library.loadDirectory s (disk.view dir) ".").mapError fun e => s!"{dir}: {e.message}").andThen
      fun _ s' => loadDirectories disk s' rest

/-- Loads the prelude, if it is wanted, and the directories of the settings into a new session. -/
def openSession (w : Workplace) (disk : Files.Disk) : Effect String Unit :=
  let s := Session.new (Allowance.ofBound w.settings.maxSteps)
  let first : Effect String Unit :=
    if w.settings.prelude then (Library.load s Library.prelude).mapError Library.Error.message
    else ⟨.ok (), s, []⟩
  first.andThen fun _ s' => loadDirectories disk s' w.settings.libraries

/-! ## Verbs -/

/-- Prints the tree of the module on standard input. -/
def parse (w : Workplace) (around : Surroundings) (json : Bool) : Answer :=
  match around.inputError with
  | some e => w.failure 1 e
  | none =>
    match Parser.parse inputName around.input with
    | .error fs => w.failure parsingFailed (Fault.messages fs)
    | .ok m => .ok (.ofString (if json then Json.ofModule .indented m ++ "\n" else m.render))

/-- Evaluates the module on standard input. -/
def eval (w : Workplace) (around : Surroundings) : Answer :=
  match around.inputError with
  | some e => w.failure 1 e
  | none =>
    let loaded := w.openSession around.disk
    let rest := match loaded.result with
      | .error e => w.failure 1 e
      | .ok () =>
        match Parser.parse inputName around.input with
        | .error fs => w.failure parsingFailed (Fault.messages fs)
        | .ok m =>
          let e := loaded.session.run m
          let answer := match e.result with
            | .error err => w.failure evaluationFailed err.message
            | .ok t => .ok ((Shell.Output.result t.inspect).render w.colored)
          answer.after (w.log e.events)
    rest.after (w.log loaded.events)

/-- Holds a conversation on standard input. -/
def converse (w : Workplace) (around : Surroundings) : Answer :=
  let loaded := w.openSession around.disk
  match loaded.result with
  | .error e => (w.failure 1 e).after (w.log loaded.events)
  | .ok () =>
    let ending := match around.inputError with
      | some e => .broken e
      | none => .closed
    let (lines, ending) := Shell.lines ending around.input
    let t := Shell.run loaded.session lines ending
    let shown := t.turns.flatMap fun turn =>
      Text.ofString turn.prompt ++ turn.output.flatMap (Shell.Output.render w.colored)
    ⟨if t.error.isSome then 1 else 0, shown,
      .ofString (w.log (loaded.events ++ t.turns.flatMap Shell.Turn.events))⟩

end Workplace

/-! ## Command lines -/

/-- Makes ready for a verb with its arguments; the other way it answers right away. -/
def Verb.ready (around : Surroundings) (v : Verb) (args : List String) :
    Except Answer (Workplace × Options) :=
  match v.readOptions args with
  | .error .help => .error ⟨0, [], .ofString v.usage⟩
  | .error (.error e) => .error (.refuse (e.message ++ "\n" ++ v.usage))
  | .ok (o, rest) =>
    match v, rest with
    | .eval, arg :: _ | .shell, arg :: _ =>
      .error (.refuse s!"unexpected argument '{arg}', the module is read from stdin\n")
    | _, _ =>
      match Workplace.prepare around o with
      | .error message => .error (.refuse (message ++ "\n"))
      | .ok w => .ok (w, o)

/-- Answers to a verb with its arguments. -/
def Verb.answer (around : Surroundings) (v : Verb) (args : List String) : Answer :=
  match v.ready around args with
  | .error a => a
  | .ok (w, o) =>
    match v with
    | .parse => w.parse around o.json
    | .eval => w.eval around
    | .shell => w.converse around

/-- Answers to a command line, which has a usual verb. -/
def answer (around : Surroundings) (usual : Verb) (args : List String) : Answer :=
  match choose usual args with
  | .help => .ok (.ofString help)
  | .unknown word => .refuse (s!"unknown command '{word}'\n" ++ help)
  | .completions => .refuse "completions are not available\n"
  | .verb v args => v.answer around args

end LazyLambda.Command
