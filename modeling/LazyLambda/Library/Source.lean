/-
# LazyLambda.Library.Source — named texts of modules, and loading them.

All sources are parsed before any module runs, so a source that does not parse leaves the session as
it was.
-/
import LazyLambda.Module.Parser
import LazyLambda.Session.Run

namespace LazyLambda.Library

/-- The text of a module, which may be any bytes, and the name it goes by, which is a string. -/
structure Source where
  name : String
  text : Text
  deriving DecidableEq, Inhabited

/-- Why sources cannot be loaded. -/
inductive Error where
  /-- The source of that name does not parse. -/
  | unparsable (name : String) (faults : List Fault)
  /-- A module does not run to its end. -/
  | unloadable (error : LoadError)
  deriving DecidableEq, Inhabited

namespace Error

/-- The error in words. -/
def message : Error → String
  | .unparsable name fs => s!"failed to parse `{name}` module: {Fault.messages fs}"
  | .unloadable e => e.message

end Error

/-- The modules of some sources, up to the first source that does not parse. -/
def parse : List Source → Except Error (List Module)
  | [] => .ok []
  | src :: rest =>
    match Parser.parse src.name src.text with
    | .error fs => .error (.unparsable src.name fs)
    | .ok m => (parse rest).map (m :: ·)

/-- Loads the modules of some sources into a session, provided that all of them parse. -/
def load (s : Session) (sources : List Source) : Effect Error Unit :=
  match parse sources with
  | .error e => ⟨.error e, s, []⟩
  | .ok ms => (s.load ms).mapError .unloadable

end LazyLambda.Library
