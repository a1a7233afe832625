/-
# LazyLambda.Settings.Basic — what a user can choose, and which choices make sense.
-/
import LazyLambda.Text.Quoted

namespace LazyLambda

/-- What a user can choose. -/
structure Settings where
  /-- Whether the prelude is loaded before anything else. -/
  prelude : Bool := true
  /-- Directories of modules that are loaded after the prelude, in this order. -/
  libraries : List String := []
  /-- How many reductions an evaluation may take; zero for no bound. -/
  maxSteps : Int := 0
  /-- Where the history of the shell is kept; empty for the usual place. -/
  historyFile : String := ""
  /-- The level from which on events are logged. -/
  logLevel : String := "warn"
  /-- When output is coloured. -/
  color : String := "auto"
  deriving DecidableEq, Inhabited

namespace Settings

/-- Why a choice makes no sense. -/
inductive Objection where
  | unknownColor (color : String)
  | negativeSteps
  deriving DecidableEq, Inhabited

/-- The objection in words. -/
def Objection.message : Objection → String
  | .unknownColor color => "color must be one of auto, always or never, not " ++ Text.quote color
  | .negativeSteps => "max_steps must not be negative"

/-- The times when output can be coloured. -/
def colors : List String := ["auto", "always", "never"]

/-- Makes sure that the choices make sense, the colour first. -/
def validate (s : Settings) : Except Objection Unit :=
  if !colors.contains s.color then .error (.unknownColor s.color)
  else if s.maxSteps < 0 then .error .negativeSteps
  else .ok ()

end Settings

end LazyLambda
