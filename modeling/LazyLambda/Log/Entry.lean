/-
# LazyLambda.Log.Entry — entries of the log.

An entry has a level, a message and named fields. Levels are numbers, and the higher the number the
more it matters; an entry is shown if its level reaches the threshold.
-/
import LazyLambda.Session.Basic

namespace LazyLambda.Log

/-! ## Levels -/

/-- The level of an entry. -/
inductive Level where
  | debug
  | info
  | warn
  deriving DecidableEq, Inhabited

namespace Level

/-- The number of a level. -/
def rank : Level → Int
  | .debug => 0
  | .info => 1
  | .warn => 2

/-- The word for a level. -/
def label : Level → String
  | .debug => "debug"
  | .info => "info"
  | .warn => "warn"

/-- Whether entries of a level are shown under a threshold. -/
def reaches (l : Level) (threshold : Int) : Bool := threshold ≤ l.rank

end Level

/-! ## Entries -/

/-- What a field holds. -/
inductive Value where
  | text (s : String)
  | number (n : Nat)
  deriving DecidableEq, Inhabited

/-- An entry of the log. -/
structure Entry where
  level : Level
  message : String
  fields : List (String × Value)
  deriving DecidableEq, Inhabited

/-- The name of the field that holds what went wrong. -/
def errorField : String := "error"

/-- The entry for an event of a session. -/
def ofEvent : Event → Entry
  | .stored x _ => ⟨.debug, "binding stored", [("name", .text x)]⟩
  | .evaluated n => ⟨.debug, "expression evaluated", [("steps", .number n)]⟩
  | .failed e st => ⟨.debug, "statement failed",
      [(errorField, .text e.message), ("statement", .text st.render)]⟩
  | .loaded label n => ⟨.info, "module loaded", [("module", .text label), ("names", .number n)]⟩

/-- The entries for some events that are shown under a threshold. -/
def ofEvents (threshold : Int) (events : List Event) : List Entry :=
  (events.map ofEvent).filter fun e => e.level.reaches threshold

end LazyLambda.Log
