/-
# LazyLambda.Log.Console — entries of the log as lines for people.

A line has the time, a short word for the level, the message and the fields, what went wrong first and
the others by name.
-/
import LazyLambda.Log.Entry
import LazyLambda.Text.Quoted

namespace LazyLambda.Log

/-- The short word for a level. -/
def Level.short : Level → String
  | .debug => "DBG"
  | .info => "INF"
  | .warn => "WRN"

/-- How lines are written: the time to put on them, the label of the session, and whether they are
coloured. -/
structure Style where
  time : String
  session : String
  colored : Bool
  deriving DecidableEq, Inhabited

namespace Style

/-- A text between a code for terminals and the end of its effect. -/
def code (st : Style) (n : Nat) (text : String) : String :=
  if st.colored then s!"\x1b[{n}m{text}\x1b[0m" else text

/-- Gray. -/
def gray : Nat := 90

/-- Cyan. -/
def cyan : Nat := 36

/-- Red. -/
def red : Nat := 31

/-- Bold. -/
def bold : Nat := 1

/-- The colour of the word for a level; the least level has none. -/
def levelCode : Level → Option Nat
  | .debug => none
  | .info => some 32
  | .warn => some 33

/-- Whether a character makes a value be quoted. -/
def isSpecial (c : Char) : Bool := c.toNat < 0x20 || 0x7e < c.toNat || c = ' ' || c = '\\' || c = '"'

/-- The text of a value. -/
def value : Value → String
  | .text s => if s.toList.any isSpecial then Text.quote s else s
  | .number n => toString n

/-- A field. What went wrong stands out. -/
def field (st : Style) (f : String × Value) : String :=
  let v := value f.2
  st.code cyan (f.1 ++ "=") ++ if f.1 = errorField then st.code red (st.code bold v) else v

/-- Whether a field comes before another: what went wrong first, then by name. -/
def fieldBefore (a b : String × Value) : Bool :=
  a.1 = errorField || (b.1 ≠ errorField && a.1 ≤ b.1)

/-- The fields of an entry in order, the session's label among them. -/
def fields (st : Style) (e : Entry) : List (String × Value) :=
  (("session", .text st.session) :: e.fields).mergeSort fieldBefore

/-- The line for an entry. -/
def line (st : Style) (e : Entry) : String :=
  let level := match levelCode e.level with
    | none => e.level.short
    | some n => st.code n e.level.short
  let message := if e.level = .debug then e.message else st.code bold e.message
  String.intercalate " " ([st.code gray st.time, level, message] ++ (st.fields e).map st.field)
    ++ "\n"

/-- The lines for the events of a session that are shown under a threshold. -/
def lines (st : Style) (threshold : Int) (events : List Event) : String :=
  String.join ((ofEvents threshold events).map st.line)

end Style

end LazyLambda.Log
