/-
# LazyLambda.Yaml.Layout — columns and indentation while a YAML text is read.

The first character of a line that is no space tells whether the line stands further in than what it
is compared with, further out, or as far. It is compared with the column of the last key or hyphen, as
long as all lines since then stand further in, and otherwise with the indentation of the line before.
A line in the column of a key, after lines further in, counts as standing further out.
-/

namespace LazyLambda.Yaml

/-- How a line stands to what comes before it. -/
inductive Shift where
  | same
  | inward
  | outward
  /-- The line has started before. -/
  | going
  deriving DecidableEq, Inhabited

/-- Where the reading of a text is. -/
structure Layout where
  /-- The column of the next character. -/
  column : Int := 1
  /-- The spaces before the first other character of the line. -/
  indent : Nat := 0
  /-- The indentation that the next line is compared with. -/
  lastIndent : Nat := 0
  /-- The column that the next line is compared with; zero for none. -/
  lead : Int := 0
  /-- The column where the lines of a block start; zero before its first. -/
  blockStart : Int := 0
  /-- Whether only spaces have been seen of the line. -/
  lineStart : Bool := true
  /-- Whether the name of an anchor is being read. -/
  naming : Bool := false
  /-- How many sequences in brackets are open. -/
  sequences : Int := 0
  /-- How many mappings in braces are open. -/
  mappings : Int := 0
  shift : Shift := .same
  /-- The column of a plain scalar that goes on over lines. -/
  saved : Option Int := none
  deriving DecidableEq, Inhabited

namespace Layout

/-- Passes over so many characters of the line. -/
def forward (l : Layout) (n : Nat) : Layout := { l with column := l.column + n }

/-- Passes over the end of the line. -/
def newLine (l : Layout) : Layout :=
  { l with column := 1, indent := 0, lineStart := true, naming := false }

/-- How a line that starts here stands to what comes before it. -/
def shiftHere (l : Layout) : Shift :=
  if 0 < l.lead then
    if l.lead < l.column then .inward
    else if l.lead = l.column && l.lastIndent = l.indent then .same else .outward
  else
    if l.lastIndent < l.indent then .inward else if l.lastIndent = l.indent then .same else .outward

/-- Takes note of a character. A line inside a block, or one that goes on with a scalar at a hyphen, is
not what later lines are compared with. -/
def notice (l : Layout) (c : Char) (inBlock pending : Bool) : Layout :=
  if l.lineStart && (c = '\n' || c = '\r') && inBlock then l
  else if l.lineStart && c = ' ' then { l with indent := l.indent + 1 }
  else if !l.lineStart then { l with shift := .going }
  else
    let l := { l with shift := l.shiftHere, lineStart := false }
    if l.shift = .inward && (inBlock || (c = '-' && pending)) then l
    else
      { l with lastIndent := l.indent, lead := if l.shift = .inward then l.lead else 0 }

end Layout

end LazyLambda.Yaml
