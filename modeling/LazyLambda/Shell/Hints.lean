/-
# LazyLambda.Shell.Hints — names that lines can be completed with.

Only the last word of a line is completed. A word reaches back to the last word break: a parenthesis,
the head of a function, `=`, or white space.
-/
import LazyLambda.Names
import LazyLambda.Text.Basic

namespace LazyLambda

/-- Whether a word cannot go on over a symbol. -/
def Symbol.isWordBreak (s : Symbol) : Bool :=
  match s with
  | .char '(' | .char ')' | .char '\\' | .char 'λ' | .char '=' => true
  | _ => s.isSpace

/-- Types of names, by the texts that spell them. -/
class Spelling (Name : Type) where
  text : Name → Text

instance : Spelling String := ⟨Text.ofString⟩

/-- Bytes spell a name as they are, whether or not they are well-formed. -/
instance : Spelling (List UInt8) := ⟨Text.ofBytes⟩

/-- Known names, in increasing order and each once. They are strings, unless something else is said. -/
structure Hints (Name : Type := String) [LT Name] where
  names : List Name
  sorted : names.Pairwise (· < ·)
  deriving DecidableEq

namespace Hints

variable {Name : Type} [LT Name]

/-- No names. -/
def empty : Hints Name := ⟨[], .nil⟩

instance : Inhabited (Hints Name) := ⟨.empty⟩

/-! ## Adding names -/

section Adding

variable [LE Name] [DecidableLT Name] [DecidableEq Name] [Std.LawfulOrderLT Name] [Std.IsLinearOrder Name]

/-- The hints with one more name. -/
def add (h : Hints Name) (x : Name) : Hints Name := ⟨insertName x h.names, pairwise_insertName x h.sorted⟩

@[simp] theorem names_add (h : Hints Name) (x : Name) : (h.add x).names = insertName x h.names := rfl

/-- The hints with some more names. -/
def addAll (h : Hints Name) (xs : List Name) : Hints Name := xs.foldl add h

end Adding

/-! ## Completing lines -/

/-- The last word of a line. -/
def lastWord (line : Text) : Text := line.takeEndWhile fun s => !s.isWordBreak

/-- What precedes the last word of a line. -/
def beforeWord (line : Text) : Text := line.dropEndWhile fun s => !s.isWordBreak

/-- Whether a name goes on from a word, byte by byte: a character that is cut off at the end of the word
can be completed too. -/
def completes (word name : Text) : Bool := word.bytes.isPrefixOf name.bytes && name.bytes != word.bytes

/-- The line with its last word completed, in every way that the names allow. -/
def complete [Spelling Name] (h : Hints Name) (line : Text) : List Text :=
  let word := lastWord line
  if word.isEmpty then []
  else ((h.names.map Spelling.text).filter (completes word)).map fun name => beforeWord line ++ name

end Hints

end LazyLambda
