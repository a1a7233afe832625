/-
# LazyLambda.Yaml.Quote — scalars in quotes.

The end of a line is a space, and the spaces that the next line starts with are dropped. Between single
quotes two of them stand for one. Between double quotes a backslash starts an escape; one that starts
none stands for itself.
-/
import LazyLambda.Yaml.Layout

namespace LazyLambda.Yaml

/-- A quoted scalar as far as it has been read: the layout, the text with its last character first,
and whether the line or only the layout's note of it has just started. -/
structure Quoting where
  layout : Layout
  text : List Char := []
  lineStart : Bool := false
  broken : Bool := false

/-- How the reading of a quoted scalar ends. -/
inductive Quoted where
  /-- There is a closing quote after so many characters, itself included. -/
  | closed (q : Quoting) (used : Nat)
  /-- The text ends before. -/
  | unclosed
  /-- The text ends within an escape whose backslash comes after so many characters. -/
  | cut (q : Quoting) (used : Nat)

namespace Quoting

/-- Takes note of one more character. -/
def next (q : Quoting) : Quoting :=
  if q.broken then { q with broken := false } else { q with layout := q.layout.forward 1 }

/-- Adds characters, the last first. -/
def add (q : Quoting) (cs : List Char) : Quoting := { q with text := cs ++ q.text, lineStart := false }

/-- Takes in the end of a line. -/
def breakLine (q : Quoting) : Quoting :=
  { layout := q.layout.newLine, text := ' ' :: q.text, lineStart := true, broken := true }

end Quoting

/-- Whether a character ends a line. -/
def isBreak (c : Char) : Bool := c = '\n' || c = '\r'

/-- Reads a scalar between single quotes, behind the first. -/
def singleQuoted (q : Quoting) (used : Nat) : List Char → Quoted
  | [] => .unclosed
  | '\'' :: '\'' :: cs =>
    singleQuoted { q.next with text := '\'' :: q.text } (used + 2) cs
  | c :: cs =>
    let q := q.next
    if isBreak c then singleQuoted q.breakLine (used + 1) cs
    else if c = ' ' && q.lineStart then singleQuoted q (used + 1) cs
    else if c = '\'' then .closed { q with layout := q.layout.forward 1 } (used + 1)
    else singleQuoted (q.add [c]) (used + 1) cs

/-! ## Escapes -/

/-- What a backslash and one more character stand for. Some stand for the bytes of a character, each
taken for a character of its own. -/
def escapes : List (Char × List Char) :=
  [('b', ['\x08']), ('e', ['\x1b']), ('f', ['\x0c']), ('n', ['\n']), ('r', ['\r']), ('v', ['\x0b']),
    ('"', ['"']), ('\\', ['\\']), ('L', ['\u00e2', '\u0080', '\u00a8']),
    ('P', ['\u00e2', '\u0080', '\u00a9']), ('N', ['\u00c2', '\u0085']),
    ('_', ['\u00c2', '\u00a0'])]

/-- How many digits a code has after a backslash and one more character. -/
def codeWidth? (c : Char) : Option Nat :=
  if c = 'x' then some 2 else if c = 'u' then some 4 else if c = 'U' then some 8 else none

/-- What a character counts for in a code. Others than digits count by their distance from zero. -/
def codeDigit (c : Char) : Int :=
  if 'A' ≤ c && c ≤ 'F' then c.toNat - 'A'.toNat + 10
  else if 'a' ≤ c && c ≤ 'f' then c.toNat - 'a'.toNat + 10
  else (c.toNat : Int) - '0'.toNat

/-- The character of a code, as a signed word of 32 bits; one that has no character is replaced. -/
def charOfCode (digits : List Char) : Char :=
  let n := Int.bmod (digits.foldl (fun n c => 16 * n + codeDigit c) 0) (Nat.pow 2 32)
  if 0 ≤ n && (n < 0xd800 || (0xdfff < n && n < 0x110000)) then Char.ofNat n.toNat else '\ufffd'

/-- Reads a scalar between double quotes, behind the first. -/
def doubleQuoted (q : Quoting) (used : Nat) (cs : List Char) : Quoted :=
  match cs with
  | [] => .unclosed
  | '\\' :: c :: rest =>
    match escapes.lookup c, codeWidth? c with
    | some chars, _ => doubleQuoted (q.next.add chars.reverse) (used + 2) rest
    | none, some width =>
      if rest.length < width then .cut q.next used
      else doubleQuoted (q.next.add [charOfCode (rest.take width)]) (used + 2 + width)
        (rest.drop width)
    | none, none => doubleQuoted (q.next.add ['\\']) (used + 1) (c :: rest)
  | c :: rest =>
    let q := q.next
    if isBreak c then doubleQuoted q.breakLine (used + 1) rest
    else if c = ' ' && q.lineStart then doubleQuoted q (used + 1) rest
    else if c = '"' then .closed { q with layout := q.layout.forward 1 } (used + 1)
    else doubleQuoted (q.add [c]) (used + 1) rest
termination_by cs.length
decreasing_by
  all_goals simp only [List.length_cons, List.length_drop]
  all_goals omega

end LazyLambda.Yaml
