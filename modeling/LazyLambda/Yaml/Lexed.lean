/-
# LazyLambda.Yaml.Lexed — YAML texts as tokens.

Characters gather in a *piece* of text until something tells that a plain scalar has ended: a mark, a
comment, or a line that does not stand further in. In a block of lines nothing else does. After most
marks a new piece is started.
-/
import LazyLambda.Yaml.Quote
import LazyLambda.Yaml.Token

namespace LazyLambda.Yaml

/-! ## Pieces of text -/

/-- How the lines of a scalar are put together. -/
inductive Block where
  /-- Line by line. -/
  | literal
  /-- The ends of lines are spaces. -/
  | folded
  /-- A plain scalar that has met a hyphen at the start of a line, and is folded from there on. -/
  | loose
  deriving DecidableEq, Inhabited

/-- What has gathered since the last token. Characters are kept with the last first. -/
structure Piece where
  /-- The characters of the scalar. -/
  text : List Char := []
  /-- All characters that were read. -/
  raw : List Char := []
  block : Option Block := none
  /-- Whether a block drops the ends of lines at its end. -/
  strip : Bool := false
  /-- How many characters of the text belong to the piece so far. -/
  index : Nat := 0
  /-- The last of these. -/
  previous : Char := '\x00'
  deriving DecidableEq, Inhabited

namespace Piece

/-- Adds a character to the scalar, which does not start with a space. -/
def addText (p : Piece) (c : Char) : Piece :=
  if p.text.isEmpty && c = ' ' then p else { p with text := c :: p.text }

/-- Adds a character to those that were read. -/
def addRaw (p : Piece) (c : Char) : Piece := { p with raw := c :: p.raw }

/-- The scalar, with its last character first, and without the spaces at its end. -/
def scalar (p : Piece) : List Char :=
  let trimmed := p.text.dropWhile (· = ' ')
  if p.block.isSome && p.strip then trimmed.dropWhile (· = '\n') else trimmed

/-- Whether there is a scalar. -/
def isPending (p : Piece) : Bool := !p.scalar.isEmpty

/-- The piece without its characters. -/
def cleared (p : Piece) : Piece := { p with text := [], raw := [] }

/-- The piece outside of blocks. -/
def leaveBlock (p : Piece) : Piece := { p with block := none, strip := false }

/-- Whether the scalar of the piece, other than by ends of lines before it, runs over lines. -/
def runsOver (p : Piece) : Bool := (p.raw.reverse.dropWhile isBreak).any isBreak

end Piece

/-- A text that is being cut into tokens. The tokens are kept with the last first. -/
structure Lexing where
  layout : Layout := {}
  piece : Piece := {}
  tokens : List Token := []

namespace Lexing

/-- Adds a mark in the column of the next character. -/
def mark (s : Lexing) (m : Mark) (text : String) : Lexing :=
  { s with tokens := ⟨.mark m, text, s.layout.column, false, false⟩ :: s.tokens }

/-- Starts a new piece. -/
def restart (s : Lexing) : Lexing := { s with piece := {} }

/-- Passes over so many characters of the line, which belong to the piece. -/
def forward (s : Lexing) (n : Nat) (last : Char) : Lexing :=
  { s with
    layout := s.layout.forward n
    piece := { s.piece with index := s.piece.index + n, previous := last } }

/-- The token for the scalar of the piece, if there is one. -/
def pending? (s : Lexing) : Option Token :=
  if s.piece.isPending then
    let text := String.ofList s.piece.scalar.reverse
    let value := if s.piece.block.isSome then .string text else Scalar.ofPlain text
    let column := s.layout.saved.getD (s.layout.column - s.piece.text.length)
    some ⟨.plain value, text, column, s.piece.runsOver, false⟩
  else none

/-- Ends the scalar of the piece. -/
def flush (s : Lexing) : Lexing :=
  let layout := { s.layout with saved := none }
  match s.pending? with
  | some t => { layout := layout, piece := s.piece.cleared, tokens := t :: s.tokens }
  | none => { s with layout := layout }

/-- Adds a character to the scalar of the piece. -/
def take (s : Lexing) (c : Char) : Lexing :=
  { s with piece := (s.piece.addText c).addRaw c }.forward 1 c

/-! ## Lines -/

/-- Takes in the end of a line outside of blocks; `last` says that the text ends with it. -/
def endLine (s : Lexing) (c : Char) (last : Bool) : Lexing :=
  let saved := if s.piece.text.isEmpty then s.layout.saved
    else s.layout.saved.or (some (s.layout.column - s.piece.scalar.length))
  let spaces := (s.piece.raw.takeWhile (· = ' ')).length
  let piece := if spaces = 0 then s.piece
    else { s.piece with raw := s.piece.raw.drop spaces, text := s.piece.scalar }
  let layout := { s.layout with
    column := s.layout.column - spaces, saved := saved.map fun n => n - spaces }
  let s := { s with layout := layout, piece := piece }
  let s := if last || s.layout.naming then s.flush else s
  let piece := (s.piece.addText ' ').addRaw c
  { s with
    layout := s.layout.newLine
    piece := { piece with index := piece.index + 1, previous := c } }

/-- Takes in a character of a block; `last` says that the text ends with it. -/
def blockChar (s : Lexing) (b : Block) (c : Char) (last : Bool) : Lexing :=
  let s := { s with piece := s.piece.addRaw c }
  let added (s : Lexing) (c : Char) : Lexing := { s with piece := s.piece.addText c }
  if last then
    let s := if b = .literal then added s c else s
    let text := String.ofList s.piece.scalar.reverse
    let t : Token := ⟨.plain (.string text), text, s.layout.column, s.piece.runsOver, false⟩
    { s with piece := s.piece.cleared, tokens := t :: s.tokens }.forward 1 c
  else if isBreak c then
    let s := added s (if b = .literal then c else ' ')
    { s with
      layout := s.layout.newLine
      piece := { s.piece with index := s.piece.index + 1, previous := c } }
  else if s.layout.lineStart && c = ' ' then
    let s := if 0 < s.layout.blockStart && s.layout.blockStart ≤ s.layout.column then added s c else s
    s.forward 1 c
  else
    let start := if s.layout.blockStart = 0 then s.layout.column else s.layout.blockStart
    (added { s with layout := { s.layout with blockStart := start } } c).forward 1 c

/-- What the line that announces a block says about it, without the comment. -/
def blockOption (line : List Char) : List Char :=
  let trimmed := (line.reverse.dropWhile (· = ' ')).reverse
  if trimmed.contains '#' then
    (trimmed.takeWhile (· ≠ '#')).dropLast
  else trimmed

/-- Whether a block can be announced with that. -/
def isBlockOption : List Char → Bool
  | [] => true
  | [c] => c = '+' || c = '-' || c.isDigit
  | _ => false

/-- Announces a block, and tells how many more characters that takes. Where the announcement makes no
sense, or no line follows, what is behind its first character is read anew. -/
def announce (s : Lexing) (b : Block) (c : Char) (rest : List Char) : Lexing × Nat :=
  let line := rest.takeWhile fun c => !isBreak c
  let opt := blockOption line
  let after := rest.drop line.length
  if after.isEmpty || !isBlockOption opt then (s.restart, 0)
  else
    let s := s.mark .block (String.ofList (c :: opt))
    let layout := { s.layout.newLine with shift := .going }
    if after.tail.isEmpty then ({ s.restart with layout := layout }, 0)
    else
      let piece := { s.piece.cleared with
        block := some b
        strip := opt = ['-']
        index := s.piece.index + line.length + 2
        previous := '\n' }
      ({ s with layout := layout, piece := piece }, line.length + 1)

/-! ## Characters -/

/-- How often a character is repeated from here on. -/
def repeats (c : Char) (rest : List Char) : Nat := 1 + (rest.takeWhile (· = c)).length

/-- Adds a mark of so many characters, and starts a new piece. -/
def single (s : Lexing) (m : Mark) (text : String) : Lexing :=
  ((s.mark m text).forward text.length ' ').restart

/-- Opens or closes a sequence in brackets. -/
def nestSequence (s : Lexing) (n : Int) : Lexing :=
  { s with layout := { s.layout with sequences := s.layout.sequences + n } }

/-- Opens or closes a mapping in braces. -/
def nestMapping (s : Lexing) (n : Int) : Lexing :=
  { s with layout := { s.layout with mappings := s.layout.mappings + n } }

/-- Sets the column that the next line is compared with. -/
def lead (s : Lexing) (column : Int) : Lexing := { s with layout := { s.layout with lead := column } }

/-- Reads a hyphen, and tells how many more characters that takes. -/
def hyphen (s : Lexing) (rest : List Char) : Lexing × Nat :=
  if s.layout.indent = 0 && s.layout.column = 1 && repeats '-' rest = 3 then
    (s.flush.single .header "---", 2)
  else if s.piece.isPending then
    let s := if s.layout.shift = .inward then { s with piece := { s.piece with block := some .loose } }
      else s
    (s.take '-', 0)
  else if rest.head?.any fun c => c = ' ' || isBreak c then
    ((s.lead s.layout.column).single .entry "-", 0)
  else (s.take '-', 0)

/-- Reads a colon. It ends a key if a space or the end of a line follows, or hardly any text at all, and
always between braces. -/
def colon (s : Lexing) (rest : List Char) : Lexing :=
  if 0 < s.layout.mappings || (rest.head?.any fun c => c = ' ' || isBreak c) ||
      rest.tail.isEmpty then
    let s := match s.pending? with
      | some t => s.flush.lead t.column
      | none => s.flush
    s.single .colon ":"
  else s.take ':'

/-- Reads a tag, which goes up to a space or the end of a line, and tells how many more characters that
takes. -/
def tag (s : Lexing) (rest : List Char) : Lexing × Nat :=
  let name := rest.takeWhile fun c => !(c = ' ' || isBreak c)
  match rest.drop name.length with
  | [] => ((s.forward rest.length ' ').restart, rest.length)
  | c :: _ =>
    let text := String.ofList ('!' :: name)
    let layout := s.layout.forward text.length
    let s := (s.mark .tag text).restart
    ({ s with layout := if isBreak c then layout.newLine else layout }, name.length + 1)

/-- Reads a comment, and tells how many more characters that takes. -/
def comment (s : Lexing) (rest : List Char) : Lexing × Nat :=
  let text := rest.takeWhile fun c => !isBreak c
  let s := (s.flush.mark .comment (String.ofList text)).restart
  ({ s with layout := s.layout.newLine }, text.length + 1)

/-- Reads a quoted scalar, and tells how many more characters that takes. After an escape that is cut
short, characters are passed over as many as the backslash has before it in the piece, and one. -/
def quote (s : Lexing) (c : Char) (rest : List Char) : Lexing × Nat :=
  let start : Quoting := { layout := s.layout }
  match if c = '"' then doubleQuoted start 0 rest else singleQuoted start 0 rest with
  | .closed q used =>
    let t : Token := ⟨.quoted, String.ofList q.text.reverse, s.layout.column, false, false⟩
    ({ layout := q.layout, piece := {}, tokens := t :: s.tokens }, used)
  | .unclosed => (s.restart, rest.length)
  | .cut q used => ({ s.restart with layout := q.layout }, s.piece.index + 2 + used)

/-- Reads a space. It ends the name of an anchor, and at the start of a line it is no text. -/
def space (s : Lexing) : Lexing :=
  if s.layout.lineStart then
    { s with piece := s.piece.addRaw ' ' }.forward 1 ' '
  else if s.layout.naming then
    let s := s.flush.restart
    { s with layout := { s.layout with naming := false } }.take ' '
  else s.take ' '

/-- Reads a character outside of blocks, given those after it, and tells how many more that takes. -/
def char (s : Lexing) (c : Char) (rest : List Char) : Lexing × Nat :=
  let pending := s.piece.isPending
  match c with
  | '\x7b' => if pending then (s.take c, 0) else (s.nestMapping 1 |>.single .openMapping "\x7b", 0)
  | '\x7d' =>
    if !pending || 0 < s.layout.mappings then
      (s.flush.nestMapping (-1) |>.single .closeMapping "\x7d", 0)
    else (s.take c, 0)
  | '[' => if pending then (s.take c, 0) else (s.nestSequence 1 |>.single .openSequence "[", 0)
  | ']' =>
    if !pending || 0 < s.layout.sequences then
      (s.flush.nestSequence (-1) |>.single .closeSequence "]", 0)
    else (s.take c, 0)
  | ',' =>
    if 0 < s.layout.sequences || 0 < s.layout.mappings then (s.flush.single .comma ",", 0)
    else (s.take c, 0)
  | '.' =>
    if s.layout.indent = 0 && s.layout.column = 1 && repeats c rest = 3 then
      (s.single .footer "...", 2)
    else (s.take c, 0)
  | '<' =>
    if repeats c rest = 2 then
      (((s.lead s.layout.column).mark .merge "<<").forward 1 c |>.restart, 1)
    else (s.take c, 0)
  | '-' => s.hyphen rest
  | ':' => (s.colon rest, 0)
  | '|' => if pending then (s.take c, 0) else s.announce .literal c rest
  | '>' => if pending then (s.take c, 0) else s.announce .folded c rest
  | '!' => if pending then (s.take c, 0) else s.tag rest
  | '%' => if pending || s.layout.indent ≠ 0 then (s.take c, 0) else (s.single .directive "%", 0)
  | '?' =>
    if !pending && rest.head? = some ' ' then (s.single .key "?", 0) else (s.take c, 0)
  | '&' =>
    if pending then (s.take c, 0)
    else
      let s := s.single .anchor "&"
      ({ s with layout := { s.layout with naming := true } }, 0)
  | '*' => if pending then (s.take c, 0) else (s.single .alias "*", 0)
  | '#' => if !pending || s.piece.previous = ' ' then s.comment rest else (s.take c, 0)
  | '\'' => if pending then (s.take c, 0) else s.quote c rest
  | '"' => if pending then (s.take c, 0) else s.quote c rest
  | '\r' =>
    if rest.head? = some '\n' then
      let s := ({ s with piece := s.piece.addRaw '\r' }).endLine '\n' rest.tail.isEmpty
      ({ s with piece := { s.piece with index := s.piece.index + 1 } }, 1)
    else (s.endLine c rest.isEmpty, 0)
  | '\n' => (s.endLine c rest.isEmpty, 0)
  | ' ' => (s.space, 0)
  | _ => (s.take c, 0)

/-- Reads a character, given those after it, and tells how many more that takes. A line that does not
stand further in ends a block, and one that stands further out ends any scalar; one that stands as far
does so unless the scalar has started on a line of its own. -/
def step (s : Lexing) (c : Char) (rest : List Char) : Lexing × Nat :=
  let s := { s with layout := s.layout.notice c s.piece.block.isSome s.piece.isPending }
  let ends := s.layout.shift = .same || s.layout.shift = .outward
  match s.piece.block with
  | some b =>
    if ends then
      let s := s.flush
      let s := { s with layout := { s.layout with blockStart := 0 }, piece := s.piece.leaveBlock }
      s.char c rest
    else (s.blockChar b c rest.isEmpty, 0)
  | none =>
    let s := if s.layout.shift = .outward then s.flush
      else if s.layout.shift = .same && s.piece.raw.getLast?.any (· ≠ '\n') then s.flush
      else s
    s.char c rest

/-- Reads all characters of a text. -/
def run (s : Lexing) (cs : List Char) : Lexing :=
  match cs with
  | [] => s.flush
  | c :: rest =>
    let (s, more) := s.step c rest
    s.run (rest.drop more)
termination_by cs.length
decreasing_by
  simp only [List.length_drop, List.length_cons]
  omega

end Lexing

/-- The tokens of a text, without the comments. -/
def tokens (s : String) : List Token :=
  Token.linked (({} : Lexing).run s.toList).tokens.reverse

end LazyLambda.Yaml
