/-
# LazyLambda.Token.Basic — positions, kinds of tokens, and tokens.

A position counts lines and, within a line, symbols, both from one. Only a line feed ends a line
for the count, although other characters separate statements too.
-/
import LazyLambda.Text.Quoted

namespace LazyLambda

/-! ## Positions -/

/-- A place in a text, by line and column. -/
structure Position where
  line : Nat
  col : Nat
  deriving DecidableEq, Inhabited

namespace Position

/-- Where every text begins. -/
def start : Position := ⟨1, 1⟩

/-- The position after one symbol. -/
def after (p : Position) (s : Symbol) : Position :=
  if s = .char '\n' then ⟨p.line + 1, 1⟩ else ⟨p.line, p.col + 1⟩

/-- The position after a text. -/
def advance (p : Position) (t : Text) : Position := t.foldl after p

/-- A position as messages show it, `line:col`. -/
def render (p : Position) : String := s!"{p.line}:{p.col}"

end Position

/-! ## Kinds -/

/-- What sort of thing a token is. -/
inductive Kind where
  /-- A character that belongs nowhere. -/
  | illegal
  /-- The end of a line. -/
  | newline
  /-- The end of the input. -/
  | eof
  /-- A name. -/
  | ident
  /-- The head of a function, `\` or `λ`. -/
  | lambda
  /-- The sign `=` of a definition. -/
  | assign
  | lparen
  | rparen
  deriving DecidableEq, Inhabited

namespace Kind

/-- The kinds in the order of their codes, which count from zero. -/
def all : List Kind := [.illegal, .newline, .eof, .ident, .lambda, .assign, .lparen, .rparen]

/-- The word that names a kind. -/
def label : Kind → String
  | .illegal => "ILLEGAL"
  | .newline => "NEWLINE"
  | .eof => "EOF"
  | .ident => "ID"
  | .lambda => "LAMBDA"
  | .assign => "ASSIGN"
  | .lparen => "LPAREN"
  | .rparen => "RPAREN"

/-- The kind with a given code. -/
def ofCode? (code : Int) : Option Kind := if 0 ≤ code then all[code.toNat]? else none

/-- The word that names a code; a code of no kind is named by its number. -/
def codeLabel (code : Int) : String :=
  match ofCode? code with
  | some k => k.label
  | none => s!"TokenType({code})"

end Kind

/-! ## Tokens -/

/-- A token: its kind, what it says, and where it starts. -/
structure Token where
  kind : Kind
  literal : String
  pos : Position
  deriving DecidableEq, Inhabited

namespace Token

/-- The end of the input at a position. -/
def eof (p : Position) : Token := ⟨.eof, "", p⟩

/-- The line that describes a token with the given label, literal and position. -/
def entry (label : String) (literal : Text) (line col : Int) : String :=
  s!"{label} {literal.quoted} at {line}:{col}"

/-- The line that describes a token. -/
def render (t : Token) : String := entry t.kind.label (.ofString t.literal) t.pos.line t.pos.col

/-- A token as messages about the source name it: the ends by words, the rest quoted. -/
def describe (t : Token) : String :=
  match t.kind with
  | .eof => "end of input"
  | .newline => "end of line"
  | _ => Text.quote t.literal

/-- Whether a token ends a line. -/
def isNewline (t : Token) : Bool := t.kind = .newline

end Token

end LazyLambda
