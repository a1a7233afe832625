/-
# LazyLambda.Token.Lexed — texts split into tokens.

Between tokens there may be a *gap*: blanks, then perhaps a comment that runs to the end of its line.
What follows the gap is the next token's *lexeme*, a non-empty piece of the text, or the end. A text
ends where its symbols do, or at a NUL character, whatever comes after it.

Each token leaves a shorter rest, so splitting ends on every text.
-/
import LazyLambda.Text.Classes
import LazyLambda.Token.Basic

namespace LazyLambda

/-! ## Classes of symbols -/

namespace Symbol

/-- Blanks separate tokens and mean nothing: space, tab, next line and no-break space. -/
def isBlank (s : Symbol) : Bool :=
  s = .char ' ' || s = .char '\t' || s = .char '\u0085' || s = .char '\u00a0'

/-- Characters that end a line: line feed, carriage return, vertical tab and form feed. -/
def isLineEnd (s : Symbol) : Bool :=
  s = .char '\n' || s = .char '\r' || s = .char '\x0b' || s = .char '\x0c'

/-- The character that ends a text early. -/
def isNul (s : Symbol) : Bool := s = .char '\x00'

/-- Characters of names: letters, digits and `_`. The letter `λ` is reserved for functions. -/
def isNameChar (s : Symbol) : Bool :=
  match s with
  | .char c => c != 'λ' && (Text.isLetter c || Text.isDigit c || c == '_')
  | .stray _ => false

/-- Symbols that a comment runs over. -/
def inComment (s : Symbol) : Bool := !s.isLineEnd && !s.isNul

/-- The kind of token that a symbol makes alone. -/
def operator? (s : Symbol) : Option Kind :=
  match s with
  | .char '\\' => some .lambda
  | .char 'λ' => some .lambda
  | .char '=' => some .assign
  | .char '(' => some .lparen
  | .char ')' => some .rparen
  | _ => none

end Symbol

/-! ## Gaps and lexemes -/

namespace Text

/-- The comment that a text begins with, or nothing. -/
def comment (t : Text) : Text :=
  match t with
  | .char '#' :: _ => t.takeWhile Symbol.inComment
  | _ => []

/-- The gap that a text begins with: blanks, then perhaps a comment. -/
def gap (t : Text) : Text := t.takeWhile Symbol.isBlank ++ comment (t.dropWhile Symbol.isBlank)

/-- What follows the gap that a text begins with. -/
def afterGap (t : Text) : Text := t.drop t.gap.length

/-- The kind of the token that a text without a gap begins with, and the piece of the text that
spells it; nothing at the end of the text. -/
def lexeme? (t : Text) : Option (Kind × Text) :=
  match t with
  | [] => none
  | s :: _ =>
    if s.isNul then none
    else if s.isLineEnd then some (.newline, [s])
    else match s.operator? with
      | some k => some (k, [s])
      | none => if s.isNameChar then some (.ident, t.takeWhile Symbol.isNameChar)
        else some (.illegal, [s])

/-- What a token of a kind says, given the piece of text that spells it. All ends of line say the
same. -/
def literal (k : Kind) (piece : Text) : String :=
  match k with
  | .newline => "\n"
  | _ => piece.toString

theorem lexeme?_ne_nil {t piece : Text} {k : Kind} (h : t.lexeme? = some (k, piece)) :
    piece ≠ [] ∧ t ≠ [] := by
  unfold lexeme? at h
  split at h
  · cases h
  · next s rest =>
    refine ⟨?_, List.cons_ne_nil _ _⟩
    split at h
    · cases h
    · split at h
      · cases h; exact List.cons_ne_nil _ _
      · split at h
        · cases h; exact List.cons_ne_nil _ _
        · split at h
          · next hs => cases h; simp [hs]
          · cases h; exact List.cons_ne_nil _ _

end Text

/-! ## Splitting -/

/-- A text split into tokens: the tokens, where the input ends, and what is left unread there. -/
structure Lexed where
  tokens : List Token
  stop : Position
  unread : Text

namespace Lexed

/-- One more token in front. -/
def cons (t : Token) (l : Lexed) : Lexed := { l with tokens := t :: l.tokens }

/-- Splits a text that starts at a position. -/
def ofTextAt (pos : Position) (t : Text) : Lexed :=
  match h : t.afterGap.lexeme? with
  | none => ⟨[], pos.advance t.gap, t.afterGap⟩
  | some (k, piece) =>
    cons ⟨k, Text.literal k piece, pos.advance t.gap⟩
      (ofTextAt ((pos.advance t.gap).advance piece) (t.afterGap.drop piece.length))
termination_by t.length
decreasing_by
  obtain ⟨hp, hr⟩ := Text.lexeme?_ne_nil h
  have hp' := List.length_pos_iff.2 hp
  have hr' := List.length_pos_iff.2 hr
  have : t.afterGap.length ≤ t.length := by simp [Text.afterGap]
  simp only [List.length_drop]
  omega

/-- Splits a text. -/
def ofText (t : Text) : Lexed := ofTextAt .start t

/-- The tokens with the end of the input behind them. -/
def all (l : Lexed) : List Token := l.tokens ++ [.eof l.stop]

end Lexed

end LazyLambda
