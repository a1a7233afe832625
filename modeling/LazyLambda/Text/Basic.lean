/-
# LazyLambda.Text.Basic — texts as they arrive: UTF-8 characters and the bytes that are none.

A text comes in as bytes. Most of them spell characters in UTF-8; a byte that starts no well-formed
character stands alone as a *stray* byte. A stray byte is one unit of the text like any character: it
takes one column, and it reads as U+FFFD wherever a character is asked for.

`Text.ofBytes` loses nothing: writing the symbols back gives the bytes that were read
(`Text.bytes_ofBytes`).
-/
import LazyLambda.Text.Classes

namespace LazyLambda

/-- One unit of a text: a character, or a byte that belongs to no well-formed character. -/
inductive Symbol where
  | char (c : Char)
  | stray (byte : UInt8)
  deriving DecidableEq, Inhabited

namespace Symbol

/-- The character that stands for a stray byte. -/
def replacement : Char := '�'

/-- The character that a symbol reads as. -/
def reading : Symbol → Char
  | .char c => c
  | .stray _ => replacement

/-- The bytes that spell a symbol. -/
def bytes : Symbol → List UInt8
  | .char c => String.utf8EncodeChar c
  | .stray b => [b]

end Symbol

/-- A text: its symbols in order. -/
abbrev Text := List Symbol

namespace Text

/-- The text of a string, which has no stray bytes. -/
def ofString (s : String) : Text := s.toList.map .char

/-- The string that a text reads as. -/
def toString (t : Text) : String := String.ofList (t.map Symbol.reading)

/-- The bytes that spell a text. -/
def bytes (t : Text) : List UInt8 := t.flatMap Symbol.bytes

/-- How many bytes spell a text. -/
def size (t : Text) : Nat := t.bytes.length

/-- Whether no byte of a text is stray. -/
def isWellFormed (t : Text) : Bool :=
  t.all fun
    | .char _ => true
    | .stray _ => false

/-! ## Reading bytes -/

/-- The low six bits of the byte at `i`, or nothing where the bytes end. -/
def tailBits (bs : List UInt8) (i : Nat) : Nat := (bs.getD i 0).toNat % 64

/-- The code point that the first bytes would spell, going by the first of them alone. -/
def leadingCode : List UInt8 → Nat
  | [] => 0
  | b :: bs =>
    let n := b.toNat
    if n < 0x80 then n
    else if n < 0xE0 then n % 32 * 64 + tailBits bs 0
    else if n < 0xF0 then n % 16 * 4096 + tailBits bs 0 * 64 + tailBits bs 1
    else n % 8 * 262144 + tailBits bs 0 * 4096 + tailBits bs 1 * 64 + tailBits bs 2

/-- The character whose spelling the bytes begin with, if there is one. -/
def leadingChar? (bs : List UInt8) : Option Char :=
  let c := Char.ofNat (leadingCode bs)
  if (String.utf8EncodeChar c).isPrefixOf bs then some c else none

/-- A character's spelling is never empty, so that reading one makes progress. -/
theorem length_utf8EncodeChar_pos (c : Char) : 0 < (String.utf8EncodeChar c).length := by
  simp [String.length_utf8EncodeChar, Char.utf8Size_pos]

/-- The text that bytes spell: at each place the character that starts there, or else one stray
byte. -/
def ofBytes (bs : List UInt8) : Text :=
  match bs with
  | [] => []
  | b :: rest =>
    match leadingChar? (b :: rest) with
    | some c => .char c :: ofBytes ((b :: rest).drop (String.utf8EncodeChar c).length)
    | none => .stray b :: ofBytes rest
termination_by bs.length
decreasing_by
  · have := length_utf8EncodeChar_pos c
    simp only [List.length_drop, List.length_cons]
    omega
  · simp

theorem isPrefixOf_of_leadingChar? {bs : List UInt8} {c : Char} (h : leadingChar? bs = some c) :
    (String.utf8EncodeChar c).isPrefixOf bs = true := by
  simp only [leadingChar?] at h
  split at h
  · cases h; assumption
  · cases h

/-- Nothing is lost in reading: the symbols spell the bytes that were read. -/
@[simp] theorem bytes_ofBytes (bs : List UInt8) : bytes (ofBytes bs) = bs := by
  fun_induction ofBytes bs with
  | case1 => rfl
  | case2 b rest c h ih =>
    have hp : String.utf8EncodeChar c <+: b :: rest :=
      List.isPrefixOf_iff_prefix.1 (isPrefixOf_of_leadingChar? h)
    obtain ⟨tail, ht⟩ := hp
    have hd : (b :: rest).drop (String.utf8EncodeChar c).length = tail := by
      rw [← ht, List.drop_left]
    rw [hd] at ih
    simp only [bytes, List.flatMap_cons, Symbol.bytes] at ih ⊢
    rw [hd, ih, ht]
  | case3 b rest h ih =>
    simp only [bytes, List.flatMap_cons, Symbol.bytes] at ih ⊢
    rw [ih]
    rfl

end Text

/-! ## Trimming -/

/-- Whether a symbol is white space. -/
def Symbol.isSpace (s : Symbol) : Bool := Text.isSpace s.reading

namespace Text

/-- The text without the symbols at its end that a test accepts. -/
def dropEndWhile (p : Symbol → Bool) (t : Text) : Text := (t.reverse.dropWhile p).reverse

/-- The longest end of the text of which a test accepts every symbol. -/
def takeEndWhile (p : Symbol → Bool) (t : Text) : Text := (t.reverse.takeWhile p).reverse

/-- The text without the white space at its start and its end. -/
def trim (t : Text) : Text := dropEndWhile Symbol.isSpace (t.dropWhile Symbol.isSpace)

end Text

end LazyLambda
