/-
# LazyLambda.Text.Quoted — texts between double quotes, with everything unprintable escaped.
-/
import LazyLambda.Text.Basic
import LazyLambda.Text.Printable

namespace LazyLambda.Text

/-- The hexadecimal digits of `n` in lower case, with zeros in front up to the given width. -/
def hex (width n : Nat) : String :=
  let digits := Nat.toDigits 16 n
  String.ofList (List.replicate (width - digits.length) '0' ++ digits)

/-- The form of a character between quotes. Quotes and backslashes are escaped, printable characters
stand for themselves, seven control characters have a letter, and the rest are written by number. -/
def quotedChar (c : Char) : String :=
  if c = '"' || c = '\\' then String.ofList ['\\', c]
  else if isPrintable c then String.ofList [c]
  else match c.toNat with
    | 0x07 => "\\a"
    | 0x08 => "\\b"
    | 0x09 => "\\t"
    | 0x0A => "\\n"
    | 0x0B => "\\v"
    | 0x0C => "\\f"
    | 0x0D => "\\r"
    | n =>
      if n < 0x80 then "\\x" ++ hex 2 n
      else if n < 0x10000 then "\\u" ++ hex 4 n
      else "\\U" ++ hex 8 n

/-- The form of a symbol between quotes; a stray byte is written by number. -/
def quotedSymbol : Symbol → String
  | .char c => quotedChar c
  | .stray b => "\\x" ++ hex 2 b.toNat

/-- A text between double quotes. -/
def quoted (t : Text) : String := "\"" ++ String.join (t.map quotedSymbol) ++ "\""

/-- A string between double quotes. -/
def quote (s : String) : String := quoted (ofString s)

end LazyLambda.Text
