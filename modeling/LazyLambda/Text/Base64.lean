/-
# LazyLambda.Text.Base64 — bytes written with 64 characters.

Four characters stand for three bytes. The last four may end in one or two equals signs and then stand
for fewer. Ends of lines are passed over. Where the text makes no sense, what was read before is kept.
-/
import LazyLambda.Text.Basic

namespace LazyLambda.Base64

/-- The number below 64 that a character stands for. -/
def digit? (c : Char) : Option Nat :=
  if c.isUpper then some (c.toNat - 'A'.toNat)
  else if c.isLower then some (c.toNat - 'a'.toNat + 26)
  else if c.isDigit then some (c.toNat - '0'.toNat + 52)
  else if c = '+' then some 62
  else if c = '/' then some 63
  else none

/-- The first bytes, as many as asked for, of the three that four numbers stand for. -/
def bytesOf (count a b c d : Nat) : List UInt8 :=
  let n := ((a * 64 + b) * 64 + c) * 64 + d
  [(n / 65536).toUInt8, (n / 256).toUInt8, n.toUInt8].take count

/-- The bytes that some characters stand for. -/
def decodeFrom : List Char → List UInt8
  | a :: b :: '=' :: '=' :: _ =>
    match digit? a, digit? b with
    | some a, some b => bytesOf 1 a b 0 0
    | _, _ => []
  | a :: b :: c :: '=' :: _ =>
    match digit? a, digit? b, digit? c with
    | some a, some b, some c => bytesOf 2 a b c 0
    | _, _, _ => []
  | a :: b :: c :: d :: rest =>
    match digit? a, digit? b, digit? c, digit? d with
    | some a, some b, some c, some d => bytesOf 3 a b c d ++ decodeFrom rest
    | _, _, _, _ => []
  | _ => []

/-- The bytes that a text stands for. -/
def decode (s : String) : List UInt8 :=
  decodeFrom (s.toList.filter fun c => c ≠ '\n' && c ≠ '\r')

end LazyLambda.Base64
