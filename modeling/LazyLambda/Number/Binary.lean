/-
# LazyLambda.Number.Binary — binary fractions of 64 bits.

A finite one is a mantissa of up to 53 bits times a power of two. A decimal fraction stands for the
nearest of them, and the even one if two are equally near. All of this is exact arithmetic on natural
numbers.
-/
import LazyLambda.Text.Numeral

namespace LazyLambda

/-- A binary fraction of 64 bits. -/
inductive Binary where
  | finite (negative : Bool) (mantissa : Nat) (exponent : Int)
  | infinite (negative : Bool)
  /-- No number at all. -/
  | undefined
  deriving DecidableEq, Inhabited

namespace Binary

/-- The least exponent. -/
def minExponent : Int := -1074

/-- The greatest exponent. -/
def maxExponent : Int := 971

/-- Mantissas are below this number. -/
def mantissaBound : Nat := Nat.pow 2 53

/-- A quotient rounded to a whole number, a half to the even one. -/
def roundQuotient (num den : Nat) : Nat :=
  let q := num / den
  let r := num % den
  if den < 2 * r || (2 * r = den && q % 2 = 1) then q + 1 else q

/-- The numerator and the denominator of `n * base ^ e`. -/
def scaled (n base : Nat) (e : Int) : Nat × Nat :=
  if 0 ≤ e then (n * Nat.pow base e.toNat, 1) else (n, Nat.pow base e.natAbs)

/-- The binary fraction nearest to a positive quotient. -/
def ofQuotient (negative : Bool) (num den : Nat) : Binary :=
  let guess := max minExponent ((num.log2 : Int) - den.log2 - 53)
  let quotient (e : Int) : Nat × Nat :=
    let (up, down) := scaled 1 2 (-e)
    (num * up, den * down)
  let floor := (quotient guess).1 / (quotient guess).2
  let e := if mantissaBound ≤ floor then guess + 1 else guess
  let m := roundQuotient (quotient e).1 (quotient e).2
  let (m, e) := if m = mantissaBound then (m / 2, e + 1) else (m, e)
  if maxExponent < e then .infinite negative else .finite negative m e

/-- The binary fraction nearest to `coefficient * 10 ^ exponent`, or to minus that number. Beyond 400
places either way no digits are needed to tell. -/
def ofDecimal (negative : Bool) (coefficient : Nat) (exponent : Int) : Binary :=
  let places := (Nat.toDigits 10 coefficient).length + exponent
  if coefficient = 0 || places < -400 then .finite negative 0 minExponent
  else if 400 < places then .infinite negative
  else
    let (num, den) := scaled coefficient 10 exponent
    ofQuotient negative num den

/-! ## Reading -/

/-- Reads an exponent, which may be missing. -/
def exponent? : List Char → Option Int
  | [] => some 0
  | e :: rest =>
    if e = 'e' || e = 'E' then
      match rest with
      | '-' :: ds => (Text.digits? ds).map fun n => -(n : Int)
      | '+' :: ds => (Text.digits? ds).map Int.ofNat
      | ds => (Text.digits? ds).map Int.ofNat
    else none

/-- Reads digits with a point among them, or before or after them, and perhaps an exponent. -/
def unsigned? (negative : Bool) (cs : List Char) : Option Binary := do
  let (whole, rest) := cs.span Char.isDigit
  let (fraction, rest) := match rest with
    | '.' :: rest => rest.span Char.isDigit
    | _ => ([], rest)
  let coefficient ← Text.digits? (whole ++ fraction)
  let e ← exponent? rest
  return ofDecimal negative coefficient (e - fraction.length)

/-- Reads a decimal fraction or a word for infinity, behind the sign if it has one. -/
def signed? (negative : Bool) (cs : List Char) : Option Binary :=
  if ["inf", "infinity"].contains (String.ofList (cs.map Char.toLower)) then some (.infinite negative)
  else unsigned? negative cs

/-- Reads a decimal fraction, infinity, or a word for what is no number. -/
def parse? (cs : List Char) : Option Binary :=
  match cs with
  | '-' :: cs => signed? true cs
  | '+' :: cs => signed? false cs
  | cs =>
    if String.ofList (cs.map Char.toLower) = "nan" then some .undefined else signed? false cs

/-! ## Whole parts -/

/-- The numerator and the denominator of the magnitude of a finite one. -/
def magnitude (m : Nat) (e : Int) : Nat × Nat := scaled m 2 e

/-- The signed word of 64 bits that is left when the fraction is cut off. From the bottom of the words
downwards, and at `2 ^ 63` itself, it is the least word; above there is none. -/
def toWord? : Binary → Option Int
  | .finite negative m e =>
    let whole : Int := (magnitude m e).1 / (magnitude m e).2
    let n := if negative then -whole else whole
    if Int.pow 2 63 < n then none
    else if n < -(Int.pow 2 63) || n = Int.pow 2 63 then some (-(Int.pow 2 63))
    else some n
  | .infinite true => some (-(Int.pow 2 63))
  | .infinite false => none
  | .undefined => none

end Binary

end LazyLambda
