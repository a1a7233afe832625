/-
# LazyLambda.Number.Shortest — binary fractions in as few decimal digits as tell them apart.

The numbers nearest to a binary fraction form an interval, whose ends belong to it if the mantissa is
even. Of the decimal fractions in it one with the fewest digits is written, and of these the nearest.
-/
import LazyLambda.Number.Binary

namespace LazyLambda.Binary

/-- Whether one quotient is below another. -/
def quotientLess (a b : Nat × Nat) : Bool := a.1 * b.2 < b.1 * a.2

/-- Whether `digits * 10 ^ place` is nearer to a finite binary fraction than to any other. -/
def tells (m : Nat) (e : Int) (digits : Nat) (place : Int) : Bool :=
  let narrow := m = mantissaBound / 2 && minExponent < e
  let low := scaled (if narrow then 4 * m - 1 else 4 * m - 2) 2 (e - 2)
  let high := scaled (4 * m + 2) 2 (e - 2)
  let d := scaled digits 10 place
  if m % 2 = 0 then !quotientLess d low && !quotientLess high d
  else quotientLess low d && quotientLess d high

/-- The least number of places before the point that the magnitude fits in; a negative one counts
zeros behind the point. -/
def leadingPlace (m : Nat) (e : Int) : Int :=
  let (num, den) := magnitude m e
  (Nat.toDigits 10 (num * Nat.pow 10 400 / den)).length - 400

/-- The decimal fraction of so many digits that tells the binary fraction, if there is one: the
digits, and the place of the last. -/
def withDigits? (m : Nat) (e : Int) (count : Nat) : Option (Nat × Int) :=
  let place := leadingPlace m e - count
  let (num, den) := magnitude m e
  let (up, down) := scaled 1 10 (-place)
  let below := num * up / (den * down)
  let rest := num * up % (den * down)
  match tells m e below place, tells m e (below + 1) place with
  | true, false => some (below, place)
  | false, true => some (below + 1, place)
  | true, true => some (roundQuotient (below * (den * down) + rest) (den * down), place)
  | false, false => none

/-- The digits of the shortest decimal fraction that tells a positive binary fraction, and how many of
them stand before the point. Seventeen digits are always enough. -/
def shortest (m : Nat) (e : Int) : List Char × Int :=
  let (digits, place) := ((List.range 17).findSome? fun n => withDigits? m e (n + 1)).getD (m, 0)
  let shown := Nat.toDigits 10 digits
  ((shown.reverse.dropWhile (· = '0')).reverse, shown.length + place)

/-- So many zeros. -/
def zeros (n : Int) : List Char := List.replicate n.toNat '0'

/-- Digits with so many of them before the point. Numbers of a million and more, and those below a ten
thousandth, are written with a power of ten of two digits at least. -/
def layOut (digits : List Char) (point : Int) : List Char :=
  let power := point - 1
  if power < -4 || 6 ≤ power then
    let fraction := digits.tail
    let shown := Nat.toDigits 10 power.natAbs
    digits.take 1 ++ (if fraction.isEmpty then [] else '.' :: fraction)
      ++ ['e', if power < 0 then '-' else '+'] ++ zeros (2 - shown.length) ++ shown
  else if point ≤ 0 then '0' :: '.' :: zeros (-point) ++ digits
  else
    let before := digits.take point.toNat
    let after := digits.drop point.toNat
    before ++ zeros (point - before.length) ++ if after.isEmpty then [] else '.' :: after

/-- The text of a binary fraction. -/
def render : Binary → String
  | .finite negative m e =>
    let (digits, point) := shortest m e
    let shown := if m = 0 then ['0'] else layOut digits point
    String.ofList (if negative then '-' :: shown else shown)
  | .infinite negative => if negative then "-Inf" else "+Inf"
  | .undefined => "NaN"

end LazyLambda.Binary
