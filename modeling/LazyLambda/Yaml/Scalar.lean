/-
# LazyLambda.Yaml.Scalar — what plain scalars stand for.

A plain scalar stands for nothing, a truth value or a number if it is spelled like one, and otherwise
for itself. Which number it is follows from the spelling alone; digits that spell none in their base
count as zero.
-/
import LazyLambda.Number.Binary

namespace LazyLambda.Yaml

/-- What a scalar stands for. -/
inductive Scalar where
  | null
  | bool (b : Bool)
  | integer (n : Int)
  | fraction (b : Binary)
  | string (s : String)
  deriving DecidableEq, Inhabited

namespace Scalar

/-- Words with a meaning of their own. -/
def words : List (String × Scalar) :=
  [("null", .null), ("Null", .null), ("NULL", .null), ("~", .null),
    ("true", .bool true), ("True", .bool true), ("TRUE", .bool true),
    ("false", .bool false), ("False", .bool false), ("FALSE", .bool false),
    (".inf", .fraction (.infinite false)), (".Inf", .fraction (.infinite false)),
    (".INF", .fraction (.infinite false)), ("-.inf", .fraction (.infinite true)),
    ("-.Inf", .fraction (.infinite true)), ("-.INF", .fraction (.infinite true)),
    (".nan", .fraction .undefined), (".NaN", .fraction .undefined), (".NAN", .fraction .undefined)]

/-! ## Spellings of numbers -/

/-- How a number is spelled. -/
inductive Style where
  | decimal
  | fraction
  | inBase (base : Nat)
  deriving DecidableEq, Inhabited

/-- Whether a character is one of the letters among hexadecimal digits. -/
def isHexLetter (c : Char) : Bool := ('a' ≤ c && c ≤ 'f') || ('A' ≤ c && c ≤ 'F')

/-- Whether the place of a character is that of the mark of a base: after a first zero, which may
follow a minus sign. -/
def atBaseMark (all : List Char) (place : Nat) : Bool :=
  (place = 1 && all.head? = some '0') ||
    (place = 2 && all.head? = some '-' && all.tail.head? = some '0')

/-- Whether a text has the mark of base sixteen and something after it. -/
def isHex (all : List Char) : Bool :=
  (['0', 'x'].isPrefixOf all && 2 < all.length) || (['-', '0', 'x'].isPrefixOf all && 3 < all.length)

/-- Whether the characters from a place on can go on in a number, and if so, whether it has a point.
`point` says that there was one, and `power` that there was the mark of a power after it. -/
def pointIn? (all : List Char) (place : Nat) (point power : Bool) : List Char → Option Bool
  | [] => some point
  | c :: cs =>
    if c.isDigit || c = '_' then pointIn? all (place + 1) point power cs
    else if isHexLetter c then
      if isHex all || (c = 'b' && atBaseMark all place) then pointIn? all (place + 1) point power cs
      else if (c = 'e' || c = 'E') && point then pointIn? all (place + 1) point true cs
      else none
    else if c = '.' then if point then none else pointIn? all (place + 1) true power cs
    else if c = '-' || c = '+' then
      if place = 0 || power then pointIn? all (place + 1) point power cs else none
    else if c = 'x' || c = 'o' then
      if atBaseMark all place then pointIn? all (place + 1) point power cs else none
    else none

/-- How a text spells a number, if it does. -/
def style? (all : List Char) : Option Style := do
  if [[], ['-'], ['.'], ['+']].contains all || all.head? = some '_' then none
  let point ← pointIn? all 0 false false all
  let unsigned := if all.head? = some '-' then all.tail else all
  if point then return .fraction
  match unsigned with
  | '0' :: 'b' :: _ => return .inBase 2
  | '0' :: 'x' :: _ => return .inBase 16
  | '0' :: _ :: _ => return .inBase 8
  | _ => return .decimal

/-! ## Numbers -/

/-- The digit that a character is in a base. -/
def digitOf? (base : Nat) (c : Char) : Option Nat :=
  let n := if c.isDigit then c.toNat - '0'.toNat else c.toLower.toNat - 'a'.toNat + 10
  if (c.isDigit || c.isAlpha) && n < base then some n else none

/-- The number that digits of a base spell; zero if they do not spell one. -/
def numberOf (base : Nat) (cs : List Char) : Nat :=
  (cs.foldl (fun n c => do return base * (← n) + (← digitOf? base c)) (some 0)).getD 0

/-- The signed word of 64 bits nearest to a number. -/
def nearestSigned (n : Int) : Int := max (-(Int.pow 2 63)) (min (Int.pow 2 63 - 1) n)

/-- The unsigned word of 64 bits nearest to a number. -/
def nearestUnsigned (n : Nat) : Int := min (Int.pow 2 64 - 1) n

/-- The digits after the mark of a base. -/
def afterMark : List Char → List Char
  | '0' :: 'b' :: ds => ds
  | '0' :: 'x' :: ds => ds
  | '0' :: 'o' :: ds => ds
  | '0' :: ds => ds
  | ds => ds

/-- The integer that a text without underscores spells in a base. One with a sign fits in a signed
word, another in an unsigned one. -/
def integerOf (style : Style) (cs : List Char) : Int :=
  let unsigned (ds : List Char) : Nat := match style with
    | .inBase base => numberOf base (afterMark ds)
    | _ => numberOf 10 ds
  match cs with
  | '-' :: ds => nearestSigned (-(unsigned ds : Int))
  | '+' :: ds => nearestSigned (unsigned ds)
  | ds => nearestUnsigned (unsigned ds)

/-- What a plain scalar stands for. -/
def ofPlain (s : String) : Scalar :=
  match words.lookup s with
  | some v => v
  | none =>
    let digits := s.toList.filter (· ≠ '_')
    match style? s.toList with
    | none => .string s
    | some .fraction => .fraction ((Binary.parse? digits).getD (.finite false 0 Binary.minExponent))
    | some style => .integer (integerOf style digits)

end Scalar

end LazyLambda.Yaml
