/-
# LazyLambda.Log.Threshold — thresholds as they are written.

A threshold is written as the word for a level, in any case of letters, or as a number of one signed
byte. The empty word stands above all levels that are ever used.
-/
import LazyLambda.Text.Numeral

namespace LazyLambda.Log

/-- Why a word is no threshold. -/
inductive ThresholdError where
  | unknown (word : String)
  | outOfBounds (number : Int)
  deriving DecidableEq, Inhabited

namespace ThresholdError

/-- The error in words. -/
def message : ThresholdError → String
  | .unknown word => s!"Unknown Level String: '{word}', defaulting to NoLevel"
  | .outOfBounds n => s!"Out-Of-Bounds Level: '{n}', defaulting to NoLevel"

end ThresholdError

/-- The words for thresholds. -/
def words : List (String × Int) :=
  [("trace", -1), ("debug", 0), ("info", 1), ("warn", 2), ("error", 3), ("fatal", 4), ("panic", 5),
    ("disabled", 7), ("", 6)]

/-- A character in lower case, as far as the words go. Two letters outside ASCII are other cases of
letters inside. -/
def foldCase (c : Char) : Char :=
  match c with
  | '\u017f' => 's'
  | '\u212a' => 'k'
  | _ => c.toLower

/-- The threshold that a word stands for. -/
def threshold (word : String) : Except ThresholdError Int :=
  match words.lookup (String.ofList (word.toList.map foldCase)) with
  | some n => .ok n
  | none =>
    match Text.int64? word with
    | none => .error (.unknown word)
    | some n => if -128 ≤ n && n ≤ 127 then .ok n else .error (.outOfBounds n)

end LazyLambda.Log
