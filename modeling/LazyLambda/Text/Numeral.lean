/-
# LazyLambda.Text.Numeral — whole numbers in texts, and the order in which people expect numbered names.

In the natural order runs of digits count as the numbers they spell, so `2_x` comes before `10_y`. Names
are compared from where they first differ, but never from within a run of digits. Runs that spell the
same number are passed over if both names go on; otherwise, and where a run spells a number of more than
64 bits, the characters decide.
-/

namespace LazyLambda.Text

/-! ## Decimal notation -/

/-- The number that decimal digits spell; nothing if there are none, or if another character is among
them. -/
def digits? (cs : List Char) : Option Nat :=
  if !cs.isEmpty && cs.all Char.isDigit then
    some (cs.foldl (fun n c => 10 * n + (c.toNat - '0'.toNat)) 0)
  else none

/-- The number that an optional sign and decimal digits spell. -/
def int? (s : String) : Option Int :=
  match s.toList with
  | '-' :: cs => (digits? cs).map fun n => -(n : Int)
  | '+' :: cs => (digits? cs).map Int.ofNat
  | cs => (digits? cs).map Int.ofNat

/-- The number that an optional sign and decimal digits spell, if it fits in a signed word of 64
bits. -/
def int64? (s : String) : Option Int :=
  (int? s).filter fun n => -(Int.pow 2 63) ≤ n && n < Int.pow 2 63

/-! ## Natural order -/

/-- Two names without the characters that they both start with, up to the first digit. -/
def dropCommon : List Char → List Char → List Char × List Char
  | a :: as, b :: bs => if a = b && !a.isDigit then dropCommon as bs else (a :: as, b :: bs)
  | as, bs => (as, bs)

theorem length_dropCommon_le (as bs : List Char) :
    (dropCommon as bs).1.length ≤ as.length := by
  fun_induction dropCommon as bs with
  | case1 a as b bs h ih => simp only [List.length_cons]; omega
  | case2 => exact Nat.le_refl _
  | case3 => exact Nat.le_refl _

/-- The number that a name starts with, if it fits in an unsigned word of 64 bits. -/
def leadingNumber? (cs : List Char) : Option Nat :=
  (digits? (cs.takeWhile Char.isDigit)).filter (· < Nat.pow 2 64)

/-- What follows the digits that a name starts with. -/
def afterNumber (cs : List Char) : List Char := cs.dropWhile Char.isDigit

theorem length_afterNumber_lt {cs : List Char} {n : Nat} (h : leadingNumber? cs = some n) :
    (afterNumber cs).length < cs.length := by
  cases cs with
  | nil => simp [leadingNumber?, digits?] at h
  | cons c cs =>
    cases hc : c.isDigit with
    | false => simp [leadingNumber?, digits?, hc] at h
    | true =>
      have := (List.dropWhile_suffix (l := cs) Char.isDigit).length_le
      simp only [afterNumber, List.dropWhile_cons, hc, if_true, List.length_cons]
      omega

/-- Whether a name comes before another. -/
def naturalLess (a b : List Char) : Bool :=
  let a' := (dropCommon a b).1
  let b' := (dropCommon a b).2
  if a'.isEmpty then !b'.isEmpty
  else match h : leadingNumber? a', leadingNumber? b' with
    | some m, some n =>
      if m ≠ n then m < n
      else if (afterNumber a').isEmpty || (afterNumber b').isEmpty then a' < b'
      else naturalLess (afterNumber a') (afterNumber b')
    | _, _ => a' < b'
termination_by a.length
decreasing_by
  exact Nat.lt_of_lt_of_le (length_afterNumber_lt h) (length_dropCommon_le a b)

/-! ## Sorting -/

variable {α : Type}

/-- Puts `x` behind the last item that it does not come before. The items are given from the last to
the first. -/
def place (less : α → α → Bool) (x : α) : List α → List α
  | [] => [x]
  | y :: rest => if less x y then y :: place less x rest else x :: y :: rest

/-- The items in order; those that are not told apart stay as they were. -/
def sortBy (less : α → α → Bool) (xs : List α) : List α :=
  (xs.foldl (fun sorted x => place less x sorted) []).reverse

end LazyLambda.Text
