/-
# LazyLambda.Proofs.Text.Natural — where the natural order of names is an order.

Comparing names by numbers in some places and by characters in others need not be consistent. A number at the
end of a name counts by its characters if the numbers are the same, and a number that does not fit in a word
counts by its characters against any other: `2` comes before `10`, `10` before a number of many digits that
starts with `15`, and that one before `2`.

Names that end in no digit and whose numbers all fit are compared by their items in turn, characters and
whole numbers (`Text.naturalLess_iff_key_lt`). Paths that start alike may start with numbers that do not fit:
then all of them are compared by their characters from there on (`Text.naturalLess_append`).
-/
import LazyLambda.Text.Numeral

namespace LazyLambda.Text

/-! ## Items -/

/-- What a name consists of: characters, and numbers that digits spell. -/
inductive Item where
  | char (c : Char)
  | number (n : Nat)
  deriving DecidableEq

/-- The number that a name starts with, however large; zero if there is none. -/
def runValue (cs : List Char) : Nat := (digits? (cs.takeWhile Char.isDigit)).getD 0

theorem length_afterNumber_cons_lt {c : Char} (h : c.isDigit = true) (cs : List Char) :
    (afterNumber (c :: cs)).length < (c :: cs).length := by
  have hle := (List.dropWhile_suffix (l := cs) Char.isDigit).length_le
  simp only [afterNumber, List.dropWhile_cons, h, if_true, List.length_cons]
  omega

/-- The items of a name. Runs of digits are taken whole. -/
def items (cs : List Char) : List Item :=
  match cs with
  | [] => []
  | c :: rest =>
    if h : c.isDigit then .number (runValue (c :: rest)) :: items (afterNumber (c :: rest))
    else .char c :: items rest
termination_by cs.length
decreasing_by
  · exact length_afterNumber_cons_lt h rest
  · exact Nat.lt_succ_self _

/-- The number that an item is, if it is one. -/
def Item.number? : Item → Option Nat
  | .char _ => none
  | .number n => some n

/-- The numbers in a name: what its runs of digits spell. -/
def numbers (cs : List Char) : List Nat := (items cs).filterMap Item.number?

/-- An item as numbers that are compared in turn. Every number stands where digits stand among the
characters. -/
def Item.codes : Item → List Nat
  | .char c => [c.toNat]
  | .number n => ['0'.toNat, n]

/-- A name as numbers that are compared in turn. -/
def key (cs : List Char) : List Nat := (items cs).flatMap Item.codes

theorem items_nil : items [] = [] := by rw [items]

theorem items_cons_of_digit {c : Char} (h : c.isDigit = true) (cs : List Char) :
    items (c :: cs) = .number (runValue (c :: cs)) :: items (afterNumber (c :: cs)) := by
  rw [items, dif_pos h]

theorem items_cons_of_not_digit {c : Char} (h : c.isDigit = false) (cs : List Char) :
    items (c :: cs) = .char c :: items cs := by
  rw [items, dif_neg (by simp [h])]

theorem numbers_cons_of_digit {c : Char} (h : c.isDigit = true) (cs : List Char) :
    numbers (c :: cs) = runValue (c :: cs) :: numbers (afterNumber (c :: cs)) := by
  rw [numbers, items_cons_of_digit h]
  rfl

theorem numbers_cons_of_not_digit {c : Char} (h : c.isDigit = false) (cs : List Char) :
    numbers (c :: cs) = numbers cs := by
  rw [numbers, items_cons_of_not_digit h]
  rfl

theorem key_nil : key [] = [] := by rw [key, items_nil, List.flatMap_nil]

theorem key_cons_of_digit {c : Char} (h : c.isDigit = true) (cs : List Char) :
    key (c :: cs) = '0'.toNat :: runValue (c :: cs) :: key (afterNumber (c :: cs)) := by
  rw [key, items_cons_of_digit h, List.flatMap_cons]
  rfl

theorem key_cons_of_not_digit {c : Char} (h : c.isDigit = false) (cs : List Char) :
    key (c :: cs) = c.toNat :: key cs := by
  rw [key, items_cons_of_not_digit h, List.flatMap_cons]
  rfl

theorem nil_lt_key_cons (c : Char) (cs : List Char) : [] < key (c :: cs) := by
  cases h : c.isDigit with
  | true =>
      rw [key_cons_of_digit h]
      exact List.nil_lt_cons _ _
  | false =>
      rw [key_cons_of_not_digit h]
      exact List.nil_lt_cons _ _

/-! ## Leading numbers -/

theorem digits?_takeWhile {c : Char} (h : c.isDigit = true) (cs : List Char) :
    digits? ((c :: cs).takeWhile Char.isDigit) = some (runValue (c :: cs)) := by
  have hrun : (!((c :: cs).takeWhile Char.isDigit).isEmpty &&
      ((c :: cs).takeWhile Char.isDigit).all Char.isDigit) = true := by
    rw [List.all_takeWhile, Bool.and_true, List.takeWhile_cons, if_pos h]
    rfl
  rw [runValue, digits?, if_pos hrun, Option.getD_some]

theorem leadingNumber?_of_digit {c : Char} (h : c.isDigit = true) {cs : List Char}
    (hfits : runValue (c :: cs) < Nat.pow 2 64) :
    leadingNumber? (c :: cs) = some (runValue (c :: cs)) := by
  rw [leadingNumber?, digits?_takeWhile h, Option.filter_some, if_pos (decide_eq_true hfits)]

theorem leadingNumber?_of_too_large {c : Char} (h : c.isDigit = true) {cs : List Char}
    (hlarge : ¬ runValue (c :: cs) < Nat.pow 2 64) : leadingNumber? (c :: cs) = none := by
  rw [leadingNumber?, digits?_takeWhile h, Option.filter_some, if_neg (by simpa using hlarge)]

theorem leadingNumber?_of_not_digit {c : Char} (h : c.isDigit = false) (cs : List Char) :
    leadingNumber? (c :: cs) = none := by
  simp [leadingNumber?, digits?, h]

/-- A name that ends in no digit goes on behind a number that it starts with. -/
theorem afterNumber_ne_nil {c : Char} {cs : List Char} (h : ∀ d ∈ (c :: cs).getLast?, d.isDigit = false) :
    afterNumber (c :: cs) ≠ [] := by
  intro hnil
  have hlast : (c :: cs).getLast? = some ((c :: cs).getLast (List.cons_ne_nil c cs)) :=
    List.getLast?_eq_some_getLast _
  have hsplit := List.takeWhile_append_dropWhile (p := Char.isDigit) (l := c :: cs)
  rw [← afterNumber, hnil, List.append_nil] at hsplit
  have hall : (c :: cs).all Char.isDigit = true := by
    rw [← hsplit]
    exact List.all_takeWhile
  have hdigit := List.all_eq_true.1 hall _ (List.getLast_mem (List.cons_ne_nil c cs))
  rw [h _ hlast] at hdigit
  cases hdigit

theorem getLast?_afterNumber {cs : List Char} {d : Char} (h : d ∈ (afterNumber cs).getLast?) :
    d ∈ cs.getLast? := by
  obtain ⟨run, hrun⟩ : afterNumber cs <:+ cs := List.dropWhile_suffix _
  rw [← hrun, List.getLast?_append, h]
  rfl

/-! ## Comparing -/

section Compare

variable {a b a' b' : List Char}

/-- Where one name ends, the other comes later if it goes on. -/
theorem naturalLess_of_ended (h : dropCommon a b = ([], b')) : naturalLess a b = !b'.isEmpty := by
  rw [naturalLess]
  simp [h]

/-- Without a number on both sides the characters decide. -/
theorem naturalLess_of_not_numbers (h : dropCommon a b = (a', b')) (hne : a' ≠ [])
    (hnone : leadingNumber? a' = none ∨ leadingNumber? b' = none) :
    naturalLess a b = decide (a' < b') := by
  obtain ⟨rfl, rfl⟩ : (dropCommon a b).1 = a' ∧ (dropCommon a b).2 = b' := by simp [h]
  rw [naturalLess]
  simp only [List.isEmpty_iff, hne, if_false]
  split
  · next m n hm hn =>
      rw [hm, hn] at hnone
      rcases hnone with hnone | hnone <;> cases hnone
  · rfl

/-- Numbers decide if they differ, and what follows them if there is something on both sides. -/
theorem naturalLess_of_numbers {m n : Nat} (h : dropCommon a b = (a', b')) (hm : leadingNumber? a' = some m)
    (hn : leadingNumber? b' = some n) (ha : afterNumber a' ≠ []) (hb : afterNumber b' ≠ []) :
    naturalLess a b = if m ≠ n then decide (m < n) else naturalLess (afterNumber a') (afterNumber b') := by
  obtain ⟨rfl, rfl⟩ : (dropCommon a b).1 = a' ∧ (dropCommon a b).2 = b' := by simp [h]
  have hne : (dropCommon a b).1 ≠ [] := by
    intro hnil
    rw [hnil] at ha
    exact ha rfl
  rw [naturalLess]
  simp only [List.isEmpty_iff, hne, if_false]
  split
  · next m' n' hm' hn' =>
      obtain rfl : m = m' := Option.some.inj (hm.symm.trans hm')
      obtain rfl : n = n' := Option.some.inj (hn.symm.trans hn')
      simp [ha, hb]
  · next hnone => exact (hnone m n hm hn).elim

end Compare

/-! ## Names in natural order -/

/-- A name that ends in no digit and whose numbers fit in an unsigned word of 64 bits. -/
structure Numbered (cs : List Char) : Prop where
  fits : ∀ n ∈ numbers cs, n < Nat.pow 2 64
  ends : ∀ c ∈ cs.getLast?, c.isDigit = false

namespace Numbered

variable {c : Char} {cs : List Char}

theorem of_cons (h : Numbered (c :: cs)) (hc : c.isDigit = false) : Numbered cs := by
  refine ⟨fun n hn => h.fits n ?_, fun d hd => h.ends d ?_⟩
  · rwa [numbers_cons_of_not_digit hc]
  · rw [List.getLast?_cons, hd]
    rfl

theorem runValue_lt (h : Numbered (c :: cs)) (hc : c.isDigit = true) :
    runValue (c :: cs) < Nat.pow 2 64 := by
  refine h.fits _ ?_
  rw [numbers_cons_of_digit hc]
  exact List.mem_cons_self ..

theorem afterNumber (h : Numbered (c :: cs)) (hc : c.isDigit = true) :
    Numbered (afterNumber (c :: cs)) := by
  refine ⟨fun n hn => h.fits n ?_, fun d hd => h.ends d ?_⟩
  · rw [numbers_cons_of_digit hc]
    exact List.mem_cons_of_mem _ hn
  · exact getLast?_afterNumber hd

end Numbered

/-- What names start with alike, up to the first digit, does not matter. -/
theorem dropCommon_spec {a b : List Char} (ha : Numbered a) (hb : Numbered b) :
    Numbered (dropCommon a b).1 ∧ Numbered (dropCommon a b).2 ∧
      (key a < key b ↔ key (dropCommon a b).1 < key (dropCommon a b).2) ∧
      ∀ c as bs, dropCommon a b = (c :: as, c :: bs) → c.isDigit = true := by
  fun_induction dropCommon a b with
  | case1 c as d bs h ih =>
      simp only [Bool.and_eq_true, decide_eq_true_eq, Bool.not_eq_true'] at h
      obtain ⟨rfl, hc⟩ := h
      obtain ⟨ha', hb', hkey, hhead⟩ := ih (ha.of_cons hc) (hb.of_cons hc)
      refine ⟨ha', hb', ?_, hhead⟩
      rw [key_cons_of_not_digit hc, key_cons_of_not_digit hc, List.cons_lt_cons_iff, ← hkey]
      simp
  | case2 c as d bs h =>
      refine ⟨ha, hb, Iff.rfl, fun x xs ys heq => ?_⟩
      obtain ⟨⟨rfl, -⟩, rfl, -⟩ : (c = x ∧ as = xs) ∧ d = x ∧ bs = ys := by simpa using heq
      simpa using h
  | case3 as bs hnone =>
      refine ⟨ha, hb, Iff.rfl, fun x xs ys heq => ?_⟩
      obtain ⟨rfl, rfl⟩ : as = x :: xs ∧ bs = x :: ys := by simpa using heq
      exact (hnone _ _ _ _ rfl rfl).elim

/-- What a name is compared by first, if it starts with a character. -/
def leadCode (c : Char) : Nat := if c.isDigit then '0'.toNat else c.toNat

theorem exists_key_cons (c : Char) (cs : List Char) : ∃ rest, key (c :: cs) = leadCode c :: rest := by
  cases h : c.isDigit with
  | true => exact ⟨_, by rw [key_cons_of_digit h, leadCode, if_pos h]⟩
  | false => exact ⟨_, by rw [key_cons_of_not_digit h, leadCode, h, if_neg Bool.false_ne_true]⟩

/-- A digit is before or behind another character as all digits are. -/
theorem leadCode_lt_iff {c d : Char} (hne : c ≠ d) (h : ¬ (c.isDigit = true ∧ d.isDigit = true)) :
    (leadCode c < leadCode d ↔ c < d) ∧ leadCode c ≠ leadCode d := by
  have hlt : c < d ↔ c.toNat < d.toNat := Iff.rfl
  have hcode : c.toNat ≠ d.toNat := fun heq => hne (Char.toNat_inj.1 heq)
  have h0 : '0'.toNat = 48 := rfl
  have h9 : '9'.toNat = 57 := rfl
  rw [hlt]
  simp only [leadCode, Char.isDigit_iff_toNat] at h ⊢
  split <;> split <;> omega

/-- **Names without numbers at their end or beyond a word are compared by their items.** -/
theorem naturalLess_iff_key_lt {a b : List Char} (ha : Numbered a) (hb : Numbered b) :
    naturalLess a b = true ↔ key a < key b := by
  obtain ⟨ha', hb', hkey, hhead⟩ := dropCommon_spec ha hb
  rw [hkey]
  match hdrop : dropCommon a b with
  | ([], []) =>
      rw [naturalLess_of_ended hdrop]
      simp
  | ([], d :: bs) =>
      rw [naturalLess_of_ended hdrop, key_nil]
      simp [nil_lt_key_cons]
  | (c :: as, []) =>
      rw [naturalLess_of_not_numbers hdrop (List.cons_ne_nil c as) (.inr (by decide)), key_nil]
      simp
  | (c :: as, d :: bs) =>
      rw [hdrop] at ha' hb'
      by_cases hdigits : c.isDigit = true ∧ d.isDigit = true
      · -- the numbers decide, or else what follows them
        obtain ⟨hc, hd⟩ := hdigits
        have hm := leadingNumber?_of_digit hc (ha'.runValue_lt hc)
        have hn := leadingNumber?_of_digit hd (hb'.runValue_lt hd)
        have hshorter : (afterNumber (c :: as)).length < a.length := by
          have hle := length_dropCommon_le a b
          rw [hdrop] at hle
          exact Nat.lt_of_lt_of_le (length_afterNumber_cons_lt hc as) hle
        have ih := naturalLess_iff_key_lt (ha'.afterNumber hc) (hb'.afterNumber hd)
        rw [naturalLess_of_numbers hdrop hm hn (afterNumber_ne_nil ha'.ends)
          (afterNumber_ne_nil hb'.ends),
          key_cons_of_digit hc, key_cons_of_digit hd, List.cons_lt_cons_iff, List.cons_lt_cons_iff, ← ih]
        split
        · next hne => simp [hne]
        · next heq => simp [Decidable.not_not.1 heq]
      · -- the first characters differ, and they decide
        have hne : c ≠ d := by
          rintro rfl
          have hc := hhead c as bs hdrop
          exact hdigits ⟨hc, hc⟩
        have hnone : leadingNumber? (c :: as) = none ∨ leadingNumber? (d :: bs) = none := by
          rcases Decidable.not_and_iff_or_not.1 hdigits with hc | hd
          · exact .inl (leadingNumber?_of_not_digit (Bool.eq_false_iff.2 hc) as)
          · exact .inr (leadingNumber?_of_not_digit (Bool.eq_false_iff.2 hd) bs)
        obtain ⟨k, hk⟩ := exists_key_cons c as
        obtain ⟨l, hl⟩ := exists_key_cons d bs
        obtain ⟨hlt, hcode⟩ := leadCode_lt_iff hne hdigits
        rw [naturalLess_of_not_numbers hdrop (List.cons_ne_nil c as) hnone, decide_eq_true_eq, hk, hl,
          List.cons_lt_cons_iff, List.cons_lt_cons_iff, hlt]
        simp [hne, hcode]
termination_by a.length
decreasing_by exact hshorter

/-! ## Names that start alike -/

theorem naturalLess_cons_of_not_digit {c : Char} (hc : c.isDigit = false) (a b : List Char) :
    naturalLess (c :: a) (c :: b) = naturalLess a b := by
  have hdrop : dropCommon (c :: a) (c :: b) = dropCommon a b := by simp [dropCommon, hc]
  rw [naturalLess.eq_def (c :: a) (c :: b), naturalLess.eq_def a b, hdrop]

theorem append_lt_append_left_iff (l x y : List Char) : l ++ x < l ++ y ↔ x < y := by
  induction l with
  | nil => exact Iff.rfl
  | cons c l ih => simp [ih]

/-- A number in front is read alike, whatever follows the name. -/
theorem runValue_append {cs : List Char} (h : afterNumber cs ≠ []) (x : List Char) :
    runValue (cs ++ x) = runValue cs ∧ afterNumber (cs ++ x) = afterNumber cs ++ x := by
  obtain ⟨d, rest, hrest⟩ := List.exists_cons_of_ne_nil h
  have hd : d.isDigit = false := by
    have hstop := List.head?_dropWhile_not Char.isDigit cs
    rw [← afterNumber, hrest, List.head?_cons] at hstop
    simpa using hstop
  obtain ⟨run, hrun, rfl⟩ : ∃ run, (∀ c ∈ run, c.isDigit = true) ∧ cs = run ++ d :: rest := by
    refine ⟨cs.takeWhile Char.isDigit, List.all_eq_true.1 List.all_takeWhile, ?_⟩
    rw [← hrest]
    exact List.takeWhile_append_dropWhile.symm
  have htake (y : List Char) : (run ++ d :: y).takeWhile Char.isDigit = run := by
    rw [List.takeWhile_append_of_pos hrun]
    simp [hd]
  have hdrop (y : List Char) : afterNumber (run ++ d :: y) = d :: y := by
    rw [afterNumber, List.dropWhile_append_of_pos hrun]
    simp [hd]
  rw [List.append_assoc, List.cons_append, runValue, runValue, htake, htake, hdrop, hdrop]
  exact ⟨rfl, rfl⟩

/-- **Names that start alike are compared without what they start with, or else by their characters**, if
that ends in no digit. It is the same for all of them. -/
theorem naturalLess_append (stem : List Char) (hstem : ∀ c ∈ stem.getLast?, c.isDigit = false) :
    (∀ x y, naturalLess (stem ++ x) (stem ++ y) = naturalLess x y) ∨
      ∀ x y, naturalLess (stem ++ x) (stem ++ y) = decide (x < y) := by
  match stem with
  | [] => exact .inl fun x y => rfl
  | c :: rest =>
      cases hc : c.isDigit with
      | false =>
          have hrest : ∀ d ∈ rest.getLast?, d.isDigit = false := by
            intro d hd
            exact hstem d (by rw [List.getLast?_cons, hd]; rfl)
          simp only [List.cons_append, naturalLess_cons_of_not_digit hc]
          exact naturalLess_append rest hrest
      | true =>
          have hgoes := afterNumber_ne_nil hstem
          have hdrop (x y : List Char) : dropCommon (c :: rest ++ x) (c :: rest ++ y) =
              (c :: rest ++ x, c :: rest ++ y) := by simp [dropCommon, hc]
          have hread (x : List Char) := runValue_append hgoes x
          by_cases hfits : runValue (c :: rest) < Nat.pow 2 64
          · have hnumber (x : List Char) : leadingNumber? (c :: rest ++ x) = some (runValue (c :: rest)) := by
              rw [← (hread x).1] at hfits ⊢
              exact leadingNumber?_of_digit hc hfits
            have hcompare (x y : List Char) : naturalLess (c :: rest ++ x) (c :: rest ++ y) =
                naturalLess (afterNumber (c :: rest) ++ x) (afterNumber (c :: rest) ++ y) := by
              have hnonempty (z : List Char) : afterNumber (c :: rest ++ z) ≠ [] := by
                rw [(hread z).2]
                simp [hgoes]
              rw [naturalLess_of_numbers (hdrop x y) (hnumber x) (hnumber y) (hnonempty x) (hnonempty y),
                if_neg (fun hne => hne rfl), (hread x).2, (hread y).2]
            have hshorter := length_afterNumber_cons_lt hc rest
            simp only [hcompare]
            exact naturalLess_append (afterNumber (c :: rest)) fun d hd => hstem d (getLast?_afterNumber hd)
          · right
            intro x y
            have hnumber : leadingNumber? (c :: rest ++ x) = none := by
              rw [← (hread x).1] at hfits
              exact leadingNumber?_of_too_large hc hfits
            rw [naturalLess_of_not_numbers (hdrop x y) (List.cons_ne_nil _ _) (.inl hnumber)]
            simp only [append_lt_append_left_iff]
termination_by stem.length
decreasing_by
  · exact Nat.lt_succ_self _
  · exact hshorter

/-! ## Sorting -/

section Sorting

variable {α : Type} {less : α → α → Bool}

theorem perm_place (x : α) (ys : List α) : (place less x ys).Perm (x :: ys) := by
  fun_induction place less x ys with
  | case1 => exact .refl _
  | case2 y rest h ih => exact (ih.cons y).trans (.swap x y rest)
  | case3 => exact .refl _

/-- Sorting changes the order of the items and nothing else. -/
theorem perm_sortBy (xs : List α) : (sortBy less xs).Perm xs := by
  have hfold (sorted : List α) :
      (xs.foldl (fun sorted x => place less x sorted) sorted).Perm (xs ++ sorted) := by
    induction xs generalizing sorted with
    | nil => exact .refl _
    | cons x xs ih =>
        rw [List.foldl_cons]
        exact (ih _).trans (((perm_place x sorted).append_left xs).trans List.perm_middle)
  have hall := hfold []
  rw [List.append_nil] at hall
  exact (List.reverse_perm _).trans hall

variable {κ : Type} [LT κ] [LE κ] [Std.LawfulOrderLT κ] [Std.IsLinearOrder κ] {p : α → Prop}
  {k : α → κ}

/-- Putting an item in its place keeps items from coming before those that are given after them. -/
theorem pairwise_place (hless : ∀ x y, p x → p y → (less x y = true ↔ k x < k y)) {x : α} (hx : p x)
    {ys : List α} (hys : ∀ y ∈ ys, p y) (h : ys.Pairwise fun y z => less y z = false) :
    (place less x ys).Pairwise fun y z => less y z = false := by
  have hfalse {y z : α} (hy : p y) (hz : p z) : less y z = false ↔ k z ≤ k y := by
    rw [← Std.not_lt, ← hless y z hy hz, Bool.not_eq_true]
  induction ys with
  | nil => exact List.pairwise_singleton _ x
  | cons y rest ih =>
      obtain ⟨hy, hrest⟩ := List.forall_mem_cons.1 hys
      obtain ⟨hfront, htail⟩ := List.pairwise_cons.1 h
      rw [place]
      split
      · next hxy =>
          refine List.pairwise_cons.2 ⟨fun z hz => ?_, ih hrest htail⟩
          rcases List.mem_cons.1 ((perm_place x rest).mem_iff.1 hz) with rfl | hz
          · exact (hfalse hy hx).2 (Std.le_of_lt ((hless _ _ hx hy).1 hxy))
          · exact hfront z hz
      · next hxy =>
          have hyx : k y ≤ k x := (hfalse hx hy).1 (Bool.not_eq_true _ |>.mp hxy)
          refine List.pairwise_cons.2 ⟨fun z hz => ?_, h⟩
          rcases List.mem_cons.1 hz with rfl | hz
          · exact (hfalse hx hy).2 hyx
          · have hzy : k z ≤ k y := (hfalse hy (hrest z hz)).1 (hfront z hz)
            exact (hfalse hx (hrest z hz)).2 (Std.le_trans hzy hyx)

/-- **Items that are told apart by keys are sorted so that none comes before an earlier one.** -/
theorem pairwise_sortBy (hless : ∀ x y, p x → p y → (less x y = true ↔ k x < k y)) {xs : List α}
    (hxs : ∀ x ∈ xs, p x) : (sortBy less xs).Pairwise fun x y => less y x = false := by
  have hfold (sorted : List α) (hsorted : ∀ y ∈ sorted, p y)
      (h : sorted.Pairwise fun y z => less y z = false) :
      (xs.foldl (fun sorted x => place less x sorted) sorted).Pairwise fun y z => less y z = false := by
    induction xs generalizing sorted with
    | nil => exact h
    | cons x xs ih =>
        obtain ⟨hx, hrest⟩ := List.forall_mem_cons.1 hxs
        refine ih hrest _ (fun y hy => ?_) (pairwise_place hless hx hsorted h)
        rcases List.mem_cons.1 ((perm_place x sorted).mem_iff.1 hy) with rfl | hy
        · exact hx
        · exact hsorted y hy
  exact List.pairwise_reverse.2 (hfold [] (List.forall_mem_nil _) .nil)

end Sorting

end LazyLambda.Text
