/-
# LazyLambda.Proofs.Text.Decoding — bytes read as texts, across a character.

No byte that starts the spelling of a character goes on with another. So a character is read wherever it is
spelled, whatever stands around it, and bytes that are put together at one are read one after the other
(`Text.ofBytes_append_char`). It makes no difference from which end a text is read.

In particular a text has as many line feeds as its bytes (`Text.count_ofBytes`).
-/
import LazyLambda.Text.Basic

namespace LazyLambda.Text

/-- The byte of a line feed. -/
def lineFeedByte : UInt8 := 10

/-! ## Spellings -/

/-- Codes of characters end below 0x110000, on either side of the gap for surrogates. -/
theorem toNat_lt (c : Char) : c.toNat < 0x110000 := by
  rcases c.valid with hbelow | ⟨-, habove⟩
  · exact Nat.lt_trans hbelow (by decide)
  · exact habove

/-- A character is spelled by its code alone, or by large bytes only. -/
theorem utf8EncodeChar_cases (c : Char) :
    (String.utf8EncodeChar c = [UInt8.ofNat c.toNat] ∧ c.toNat < 128) ∨
      ∀ b ∈ String.utf8EncodeChar c, 128 ≤ b.toNat := by
  have hv := toNat_lt c
  rw [show c.toNat = c.val.toNat from rfl] at hv ⊢
  unfold String.utf8EncodeChar
  simp only
  generalize c.val.toNat = v at hv ⊢
  split
  · exact .inl ⟨rfl, by omega⟩
  · right
    split
    · simp only [List.forall_mem_cons, UInt8.toNat_ofNat']
      refine ⟨by omega, by omega, List.forall_mem_nil _⟩
    · split
      · simp only [List.forall_mem_cons, UInt8.toNat_ofNat']
        refine ⟨by omega, by omega, by omega, List.forall_mem_nil _⟩
      · simp only [List.forall_mem_cons, UInt8.toNat_ofNat']
        refine ⟨by omega, by omega, by omega, by omega, List.forall_mem_nil _⟩

/-- The code of a character is read off its spelling, whatever follows. -/
theorem leadingCode_utf8EncodeChar (c : Char) (bs : List UInt8) :
    leadingCode (String.utf8EncodeChar c ++ bs) = c.toNat := by
  have hv := toNat_lt c
  rw [show c.toNat = c.val.toNat from rfl] at hv ⊢
  unfold String.utf8EncodeChar
  simp only
  generalize c.val.toNat = v at hv ⊢
  split
  · simp only [List.cons_append, leadingCode, UInt8.toNat_ofNat']
    rw [if_pos (by omega)]
    omega
  · split
    · simp only [List.cons_append, leadingCode, tailBits, List.getD_cons_zero, UInt8.toNat_ofNat']
      rw [if_neg (by omega), if_pos (by omega)]
      omega
    · split
      · simp only [List.cons_append, leadingCode, tailBits, List.getD_cons_zero,
          List.getD_cons_succ, UInt8.toNat_ofNat']
        rw [if_neg (by omega), if_neg (by omega), if_pos (by omega)]
        omega
      · simp only [List.cons_append, leadingCode, tailBits, List.getD_cons_zero,
          List.getD_cons_succ, UInt8.toNat_ofNat']
        rw [if_neg (by omega), if_neg (by omega), if_neg (by omega)]
        omega

/-- The character that bytes begin with is the one whose spelling they begin with. -/
theorem leadingChar?_eq_some_iff {bs : List UInt8} {c : Char} :
    leadingChar? bs = some c ↔ String.utf8EncodeChar c <+: bs := by
  constructor
  · intro h
    exact List.isPrefixOf_iff_prefix.1 (isPrefixOf_of_leadingChar? h)
  · rintro ⟨rest, rfl⟩
    have hcode : Char.ofNat (leadingCode (String.utf8EncodeChar c ++ rest)) = c := by
      rw [leadingCode_utf8EncodeChar, Char.ofNat_toNat]
    have hprefix : (String.utf8EncodeChar c).isPrefixOf (String.utf8EncodeChar c ++ rest) = true :=
      List.isPrefixOf_iff_prefix.2 (List.prefix_append _ _)
    rw [leadingChar?, hcode, if_pos hprefix]

/-! ## Across a character -/

/-- Whether a byte goes on with the spelling of a character, and starts none. -/
def isTailByte (b : UInt8) : Bool := 128 ≤ b.toNat && b.toNat < 192

/-- A spelling starts with a byte that none goes on with, and goes on with bytes that none starts with. -/
theorem exists_utf8EncodeChar_eq_cons (c : Char) :
    ∃ b bs, String.utf8EncodeChar c = b :: bs ∧ isTailByte b = false ∧ ∀ x ∈ bs, isTailByte x = true := by
  have hv := toNat_lt c
  rw [show c.toNat = c.val.toNat from rfl] at hv
  unfold String.utf8EncodeChar
  simp only [isTailByte, Bool.and_eq_false_iff, Bool.and_eq_true, decide_eq_true_eq,
    decide_eq_false_iff_not]
  generalize c.val.toNat = v at hv ⊢
  split
  · refine ⟨_, _, rfl, ?_, List.forall_mem_nil _⟩
    rw [UInt8.toNat_ofNat']
    omega
  · split
    · refine ⟨_, _, rfl, ?_, ?_⟩
      · rw [UInt8.toNat_ofNat']
        omega
      · simp only [List.forall_mem_cons, UInt8.toNat_ofNat']
        exact ⟨by omega, List.forall_mem_nil _⟩
    · split
      · refine ⟨_, _, rfl, ?_, ?_⟩
        · rw [UInt8.toNat_ofNat']
          omega
        · simp only [List.forall_mem_cons, UInt8.toNat_ofNat']
          exact ⟨by omega, by omega, List.forall_mem_nil _⟩
      · refine ⟨_, _, rfl, ?_, ?_⟩
        · rw [UInt8.toNat_ofNat']
          omega
        · simp only [List.forall_mem_cons, UInt8.toNat_ofNat']
          exact ⟨by omega, by omega, by omega, List.forall_mem_nil _⟩

/-- A character behind some bytes makes no other character with them. -/
theorem leadingChar?_append_char {a : List UInt8} (ha : a ≠ []) (c : Char) (b : List UInt8) :
    leadingChar? (a ++ (String.utf8EncodeChar c ++ b)) = leadingChar? a := by
  refine Option.ext fun d => ?_
  rw [leadingChar?_eq_some_iff, leadingChar?_eq_some_iff]
  constructor
  · intro h
    rcases List.prefix_or_prefix_of_prefix h (List.prefix_append a _) with hd | ⟨rest, hrest⟩
    · exact hd
    · cases rest with
      | nil => exact ⟨[], by rw [List.append_nil, ← hrest, List.append_nil]⟩
      | cons x rest =>
          -- the spelling of `d` would go on over the byte that `c` starts with
          obtain ⟨tail, htail⟩ := h
          obtain ⟨y, ys, hc, hy, -⟩ := exists_utf8EncodeChar_eq_cons c
          obtain ⟨z, zs, hd, -, hzs⟩ := exists_utf8EncodeChar_eq_cons d
          rw [← hrest, List.append_assoc, hc] at htail
          obtain ⟨rfl, -⟩ := List.cons.inj (List.append_cancel_left htail)
          obtain ⟨w, ws, rfl⟩ := List.exists_cons_of_ne_nil ha
          obtain ⟨-, rfl⟩ := List.cons.inj (hrest.trans hd)
          have hx : isTailByte x = true := hzs x (by simp)
          rw [hx] at hy
          cases hy
  · intro h
    exact h.trans (List.prefix_append _ _)

theorem ofBytes_of_char {x : UInt8} {bs : List UInt8} {c : Char}
    (h : leadingChar? (x :: bs) = some c) : ofBytes (x :: bs) =
      .char c :: ofBytes ((x :: bs).drop (String.utf8EncodeChar c).length) := by
  rw [ofBytes]
  simp only [h]

theorem ofBytes_of_stray {x : UInt8} {bs : List UInt8} (h : leadingChar? (x :: bs) = none) :
    ofBytes (x :: bs) = .stray x :: ofBytes bs := by
  rw [ofBytes]
  simp only [h]

/-- **Bytes put together at a character are read one after the other.** -/
theorem ofBytes_append_char (a : List UInt8) (c : Char) (b : List UInt8) :
    ofBytes (a ++ (String.utf8EncodeChar c ++ b)) = ofBytes a ++ .char c :: ofBytes b := by
  fun_induction ofBytes a with
  | case1 =>
      obtain ⟨x, xs, hc, -, -⟩ := exists_utf8EncodeChar_eq_cons c
      have hlead : leadingChar? (x :: (xs ++ b)) = some c :=
        leadingChar?_eq_some_iff.2 ⟨b, by rw [hc, List.cons_append]⟩
      rw [List.nil_append, List.nil_append, hc, List.cons_append, ofBytes_of_char hlead, hc,
        ← List.cons_append, List.drop_left]
  | case2 x a d h ih =>
      have hlead := leadingChar?_append_char (List.cons_ne_nil x a) c b
      have hlength := (leadingChar?_eq_some_iff.1 h).length_le
      rw [h, List.cons_append] at hlead
      rw [List.cons_append, ofBytes_of_char hlead, ← List.cons_append,
        List.drop_append_of_le_length hlength, ih, List.cons_append]
  | case3 x a h ih =>
      have hlead := leadingChar?_append_char (List.cons_ne_nil x a) c b
      rw [h, List.cons_append] at hlead
      rw [List.cons_append, ofBytes_of_stray hlead, ih, List.cons_append]

theorem utf8EncodeChar_lineFeed : String.utf8EncodeChar '\n' = [lineFeedByte] := by decide

theorem ofBytes_append_lineFeed (a b : List UInt8) :
    ofBytes (a ++ lineFeedByte :: b) = ofBytes a ++ .char '\n' :: ofBytes b := by
  rw [← ofBytes_append_char, utf8EncodeChar_lineFeed, List.singleton_append]

/-! ## Parts of a text -/

theorem bytes_append (t u : Text) : (t ++ u).bytes = t.bytes ++ u.bytes := List.flatMap_append

theorem bytes_cons (s : Symbol) (t : Text) : bytes (s :: t) = s.bytes ++ t.bytes := List.flatMap_cons

/-- A character is read wherever it is spelled, and nowhere else. -/
theorem char_mem_ofBytes_iff {c : Char} {bs : List UInt8} :
    .char c ∈ ofBytes bs ↔ String.utf8EncodeChar c <:+: bs := by
  constructor
  · intro h
    obtain ⟨t, u, htu⟩ := List.append_of_mem h
    refine ⟨bytes t, bytes u, ?_⟩
    rw [← bytes_ofBytes bs, htu, bytes_append, bytes_cons, Symbol.bytes, List.append_assoc]
  · rintro ⟨a, b, rfl⟩
    rw [List.append_assoc, ofBytes_append_char]
    simp

/-- A string is read as it was spelled. -/
theorem ofBytes_bytes_ofString (x : String) : ofBytes (ofString x).bytes = ofString x := by
  rw [ofString]
  induction x.toList with
  | nil => rw [List.map_nil, bytes, List.flatMap_nil, ofBytes]
  | cons c cs ih =>
      have hread := ofBytes_append_char [] c (bytes (cs.map .char))
      rw [List.nil_append, ofBytes, List.nil_append, ih] at hread
      rw [List.map_cons, bytes_cons, Symbol.bytes, hread]

/-- The end of a text is read from its own bytes alone. -/
theorem ofBytes_bytes_of_suffix {t : Text} {bs : List UInt8} (h : t <:+ ofBytes bs) :
    ofBytes t.bytes = t := by
  fun_induction ofBytes bs with
  | case1 =>
      obtain rfl := List.suffix_nil.1 h
      rw [bytes, List.flatMap_nil, ofBytes]
  | case2 x rest c hlead ih =>
      rcases List.suffix_cons_iff.1 h with rfl | hrest
      · rw [← ofBytes_of_char hlead, bytes_ofBytes]
      · exact ih hrest
  | case3 x rest hlead ih =>
      rcases List.suffix_cons_iff.1 h with rfl | hrest
      · rw [← ofBytes_of_stray hlead, bytes_ofBytes]
      · exact ih hrest

/-- The bytes that spell a symbol of a text are among its bytes. -/
theorem mem_of_mem_ofBytes {s : Symbol} {bs : List UInt8} (hs : s ∈ ofBytes bs) {x : UInt8}
    (hx : x ∈ s.bytes) : x ∈ bs := by
  rw [← bytes_ofBytes bs]
  exact List.mem_flatMap.2 ⟨s, hs, hx⟩

/-- A text has as many line feeds as its bytes. -/
theorem count_ofBytes (bs : List UInt8) :
    (ofBytes bs).count (.char '\n') = bs.count lineFeedByte := by
  -- by cutting the bytes at line feeds, until there are none
  by_cases h : lineFeedByte ∈ bs
  · obtain ⟨a, b, hab⟩ := List.append_of_mem h
    have hlength : a.length + (b.length + 1) = bs.length := by simp [hab]
    rw [hab, ofBytes_append_lineFeed, List.count_append, List.count_append, List.count_cons_self,
      List.count_cons_self, count_ofBytes a, count_ofBytes b]
  · have hne : .char '\n' ∉ ofBytes bs := fun hs => h (mem_of_mem_ofBytes hs (by decide))
    rw [List.count_eq_zero.2 h, List.count_eq_zero.2 hne]
termination_by bs.length
decreasing_by
  · omega
  · omega

end LazyLambda.Text
