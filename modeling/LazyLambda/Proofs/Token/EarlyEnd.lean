/-
# LazyLambda.Proofs.Token.EarlyEnd — texts that end at a NUL character.

A NUL character stands for the end of the text wherever it is met, between tokens, in a comment or behind
a name. So a text is read like the part of it in front of its first NUL character, and everything from
there on stays unread (`Lexed.ofTextAt_untilNul`). Whoever goes on reading finds the end again, at the same
place (`Lexed.repeat_goOn_ofText`).
-/
import LazyLambda.Proofs.Text.Decoding
import LazyLambda.Proofs.Token.Lines

namespace LazyLambda

namespace Text

/-- The text in front of its first NUL character. -/
def untilNul (t : Text) : Text := t.takeWhile fun s => !s.isNul

/-- The text from its first NUL character on. -/
def fromNul (t : Text) : Text := t.dropWhile fun s => !s.isNul

theorem untilNul_append_fromNul (t : Text) : t.untilNul ++ t.fromNul = t :=
  List.takeWhile_append_dropWhile

theorem not_isNul_untilNul (t : Text) : ∀ s ∈ t.untilNul, s.isNul = false := by
  intro s hs
  have hnul : (!s.isNul) = true := List.all_eq_true.1 List.all_takeWhile s hs
  simpa using hnul

/-- What is left begins with a NUL character. -/
theorem isNul_fromNul (t : Text) : ∀ s ∈ t.fromNul.head?, s.isNul = true := by
  intro s hs
  have hnul : (!s.isNul) = false := not_of_head?_dropWhile _ t s hs
  simpa using hnul

end Text

namespace Lexed

/-- **A NUL character ends the text**, whatever follows it. -/
theorem ofTextAt_append_nul {pos : Position} {a : Text} (ha : ∀ s ∈ a, s.isNul = false) {c : Symbol}
    (hc : c.isNul = true) (b : Text) :
    ofTextAt pos (a ++ c :: b) = ⟨(ofTextAt pos a).tokens, (ofTextAt pos a).stop, c :: b⟩ := by
  have hstop : c.inComment = false := by simp [Symbol.inComment, hc]
  have hname : c.isNameChar = false := by
    refine Bool.eq_false_iff.2 fun hname => ?_
    rw [Symbol.not_isNul_of_isNameChar hname] at hc
    cases hc
  fun_induction ofTextAt pos a with
  | case1 pos a hend =>
      have hafter : Text.afterGap (a ++ c :: b) = c :: b := by
        rw [Text.afterGap_append_stop hstop, Text.afterGap_eq_nil ha hend, List.nil_append]
      have hend' : (Text.afterGap (a ++ c :: b)).lexeme? = none := by
        rw [hafter, Text.lexeme?, if_pos hc]
      rw [ofTextAt_of_end hend', hafter, Text.gap_append_stop hstop]
  | case2 pos a k piece hlex ih =>
      have hrest : ∀ s ∈ a.afterGap.drop piece.length, s.isNul = false :=
        fun s hs => ha s (List.mem_of_mem_drop (List.mem_of_mem_drop hs))
      rw [ofTextAt_append_of_lexeme hlex hname b, ih hrest]
      rfl

/-- **A text is read up to its first NUL character.** -/
theorem ofTextAt_untilNul (pos : Position) (t : Text) :
    ofTextAt pos t = ⟨(ofTextAt pos t.untilNul).tokens, (ofTextAt pos t.untilNul).stop, t.fromNul⟩ := by
  have hnul := t.not_isNul_untilNul
  have hfirst := t.isNul_fromNul
  conv => lhs; rw [← t.untilNul_append_fromNul]
  cases hfrom : t.fromNul with
  | nil =>
      rw [List.append_nil, ← unread_eq_nil hnul pos]
  | cons c b =>
      rw [hfrom] at hfirst
      exact ofTextAt_append_nul hnul (hfirst c rfl) b

theorem unread_ofText (t : Text) : (ofText t).unread = t.fromNul := by
  rw [ofText, ofTextAt_untilNul]

theorem all_ofText (t : Text) : (ofText t).all = (ofText t.untilNul).all := by
  rw [ofText, ofTextAt_untilNul]
  rfl

/-! ## Reading on -/

/-- What is read from where reading has stopped. -/
def goOn (l : Lexed) : Lexed := ofTextAt l.stop l.unread

theorem ofTextAt_fromNul (pos : Position) (t : Text) : ofTextAt pos t.fromNul = ⟨[], pos, t.fromNul⟩ := by
  have hfirst := t.isNul_fromNul
  have hempty : ofTextAt pos [] = ⟨[], pos, []⟩ := ofTextAt_of_end rfl
  cases hfrom : t.fromNul with
  | nil => exact hempty
  | cons c b =>
      rw [hfrom] at hfirst
      have hnul : ofTextAt pos ([] ++ c :: b) = ⟨(ofTextAt pos []).tokens, (ofTextAt pos []).stop, c :: b⟩ :=
        ofTextAt_append_nul (fun s hs => by cases hs) (hfirst c rfl) b
      rwa [List.nil_append, hempty] at hnul

/-- **The end stays the end**, however often one goes on. -/
theorem repeat_goOn_ofText (n : Nat) (t : Text) :
    Nat.repeat goOn (n + 1) (ofText t) = ⟨[], (ofText t).stop, (ofText t).unread⟩ := by
  have hunread := unread_ofText t
  induction n with
  | zero =>
      show ofTextAt (ofText t).stop (ofText t).unread = _
      rw [hunread, ofTextAt_fromNul]
  | succ n ih =>
      show goOn (Nat.repeat goOn (n + 1) (ofText t)) = _
      rw [ih, hunread]
      exact ofTextAt_fromNul _ t

end Lexed

/-! ## Bytes -/

namespace Text

theorem leadingChar?_zero (bs : List UInt8) : leadingChar? (0 :: bs) = some '\x00' :=
  leadingChar?_eq_some_iff.2 ⟨bs, rfl⟩

/-- A zero byte is not stray. -/
theorem stray_ne_zero {bs : List UInt8} {x : UInt8} (h : .stray x ∈ ofBytes bs) : x ≠ 0 := by
  fun_induction ofBytes bs with
  | case1 => cases h
  | case2 b rest c hlead ih =>
      rcases List.mem_cons.1 h with heq | hrest
      · cases heq
      · exact ih hrest
  | case3 b rest hlead ih =>
      rcases List.mem_cons.1 h with heq | hrest
      · cases heq
        rintro rfl
        rw [leadingChar?_zero] at hlead
        cases hlead
      · exact ih hrest

/-- Only a NUL character is spelled with a zero byte. -/
theorem isNul_of_zero_mem {bs : List UInt8} {s : Symbol} (hs : s ∈ ofBytes bs) (h : 0 ∈ s.bytes) :
    s.isNul = true := by
  match s with
  | .stray x =>
      obtain rfl : 0 = x := List.mem_singleton.1 h
      exact (stray_ne_zero hs rfl).elim
  | .char c =>
      rcases utf8EncodeChar_cases c with ⟨hc, hsmall⟩ | hlarge
      · have hzero : 0 = UInt8.ofNat c.toNat := List.mem_singleton.1 (hc ▸ h)
        have hcode : c.toNat = 0 := by
          have hmod := congrArg UInt8.toNat hzero
          rw [UInt8.toNat_ofNat', UInt8.toNat_zero] at hmod
          omega
        rw [← Char.ofNat_toNat c, hcode]
        decide
      · exact absurd (hlarge 0 h) (by decide)

/-- **The first NUL character of a text stands at its first zero byte.** -/
theorem bytes_at_nul (bs : List UInt8) :
    (ofBytes bs).untilNul.bytes = bs.takeWhile (· ≠ 0) ∧
      (ofBytes bs).fromNul.bytes = bs.dropWhile (· ≠ 0) := by
  have hsplit : (ofBytes bs).untilNul.bytes ++ (ofBytes bs).fromNul.bytes = bs := by
    rw [← bytes_append, untilNul_append_fromNul, bytes_ofBytes]
  have hfront : ∀ x ∈ (ofBytes bs).untilNul.bytes, decide (x ≠ 0) = true := by
    intro x hx
    obtain ⟨s, hs, hxs⟩ := List.mem_flatMap.1 hx
    refine decide_eq_true ?_
    rintro rfl
    have hmem : s ∈ ofBytes bs := (List.takeWhile_prefix _).mem hs
    have hnul := not_isNul_untilNul _ s hs
    rw [isNul_of_zero_mem hmem hxs] at hnul
    cases hnul
  have hback : ∀ x ∈ (ofBytes bs).fromNul.bytes.head?, x = 0 := by
    have hfirst := isNul_fromNul (ofBytes bs)
    intro x hx
    cases hfrom : (ofBytes bs).fromNul with
    | nil =>
        rw [hfrom] at hx
        cases hx
    | cons c b =>
        rw [hfrom] at hfirst hx
        obtain rfl : c = .char '\x00' := of_decide_eq_true (hfirst c rfl)
        exact (Option.some.inj hx).symm
  generalize (ofBytes bs).untilNul.bytes = front at hsplit hfront
  generalize (ofBytes bs).fromNul.bytes = back at hsplit hback
  subst hsplit
  rw [List.takeWhile_append_of_pos hfront, List.dropWhile_append_of_pos hfront]
  cases back with
  | nil => simp
  | cons x back =>
      obtain rfl : x = 0 := hback x rfl
      simp

/-- Without a zero byte there is no NUL character. -/
theorem not_isNul_of_bytes {bs : List UInt8} (h : 0 ∉ bs) : ∀ s ∈ ofBytes bs, s.isNul = false := by
  intro s hs
  refine decide_eq_false ?_
  rintro rfl
  exact h (mem_of_mem_ofBytes hs (by decide))

theorem fromNul_eq_nil_iff (bs : List UInt8) : (ofBytes bs).fromNul = [] ↔ 0 ∉ bs := by
  have happend := untilNul_append_fromNul (ofBytes bs)
  constructor
  · intro h hmem
    have hbytes := (bytes_at_nul bs).1
    rw [h, List.append_nil] at happend
    rw [happend, bytes_ofBytes] at hbytes
    rw [hbytes] at hmem
    exact absurd (List.all_eq_true.1 List.all_takeWhile 0 hmem) (by decide)
  · intro h
    have hfirst := isNul_fromNul (ofBytes bs)
    cases hfrom : (ofBytes bs).fromNul with
    | nil => rfl
    | cons c b =>
        rw [hfrom] at hfirst happend
        have hc : c.isNul = false :=
          not_isNul_of_bytes h c (happend ▸ List.mem_append_right _ List.mem_cons_self)
        rw [hfirst c rfl] at hc
        cases hc

end Text

end LazyLambda
