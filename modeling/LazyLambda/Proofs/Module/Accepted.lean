/-
# LazyLambda.Proofs.Module.Accepted — what a text that parses is made of.

A module is derived from names, signs, parentheses and ends of lines, so a text that parses has no illegal
token (`Parser.legal_of_parse`). All of its symbols outside comments are therefore letters of the language,
up to where reading stops.

Reading stops at the end of the text or at a NUL character. In front of that character everything counts,
and behind it nothing does, so that a text which parses may go on with anything there.
-/
import LazyLambda.Proofs.Module.Parentheses
import LazyLambda.Proofs.Token.Parts

namespace LazyLambda

/-! ## No illegal tokens -/

namespace Grammar

theorem Sentence.legal (s : Sentence) : ∀ t ∈ s.tokens, t.kind ≠ .illegal := by
  have hexpression (e : Expression) : ∀ t ∈ e.tokens, t.kind ≠ .illegal := by
    intro t ht hk
    have hkind := e.kinds t ht
    rw [hk] at hkind
    cases hkind
  cases s with
  | bare body => exact hexpression body
  | define target sign body =>
      simp only [Sentence.tokens, List.mem_cons]
      rintro t (rfl | rfl | ht)
      · rw [target.property]
        decide
      · rw [sign.property]
        decide
      · exact hexpression body t ht

theorem legal_blanks (ls : List (Leaf .newline)) : ∀ t ∈ blanks ls, t.kind ≠ .illegal := by
  intro t ht
  obtain ⟨l, -, rfl⟩ := List.mem_map.1 ht
  rw [l.property]
  decide

/-- A module has no illegal tokens. -/
theorem Module.legal (m : Module) : ∀ t ∈ m.tokens, t.kind ≠ .illegal := by
  simp only [Module.tokens, List.mem_append, List.mem_flatMap]
  rintro t (ht | ht | ⟨c, -, ht⟩ | ht)
  · exact legal_blanks _ t ht
  · exact m.first.legal t ht
  · simp only [Continuation.tokens, List.mem_cons, List.mem_append] at ht
    rcases ht with rfl | ht | ht
    · rw [c.newline.property]
      decide
    · exact legal_blanks _ t ht
    · exact c.sentence.legal t ht
  · exact legal_blanks _ t ht

/-- Only ends of lines are taken away. -/
theorem mem_joined {t : Token} (ht : t.isNewline = false) {ts : List Token} (hmem : t ∈ ts) (depth : Nat) :
    t ∈ joined depth ts := by
  induction ts generalizing depth with
  | nil => cases hmem
  | cons u ts ih =>
      rw [joined]
      split
      · next hu =>
          rcases List.mem_cons.1 hmem with rfl | hmem
          · rw [ht] at hu
            cases hu.2
          · exact ih hmem depth
      · rcases List.mem_cons.1 hmem with rfl | hmem
        · exact List.mem_cons_self
        · exact List.mem_cons_of_mem u (ih hmem _)

end Grammar

namespace Parser

/-- **A text that parses has no illegal tokens.** -/
theorem legal_of_parse {name : String} {t : Text} {m : Module} (h : parse name t = .ok m) :
    ∀ tok ∈ (Lexed.ofText t).all, tok.kind ≠ .illegal := by
  obtain ⟨tree, htree⟩ := exists_derivation_of_no_fault (faults_of_parse h)
  intro tok htok hk
  rcases List.mem_append.1 htok with htok | htok
  · have hline : tok.isNewline = false := by simp [Token.isNewline, hk]
    exact tree.legal tok (htree ▸ Grammar.mem_joined hline htok 0) hk
  · obtain rfl := List.mem_singleton.1 htok
    cases hk

end Parser

/-! ## Letters of the language -/

/-- Symbols that may stand outside comments: characters of names, signs, blanks and ends of lines. -/
def Symbol.isLegal (s : Symbol) : Bool := s.isNameChar || s.operator?.isSome || s.isBlank || s.isLineEnd

theorem Spells.isLegal {source : Text} {k : Kind} {literal : String} (h : Spells source k literal)
    (hk : k ≠ .illegal) : ∀ s ∈ source, s.isLegal = true := by
  intro s hs
  cases k with
  | illegal => exact (hk rfl).elim
  | eof =>
      obtain ⟨-, rfl⟩ := h
      cases hs
  | newline =>
      obtain ⟨-, c, rfl, hc⟩ := h
      obtain rfl := List.mem_singleton.1 hs
      simp [Symbol.isLegal, hc]
  | ident =>
      obtain ⟨hname, rfl⟩ := h
      simp [Symbol.isLegal, Text.isNameChar_of_mem hname s hs]
  | lambda | assign | lparen | rparen =>
      obtain ⟨hmem, rfl⟩ := h
      obtain ⟨c, hc, hop⟩ := Text.mem_spellings_iff.1 hmem
      rw [hc] at hs
      obtain rfl := List.mem_singleton.1 hs
      simp [Symbol.isLegal, hop]

theorem Splits.exists_fits {before t : Text} {parts : List Part} (h : Splits before t parts) :
    ∀ p ∈ parts, ∃ b a, p.Fits b a := by
  induction h with
  | last _ hfits =>
      intro p hp
      obtain rfl := List.mem_singleton.1 hp
      exact ⟨_, _, hfits⟩
  | next _ hfits _ ih =>
      intro p hp
      rcases List.mem_cons.1 hp with rfl | hp
      · exact ⟨_, _, hfits⟩
      · exact ih p hp

namespace Parser

/-- **A text that parses is made of letters of the language up to its end or its first zero byte.** Everything
in front of that byte belongs to a token, a blank or a comment, and everything from it on stays unread. -/
theorem accepted_text_reaches_nul (name : String) (bs : List UInt8) (m : Module)
    (h : parse name (.ofBytes bs) = .ok m) :
    ((Lexed.ofText (.ofBytes bs)).unread = [] ↔ 0 ∉ bs) ∧
    (Lexed.ofText (.ofBytes bs)).unread.bytes = bs.dropWhile (· ≠ 0) ∧
    ∃ parts, Splits [] (Text.untilNul (.ofBytes bs)) parts ∧
      parts.map Part.token = (Lexed.ofText (.ofBytes bs)).all ∧
      (parts.flatMap fun p => p.gap.bytes ++ p.source.bytes) = bs.takeWhile (· ≠ 0) ∧
      ∀ p ∈ parts, ∀ s ∈ p.blanks ++ p.source, s.isLegal = true := by
  have hunread := Lexed.unread_ofText (.ofBytes bs)
  obtain ⟨hfront, hback⟩ := Text.bytes_at_nul bs
  obtain ⟨parts, hsplits, htokens⟩ :=
    Lexed.exists_splits (seam_nil _) (Text.not_isNul_untilNul (.ofBytes bs)) .start
  have hall : parts.map Part.token = (Lexed.ofText (.ofBytes bs)).all :=
    htokens.trans (Lexed.all_ofText _).symm
  refine ⟨?_, ?_, parts, hsplits, hall, ?_, ?_⟩
  · rw [hunread, Text.fromNul_eq_nil_iff]
  · rw [hunread, hback]
  · rw [← Part.bytes_texts, hsplits.texts_eq, hfront]
  · intro p hp s hs
    obtain ⟨b, a, hfits⟩ := hsplits.exists_fits p hp
    have hlegal : p.token.kind ≠ .illegal :=
      legal_of_parse h p.token (hall ▸ List.mem_map_of_mem hp)
    rcases List.mem_append.1 hs with hs | hs
    · simp [Symbol.isLegal, hfits.blank s hs]
    · exact hfits.spells.isLegal hlegal s hs

/-- The text `f=\x f#` with a stray byte in its comment. -/
theorem accepted_text_reaches_nul_comment :
    let bs : List UInt8 := [0x66, 0x3D, 0x5C, 0x78, 0x20, 0x66, 0x23, 0xFF]
    let m : Module := ⟨"", [.define "f" (.lambda "x" (.name "f"))]⟩
    parse "" (.ofBytes bs) = .ok m ∧ (Lexed.ofText (.ofBytes bs)).unread = [] := by
  intro bs m
  have hread : read (.ofBytes bs) = ⟨m.statements, []⟩ := by decide +kernel
  have hparse : parse "" (.ofBytes bs) = .ok m := by
    rw [parse, hread]
    rfl
  exact ⟨hparse, (accepted_text_reaches_nul "" bs m hparse).1.2 (by decide)⟩

/-- The text `x` parses with a NUL character and a closing parenthesis behind it. -/
theorem accepted_text_cut_short :
    let bs : List UInt8 := [0x78, 0x00, 0x29]
    parse "" (.ofBytes bs) = .ok ⟨"", [.bare (.name "x")]⟩ ∧
      (Lexed.ofText (.ofBytes bs)).unread = [.char '\x00', .char ')'] := by
  intro bs
  have hread : read (.ofBytes bs) = ⟨[.bare (.name "x")], []⟩ := by decide +kernel
  refine ⟨?_, by decide +kernel⟩
  rw [parse, hread]
  rfl

end Parser

end LazyLambda
