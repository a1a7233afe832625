/-
# LazyLambda.Proofs.Token.Trim — what a trimmed text begins with.

Trimming takes away more characters than the blanks that may stand between tokens, and knows nothing of
comments. Still the two agree on texts of interest: one without tokens trims to nothing or to a comment
(`Text.trim_of_no_tokens`), and one that begins with a name or a sign trims to a text that begins with the
same (`Text.trim_of_token`).
-/
import LazyLambda.Proofs.Token.Lines

namespace LazyLambda

/-! ## White space -/

namespace Text

/-- The code points of some ranges. -/
def codes (ranges : List (Nat × Nat)) : List Nat :=
  ranges.flatMap fun r => List.range' r.1 (r.2 + 1 - r.1)

theorem mem_codes {ranges : List (Nat × Nat)} {n : Nat} (h : inRanges ranges n = true) :
    n ∈ codes ranges := by
  induction ranges with
  | nil => cases h
  | cons r ranges ih =>
      rw [inRanges, Bool.and_eq_true, Bool.or_eq_true, decide_eq_true_eq, decide_eq_true_eq] at h
      refine List.mem_append.2 ?_
      rcases h with ⟨hlo, hhi | hrest⟩
      · refine .inl (List.mem_range'_1.2 ?_)
        omega
      · exact .inr (ih hrest)

/-- No letter, digit or underscore is white space. -/
theorem isSpace_codes : ∀ n ∈ codes spaceRanges,
    inRanges letterRanges n = false ∧ inRanges digitRanges n = false ∧ n ≠ '_'.toNat := by
  decide +kernel

end Text

namespace Symbol

theorem isSpace_of_isBlank {s : Symbol} (h : s.isBlank = true) : s.isSpace = true := by
  simp only [isBlank, Bool.or_eq_true, decide_eq_true_eq] at h
  rcases h with ((rfl | rfl) | rfl) | rfl <;> decide

theorem not_isSpace_of_isNameChar {s : Symbol} (h : s.isNameChar = true) : s.isSpace = false := by
  match s with
  | .char c =>
      refine Bool.eq_false_iff.2 fun hspace => ?_
      obtain ⟨hletter, hdigit, hunderscore⟩ := Text.isSpace_codes _ (Text.mem_codes hspace)
      rcases ((isNameChar_char c).1 h).2 with hc | hc | rfl
      · exact Bool.false_ne_true (hletter.symm.trans hc)
      · exact Bool.false_ne_true (hdigit.symm.trans hc)
      · exact hunderscore rfl

theorem not_isSpace_of_operator? {s : Symbol} {k : Kind} (h : s.operator? = some k) :
    s.isSpace = false ∧ s ≠ .char ':' := by
  unfold operator? at h
  split at h
  case h_6 => cases h
  all_goals decide

end Symbol

/-! ## Trimming -/

namespace Text

theorem dropWhile_isSpace (t : Text) :
    t.dropWhile Symbol.isSpace = (t.dropWhile Symbol.isBlank).dropWhile Symbol.isSpace := by
  have hblank : ∀ s ∈ t.takeWhile Symbol.isBlank, s.isSpace = true :=
    fun s hs => Symbol.isSpace_of_isBlank (List.all_eq_true.1 List.all_takeWhile s hs)
  conv => lhs; rw [← List.takeWhile_append_dropWhile (p := Symbol.isBlank) (l := t)]
  exact List.dropWhile_append_of_pos hblank

theorem trim_of_blank {t : Text} (ht : t.dropWhile Symbol.isBlank = []) : t.trim = [] := by
  rw [trim, dropWhile_isSpace, ht]
  rfl

/-- Trimming goes through blanks and stops at what is no white space. -/
theorem trim_of_dropWhile {s : Symbol} {t u : Text} (ht : t.dropWhile Symbol.isBlank = s :: u)
    (hs : s.isSpace = false) : ∃ r, t.trim = s :: r := by
  have hstart : t.dropWhile Symbol.isSpace = s :: u := by
    rw [dropWhile_isSpace, ht, List.dropWhile_cons_of_neg (by simp [hs])]
  refine ⟨(u.reverse.dropWhile Symbol.isSpace).reverse, ?_⟩
  rw [trim, hstart, dropEndWhile, List.reverse_cons, dropWhile_append_stop hs, List.reverse_append]
  rfl

/-- A text without tokens, and without NUL characters, is blank or a comment. -/
theorem trim_of_no_tokens {t : Text} (hnul : ∀ s ∈ t, s.isNul = false)
    (h : (Lexed.ofText t).tokens = []) : t.trim = [] ∨ ∃ r, t.trim = .char '#' :: r := by
  have hafter : t.afterGap = [] := by
    cases hlex : t.afterGap.lexeme? with
    | none => exact afterGap_eq_nil hnul hlex
    | some p =>
        rw [Lexed.ofText, Lexed.ofTextAt_of_lexeme hlex] at h
        cases h
  have hgap := comment_append_afterGap t
  cases hblank : t.dropWhile Symbol.isBlank with
  | nil => exact .inl (trim_of_blank hblank)
  | cons s u =>
      by_cases hs : s = .char '#'
      · subst hs
        exact .inr (trim_of_dropWhile hblank (by decide))
      · rw [hblank, comment_of_ne u hs, hafter] at hgap
        cases hgap

/-- The token behind a comment is the end of its line. -/
theorem kind_behind_comment {t u piece : Text} {k : Kind}
    (ht : t.dropWhile Symbol.isBlank = .char '#' :: u) (h : t.afterGap.lexeme? = some (k, piece)) :
    k = .newline := by
  have hafter := afterGap_of_comment ht
  have hstop := List.head?_dropWhile_not Symbol.inComment (.char '#' :: u)
  rw [← hafter] at hstop
  cases hrest : t.afterGap with
  | nil =>
      rw [hrest] at h
      cases h
  | cons s r =>
      rw [hrest] at h hstop
      have hend : s.isLineEnd = false → s.isNul = true := by
        simpa [Symbol.inComment] using hstop
      obtain ⟨hnul, ⟨-, hk, -⟩ | ⟨hline, -⟩⟩ := lexeme?_cases h
      · exact hk
      · rw [hend hline] at hnul
        cases hnul

/-- A text whose first token is a name or a sign begins with it, but for blanks. -/
theorem trim_of_token {t : Text} {tok : Token} {r : List Token}
    (h : (Lexed.ofText t).tokens = tok :: r) (hkind : tok.kind ≠ .newline ∧ tok.kind ≠ .illegal) :
    ∃ s u, t.trim = s :: u ∧ s ≠ .char '#' ∧ s ≠ .char ':' := by
  cases hlex : t.afterGap.lexeme? with
  | none =>
      rw [Lexed.ofText, Lexed.ofTextAt_of_end hlex] at h
      cases h
  | some p =>
      rw [Lexed.ofText, Lexed.ofTextAt_of_lexeme hlex] at h
      cases h
      have hgap := comment_append_afterGap t
      cases hblank : t.dropWhile Symbol.isBlank with
      | nil =>
          rw [hblank] at hgap
          rw [(List.append_eq_nil_iff.1 hgap).2] at hlex
          cases hlex
      | cons s u =>
          rw [hblank] at hgap
          by_cases hs : s = .char '#'
          · -- the first token is the end of the line that the comment is on
            subst hs
            exact (hkind.1 (kind_behind_comment hblank hlex)).elim
          · rw [comment_of_ne u hs, List.nil_append] at hgap
            rw [hgap] at hlex
            obtain ⟨-, ⟨-, hk, -⟩ | ⟨-, ⟨hop, -⟩ | ⟨hname, -⟩ | ⟨-, -, hk, -⟩⟩⟩ := lexeme?_cases hlex
            · exact (hkind.1 hk).elim
            · obtain ⟨hspace, hcolon⟩ := Symbol.not_isSpace_of_operator? hop
              obtain ⟨v, hv⟩ := trim_of_dropWhile hblank hspace
              exact ⟨s, v, hv, hs, hcolon⟩
            · obtain ⟨v, hv⟩ := trim_of_dropWhile hblank (Symbol.not_isSpace_of_isNameChar hname)
              exact ⟨s, v, hv, hs, Symbol.ne_of_isNameChar hname (by decide)⟩
            · exact (hkind.2 hk).elim

end Text

end LazyLambda
