/-
# LazyLambda.Proofs.Token.Comments — texts put together at a space.

A space ends a name and goes into a gap, and so it keeps two texts apart almost as well as a line feed does
(`Lexed.ofTextAt_append_space`). What it does not end is a comment: one that is open at the end of the first
text runs on through the second, up to the first end of a line there (`Lexed.ofTextAt_append_in_comment`).
Whether one is open can be told by going through the symbols once (`Text.endsInComment`).
-/
import Mathlib.Data.List.DropRight
import LazyLambda.Proofs.Token.Trim

namespace LazyLambda

/-! ## Words -/

/-- A token without its place. -/
def Token.word (t : Token) : Kind × String := (t.kind, t.literal)

namespace Lexed

/-- The words of a text, and how much of it is read, do not depend on where it starts. -/
theorem words_ofTextAt (pos pos' : Position) (t : Text) :
    (ofTextAt pos t).tokens.map Token.word = (ofTextAt pos' t).tokens.map Token.word ∧
      (ofTextAt pos t).unread = (ofTextAt pos' t).unread := by
  fun_induction ofTextAt pos t generalizing pos' with
  | case1 pos t hend =>
      rw [ofTextAt_of_end hend]
      exact ⟨rfl, rfl⟩
  | case2 pos t k piece hlex ih =>
      rw [ofTextAt_of_lexeme hlex]
      obtain ⟨hwords, hunread⟩ := ih ((pos'.advance t.gap).advance piece)
      exact ⟨congrArg (List.cons _) hwords, hunread⟩

end Lexed

/-! ## Open comments -/

namespace Text

/-- Whether a comment is open behind a symbol, given whether one is open in front of it. -/
def commentAfter (inside : Bool) (s : Symbol) : Bool := (inside || s = .char '#') && s.inComment

/-- Whether a comment is open at the end of a text. -/
def endsInComment (t : Text) : Bool := t.foldl commentAfter false

theorem commentAfter_of_stop (inside : Bool) {s : Symbol} (h : s.inComment = false) :
    commentAfter inside s = false := by
  rw [commentAfter, h, Bool.and_false]

/-- Without a sign for it, no comment is opened. -/
theorem foldl_commentAfter_plain {t : Text} (h : ∀ s ∈ t, s ≠ .char '#') :
    t.foldl commentAfter false = false := by
  induction t with
  | nil => rfl
  | cons s t ih =>
      rw [List.forall_mem_cons] at h
      have hs : commentAfter false s = false := by simp [commentAfter, h.1]
      rw [List.foldl_cons, hs, ih h.2]

/-- A comment that is open stays so until its line ends. -/
theorem foldl_commentAfter_open {t : Text} (h : ∀ s ∈ t, s.inComment = true) :
    t.foldl commentAfter true = true := by
  induction t with
  | nil => rfl
  | cons s t ih =>
      rw [List.forall_mem_cons] at h
      rw [List.foldl_cons, commentAfter, h.1, Bool.true_or, Bool.and_true, ih h.2]

/-- Behind a symbol that ends comments, only what follows it counts. -/
theorem endsInComment_append_stop {s : Symbol} (a b : Text)
    (hs : commentAfter (endsInComment a) s = false) : endsInComment (a ++ s :: b) = endsInComment b := by
  show (a ++ s :: b).foldl commentAfter false = _
  rw [List.foldl_append, List.foldl_cons]
  show b.foldl commentAfter (commentAfter (endsInComment a) s) = _
  rw [hs]
  rfl

theorem ne_of_isBlank {s : Symbol} (h : s.isBlank = true) : s ≠ .char '#' := by
  rintro rfl
  exact absurd h (by decide)

/-- The text is a gap, and it ends in a comment unless it is blank. -/
theorem endsInComment_of_afterGap {t : Text} (h : t.afterGap = []) :
    endsInComment t = false ∧ (∀ s ∈ t, s.isBlank = true) ∨
      endsInComment t = true ∧ ∃ u, t.dropWhile Symbol.isBlank = .char '#' :: u := by
  have hsplit : t.takeWhile Symbol.isBlank ++ t.dropWhile Symbol.isBlank = t :=
    List.takeWhile_append_dropWhile
  have hblank : ∀ s ∈ t.takeWhile Symbol.isBlank, s.isBlank = true :=
    List.all_eq_true.1 List.all_takeWhile
  have hgap := comment_append_afterGap t
  rw [h, List.append_nil] at hgap
  cases hdrop : t.dropWhile Symbol.isBlank with
  | nil =>
      rw [hdrop, List.append_nil] at hsplit
      rw [hsplit] at hblank
      exact .inl ⟨foldl_commentAfter_plain fun s hs => ne_of_isBlank (hblank s hs), hblank⟩
  | cons s u =>
      rw [hdrop] at hsplit hgap
      by_cases hs : s = .char '#'
      · subst hs
        have hcomment : ∀ c ∈ u, c.inComment = true := by
          have hall := List.all_eq_true.1
            (List.all_takeWhile (p := Symbol.inComment) (l := .char '#' :: u))
          rw [show (Symbol.char '#' :: u).takeWhile Symbol.inComment = .char '#' :: u from hgap] at hall
          exact fun c hc => hall c (List.mem_cons_of_mem _ hc)
        refine .inr ⟨?_, u, rfl⟩
        rw [← hsplit, endsInComment, List.foldl_append,
          foldl_commentAfter_plain fun c hc => ne_of_isBlank (hblank c hc), List.foldl_cons]
        exact foldl_commentAfter_open hcomment
      · rw [comment_of_ne u hs] at hgap
        cases hgap

/-- Behind its first token, a text ends in a comment if the rest of it does. -/
theorem endsInComment_of_lexeme {t piece : Text} {k : Kind} (h : t.afterGap.lexeme? = some (k, piece)) :
    endsInComment t = endsInComment (t.afterGap.drop piece.length) := by
  have hpiece : piece <+: t.afterGap := lexeme?_prefix h
  have hsplit : (t.gap ++ piece) ++ t.afterGap.drop piece.length = t := by
    rw [List.append_assoc, List.prefix_iff_eq_append.1 hpiece, gap_append_afterGap]
  suffices hclosed : (t.gap ++ piece).foldl commentAfter false = false by
    conv => lhs; rw [← hsplit]
    rw [endsInComment, List.foldl_append, hclosed, endsInComment]
  have hblank : ∀ s ∈ t.takeWhile Symbol.isBlank, s.isBlank = true :=
    List.all_eq_true.1 List.all_takeWhile
  have hgap := comment_append_afterGap t
  cases hdrop : t.dropWhile Symbol.isBlank with
  | nil =>
      rw [hdrop] at hgap
      rw [(List.append_eq_nil_iff.1 hgap).2] at h
      cases h
  | cons s u =>
      by_cases hs : s = .char '#'
      · -- the token is the end of the line that the comment is on
        subst hs
        obtain rfl : k = .newline := kind_behind_comment hdrop h
        obtain ⟨c, rfl, hc⟩ : ∃ c, piece = [c] ∧ c.inComment = false := by
          cases hafter : t.afterGap with
          | nil =>
              rw [hafter] at h
              cases h
          | cons c r =>
              rw [hafter] at h
              obtain ⟨-, ⟨hend, -, hpiece⟩ | ⟨-, ⟨hop, -⟩ | ⟨-, hk, -⟩ | ⟨-, -, hk, -⟩⟩⟩ := lexeme?_cases h
              · exact ⟨c, hpiece, by simp [Symbol.inComment, hend]⟩
              · exact ((Symbol.of_operator? hop).2.2.2.2 rfl).elim
              · cases hk
              · cases hk
        rw [List.foldl_append, List.foldl_cons, commentAfter_of_stop _ hc]
        rfl
      · -- no comment is in front of the token, nor does the token open one
        rw [hdrop, comment_of_ne u hs, List.nil_append] at hgap
        refine foldl_commentAfter_plain fun c hc => ?_
        rcases List.mem_append.1 hc with hc | hc
        · rw [gap, hdrop, comment_of_ne u hs, List.append_nil] at hc
          exact ne_of_isBlank (hblank c hc)
        · rw [hgap] at h
          obtain ⟨-, ⟨-, -, rfl⟩ | ⟨-, ⟨-, rfl⟩ | ⟨-, -, rfl⟩ | ⟨-, -, -, rfl⟩⟩⟩ := lexeme?_cases h
          · rwa [List.mem_singleton.1 hc]
          · rwa [List.mem_singleton.1 hc]
          · exact Symbol.ne_of_isNameChar (List.all_eq_true.1 List.all_takeWhile c hc) (by decide)
          · rwa [List.mem_singleton.1 hc]

/-- Where a comment ends, no gap begins. -/
theorem gap_dropWhile_inComment (t : Text) : gap (t.dropWhile Symbol.inComment) = [] := by
  have hstop := not_of_head?_dropWhile Symbol.inComment t
  cases hrest : t.dropWhile Symbol.inComment with
  | nil => rfl
  | cons s u =>
      rw [hrest] at hstop
      exact gap_append_stop (hstop s rfl) [] u

/-- A comment that is open at the end of a gap takes in all that follows, up to where it ends. -/
theorem afterGap_append_in_comment {a : Text} (ha : a.afterGap = []) (hcomment : endsInComment a = true)
    (b : Text) : afterGap (a ++ b) = b.dropWhile Symbol.inComment := by
  rcases endsInComment_of_afterGap ha with ⟨hclosed, -⟩ | ⟨-, u, hdrop⟩
  · rw [hcomment] at hclosed
    cases hclosed
  · have hne : a.dropWhile Symbol.isBlank ≠ [] := hdrop ▸ List.cons_ne_nil _ _
    have hdrop' : (a ++ b).dropWhile Symbol.isBlank = .char '#' :: (u ++ b) := by
      rw [dropWhile_append_of_dropWhile hne, hdrop]
      rfl
    -- the gap is a comment from its sign on
    have hopen : ∀ s ∈ Symbol.char '#' :: u, s.inComment = true := by
      have hnil := afterGap_of_comment hdrop
      rw [ha] at hnil
      exact List.dropWhile_eq_nil_iff.1 hnil.symm
    rw [afterGap_of_comment hdrop', ← List.cons_append]
    exact List.dropWhile_append_of_pos hopen

end Text

/-! ## Over a space -/

namespace Lexed

theorem ofTextAt_append_blanks {a : Text} (ha : ∀ s ∈ a, s.isBlank = true) (pos : Position) (b : Text) :
    ofTextAt pos (a ++ b) = ofTextAt (pos.advance a) b := by
  induction a generalizing pos with
  | nil => rfl
  | cons s a ih =>
      rw [List.forall_mem_cons] at ha
      rw [List.cons_append, ofTextAt_cons_blank ha.1, ih ha.2]
      rfl

/-- **A space keeps texts apart.** A text that is read to its end, and in which no comment is open there,
gives the tokens that it has alone, and then what follows the space gives its own. -/
theorem ofTextAt_append_space {pos : Position} {a : Text} (b : Text)
    (ha : (ofTextAt pos a).unread = []) (hcomment : a.endsInComment = false) :
    ofTextAt pos (a ++ .char ' ' :: b) =
      prepend (ofTextAt pos a).tokens (ofTextAt ((ofTextAt pos a).stop.after (.char ' ')) b) := by
  fun_induction ofTextAt pos a with
  | case1 pos a hend =>
      have hafter : a.afterGap = [] := ha
      rcases Text.endsInComment_of_afterGap hafter with ⟨-, hblank⟩ | ⟨hopen, -⟩
      · rw [ofTextAt_append_blanks hblank, ofTextAt_cons_blank (by decide), Text.gap_eq_self hafter]
        rfl
      · rw [hcomment] at hopen
        cases hopen
  | case2 pos a k piece hlex ih =>
      rw [Text.endsInComment_of_lexeme hlex] at hcomment
      rw [ofTextAt_append_of_lexeme hlex (by decide) b, ih ha hcomment]
      rfl

/-- What follows a gap can be read alone, from where it stands. -/
theorem ofTextAt_afterGap {t : Text} (h : t.afterGap.gap = []) (pos : Position) :
    ofTextAt pos t = ofTextAt (pos.advance t.gap) t.afterGap := by
  have hafter : t.afterGap.afterGap = t.afterGap := Text.afterGap_of_gap h
  cases hlex : t.afterGap.lexeme? with
  | none =>
      have hlex' : t.afterGap.afterGap.lexeme? = none := by rw [hafter, hlex]
      rw [ofTextAt_of_end hlex, ofTextAt_of_end hlex', h, hafter]
      rfl
  | some p =>
      have hlex' : t.afterGap.afterGap.lexeme? = some p := by rw [hafter, hlex]
      rw [ofTextAt_of_lexeme hlex, ofTextAt_of_lexeme hlex', h, hafter]
      rfl

/-- **A space does not end a comment.** A text that is read to its end, and in which a comment is open there,
gives the tokens that it has alone. What follows the space adds nothing up to where the comment ends, and from
there on its own tokens. -/
theorem ofTextAt_append_in_comment {pos : Position} {a : Text} (b : Text)
    (ha : (ofTextAt pos a).unread = []) (hcomment : a.endsInComment = true) :
    ofTextAt pos (a ++ .char ' ' :: b) = prepend (ofTextAt pos a).tokens
      (ofTextAt (((ofTextAt pos a).stop.after (.char ' ')).advance (b.takeWhile Symbol.inComment))
        (b.dropWhile Symbol.inComment)) := by
  fun_induction ofTextAt pos a with
  | case1 pos a hend =>
      have hafter : a.afterGap = [] := ha
      have hrest : Text.afterGap (a ++ .char ' ' :: b) = b.dropWhile Symbol.inComment :=
        Text.afterGap_append_in_comment hafter hcomment _
      have hgap : Text.gap (a ++ .char ' ' :: b) = a ++ .char ' ' :: b.takeWhile Symbol.inComment := by
        refine List.append_cancel_right (?_ : _ ++ b.dropWhile Symbol.inComment = _)
        rw [List.append_assoc, List.cons_append, List.takeWhile_append_dropWhile, ← hrest]
        exact Text.gap_append_afterGap _
      rw [ofTextAt_afterGap (by rw [hrest]; exact Text.gap_dropWhile_inComment b), hgap, hrest,
        Text.gap_eq_self hafter, Position.advance_append]
      rfl
  | case2 pos a k piece hlex ih =>
      rw [Text.endsInComment_of_lexeme hlex] at hcomment
      rw [ofTextAt_append_of_lexeme hlex (by decide) b, ih ha hcomment]
      rfl

/-- On the same line nothing is added. -/
theorem tokens_append_in_comment {pos : Position} {a b : Text} (ha : (ofTextAt pos a).unread = [])
    (hcomment : a.endsInComment = true) (hb : ∀ s ∈ b, s.isLineEnd = false) :
    (ofTextAt pos (a ++ .char ' ' :: b)).tokens = (ofTextAt pos a).tokens := by
  have hstop := not_of_head?_dropWhile Symbol.inComment b
  have hend : (Text.afterGap (b.dropWhile Symbol.inComment)).lexeme? = none := by
    rw [Text.afterGap_of_gap (Text.gap_dropWhile_inComment b)]
    cases hrest : b.dropWhile Symbol.inComment with
    | nil => rfl
    | cons s u =>
        rw [hrest] at hstop
        have hline : s.isLineEnd = false := hb s ((List.dropWhile_suffix _).mem (hrest ▸ List.mem_cons_self))
        have hnul : s.isNul = true := by simpa [Symbol.inComment, hline] using hstop s rfl
        simp [Text.lexeme?, hnul]
  rw [ofTextAt_append_in_comment b ha hcomment, ofTextAt_of_end hend]
  exact List.append_nil _

end Lexed

end LazyLambda
