/-
# LazyLambda.Proofs.Token.Lines — texts put together at a line feed.

Nothing reaches over a line feed: it ends blanks, comments and names alike. So a text with a line feed in
it comes apart as what stands before it does, then at the line feed, then as what stands behind it does
(`Lexed.ofTextAt_append_lineFeed`). The one exception is a text that ends early, at a NUL character:
whatever is put behind it is not read (`Lexed.tokens_append_of_unread`).

What stands behind is read from further down. This moves its tokens down, and does nothing else to them
(`Lexed.ofTextAt_down`).
-/
import LazyLambda.Proofs.Token.Lexing

namespace LazyLambda

/-! ## Further down -/

namespace Position

/-- The position so many lines further down. -/
def down (n : Nat) (p : Position) : Position := ⟨p.line + n, p.col⟩

theorem after_down (n : Nat) (p : Position) (s : Symbol) :
    (p.down n).after s = (p.after s).down n := by
  unfold after
  split
  · simp only [down, Nat.add_right_comm]
  · rfl

theorem advance_down (n : Nat) (p : Position) (t : Text) :
    (p.down n).advance t = (p.advance t).down n := by
  induction t generalizing p with
  | nil => rfl
  | cons s t ih =>
      show ((p.down n).after s).advance t = _
      rw [after_down, ih]
      rfl

theorem advance_append (p : Position) (t u : Text) :
    p.advance (t ++ u) = (p.advance t).advance u :=
  List.foldl_append

theorem line_advance (p : Position) (t : Text) :
    (p.advance t).line = p.line + t.count (.char '\n') := by
  induction t generalizing p with
  | nil => rfl
  | cons s t ih =>
      show ((p.after s).advance t).line = _
      rw [ih, after, List.count_cons]
      by_cases hs : s = .char '\n'
      · simp only [hs, if_pos, beq_self_eq_true]
        omega
      · rw [if_neg hs, beq_eq_false_iff_ne.2 hs]
        rfl

/-- Behind a line feed the next line starts. -/
theorem advance_lineFeed (t : Text) :
    (start.advance t).after (.char '\n') = start.down (1 + t.count (.char '\n')) := by
  have hline : (start.advance t).line = 1 + t.count (.char '\n') := line_advance start t
  rw [after, if_pos rfl, hline, Nat.add_comm]
  rfl

end Position

/-- The token so many lines further down. -/
def Token.down (n : Nat) (t : Token) : Token := { t with pos := t.pos.down n }

@[simp] theorem Token.isNewline_down (n : Nat) (t : Token) : (t.down n).isNewline = t.isNewline := rfl

/-- The same tokens, so many lines further down. -/
def Lexed.down (n : Nat) (l : Lexed) : Lexed := ⟨l.tokens.map (.down n), l.stop.down n, l.unread⟩

/-- **Reading from further down moves the tokens down.** -/
theorem Lexed.ofTextAt_down (n : Nat) (pos : Position) (t : Text) :
    ofTextAt (pos.down n) t = (ofTextAt pos t).down n := by
  fun_induction ofTextAt pos t with
  | case1 pos t h =>
      rw [ofTextAt_of_end h, Position.advance_down]
      rfl
  | case2 pos t k piece h ih =>
      rw [ofTextAt_of_lexeme h, Position.advance_down, Position.advance_down, ih]
      rfl

/-! ## Over a line feed -/

section Stops

variable {α : Type} {p : α → Bool} {s : α}

/-- What a run stops at also stops it in a longer list. -/
theorem takeWhile_append_stop (hs : p s = false) (a b : List α) :
    (a ++ s :: b).takeWhile p = a.takeWhile p := by
  induction a with
  | nil => simp [hs]
  | cons c a ih =>
      rw [List.cons_append, List.takeWhile_cons, List.takeWhile_cons, ih]

theorem dropWhile_append_stop (hs : p s = false) (a b : List α) :
    (a ++ s :: b).dropWhile p = a.dropWhile p ++ s :: b := by
  induction a with
  | nil => simp [hs]
  | cons c a ih =>
      rw [List.cons_append, List.dropWhile_cons, List.dropWhile_cons, ih]
      split
      · rfl
      · rfl

/-- A run that stops within a list stops at the same place in a longer list. -/
theorem takeWhile_append_of_dropWhile {a : List α} (ha : a.dropWhile p ≠ []) (b : List α) :
    (a ++ b).takeWhile p = a.takeWhile p := by
  induction a with
  | nil => exact (ha rfl).elim
  | cons c a ih =>
      rw [List.cons_append, List.takeWhile_cons, List.takeWhile_cons]
      cases hc : p c with
      | false => rfl
      | true =>
          rw [List.dropWhile_cons_of_pos hc] at ha
          rw [ih ha]

theorem dropWhile_append_of_dropWhile {a : List α} (ha : a.dropWhile p ≠ []) (b : List α) :
    (a ++ b).dropWhile p = a.dropWhile p ++ b := by
  have hempty : (a.dropWhile p).isEmpty = false := by simpa using ha
  rw [List.dropWhile_append, hempty]
  rfl

/-- A run stops at what is not of its kind. -/
theorem not_of_head?_dropWhile (p : α → Bool) (a : List α) : ∀ c ∈ (a.dropWhile p).head?, p c = false := by
  intro c hc
  have hstop := List.head?_dropWhile_not p a
  rwa [Option.mem_def.1 hc] at hstop

theorem drop_length_takeWhile (p : α → Bool) (a : List α) :
    a.drop (a.takeWhile p).length = a.dropWhile p := by
  have hdrop : (a.takeWhile p ++ a.dropWhile p).drop (a.takeWhile p).length = a.dropWhile p :=
    List.drop_left
  rwa [List.takeWhile_append_dropWhile] at hdrop

end Stops

/-- What ends a comment is no blank. -/
theorem Symbol.not_isBlank_of_stop {s : Symbol} (h : s.inComment = false) : s.isBlank = false := by
  refine Bool.eq_false_iff.2 fun hblank => ?_
  simp only [isBlank, Bool.or_eq_true, decide_eq_true_eq] at hblank
  rcases hblank with ((rfl | rfl) | rfl) | rfl <;> exact absurd h (by decide)

namespace Text

theorem comment_append_stop {s : Symbol} (hs : s.inComment = false) (a b : Text) :
    comment (a ++ s :: b) = comment a := by
  match a with
  | [] =>
      have hne : s ≠ .char '#' := by
        rintro rfl
        exact absurd hs (by decide)
      exact comment_of_ne b hne
  | c :: r =>
      by_cases hc : c = .char '#'
      · subst hc
        exact takeWhile_append_stop hs (.char '#' :: r) b
      · rw [List.cons_append, comment_of_ne _ hc, comment_of_ne _ hc]

/-- A gap does not reach over what ends a comment. -/
theorem gap_append_stop {s : Symbol} (hs : s.inComment = false) (a b : Text) :
    gap (a ++ s :: b) = gap a := by
  have hblank : s.isBlank = false := Symbol.not_isBlank_of_stop hs
  rw [gap, takeWhile_append_stop hblank, dropWhile_append_stop hblank, comment_append_stop hs, gap]

theorem comment_prefix (t : Text) : comment t <+: t := by
  unfold comment
  split
  · exact List.takeWhile_prefix _
  · exact List.nil_prefix

/-- A text is its gap and what follows it. -/
theorem gap_append_afterGap (t : Text) : t.gap ++ t.afterGap = t := by
  refine List.prefix_iff_eq_append.1 ?_
  obtain ⟨rest, hrest⟩ := comment_prefix (t.dropWhile Symbol.isBlank)
  refine ⟨rest, ?_⟩
  rw [gap, List.append_assoc, hrest, List.takeWhile_append_dropWhile]

/-- A text that nothing is left of behind its gap is all gap. -/
theorem gap_eq_self {t : Text} (h : t.afterGap = []) : t.gap = t := by
  have happend := t.gap_append_afterGap
  rwa [h, List.append_nil] at happend

/-- The rest of a longer text with the same gap. -/
theorem afterGap_append_of_gap {a b : Text} (h : gap (a ++ b) = gap a) :
    afterGap (a ++ b) = afterGap a ++ b := by
  have happend := gap_append_afterGap (a ++ b)
  rw [h] at happend
  conv at happend => rhs; rw [← gap_append_afterGap a]
  rw [List.append_assoc] at happend
  exact List.append_cancel_left happend

theorem afterGap_append_stop {s : Symbol} (hs : s.inComment = false) (a b : Text) :
    afterGap (a ++ s :: b) = afterGap a ++ s :: b :=
  afterGap_append_of_gap (gap_append_stop hs a b)

theorem comment_append_afterGap (t : Text) :
    comment (t.dropWhile Symbol.isBlank) ++ t.afterGap = t.dropWhile Symbol.isBlank := by
  have h := gap_append_afterGap t
  rw [gap, List.append_assoc] at h
  conv at h => rhs; rw [← List.takeWhile_append_dropWhile (p := Symbol.isBlank) (l := t)]
  exact List.append_cancel_left h

/-- Behind a comment, what follows the gap is what follows the comment. -/
theorem afterGap_of_comment {t u : Text} (ht : t.dropWhile Symbol.isBlank = .char '#' :: u) :
    t.afterGap = (.char '#' :: u : Text).dropWhile Symbol.inComment := by
  have hgap := comment_append_afterGap t
  have hsplit := List.takeWhile_append_dropWhile (p := Symbol.inComment) (l := .char '#' :: u)
  rw [ht] at hgap
  exact List.append_cancel_left (hgap.trans hsplit.symm)

/-- A gap that something follows ends at the same place in a longer text. -/
theorem gap_append_of_afterGap {a : Text} (ha : a.afterGap ≠ []) (b : Text) : gap (a ++ b) = gap a := by
  have hblanks : a.dropWhile Symbol.isBlank ≠ [] := by
    intro hnil
    have hgap := comment_append_afterGap a
    rw [hnil] at hgap
    exact ha (List.append_eq_nil_iff.1 hgap).2
  rw [gap, gap, takeWhile_append_of_dropWhile hblanks, dropWhile_append_of_dropWhile hblanks]
  congr 1
  cases hdrop : a.dropWhile Symbol.isBlank with
  | nil => exact (hblanks hdrop).elim
  | cons s u =>
      by_cases hs : s = .char '#'
      · subst hs
        rw [afterGap_of_comment hdrop] at ha
        exact takeWhile_append_of_dropWhile ha b
      · rw [List.cons_append, comment_of_ne _ hs, comment_of_ne _ hs]

/-- What a lexeme is, by the symbol that it begins with. -/
theorem lexeme?_cases {s : Symbol} {t piece : Text} {k : Kind} (h : lexeme? (s :: t) = some (k, piece)) :
    s.isNul = false ∧
      (s.isLineEnd = true ∧ k = .newline ∧ piece = [s] ∨
        s.isLineEnd = false ∧ (s.operator? = some k ∧ piece = [s] ∨
          s.isNameChar = true ∧ k = .ident ∧ piece = (s :: t).takeWhile Symbol.isNameChar ∨
          s.operator? = none ∧ s.isNameChar = false ∧ k = .illegal ∧ piece = [s])) := by
  rw [lexeme?] at h
  split at h
  · cases h
  · next hnul =>
      refine ⟨Bool.eq_false_iff.2 hnul, ?_⟩
      split at h
      · next hend =>
          cases h
          exact .inl ⟨hend, rfl, rfl⟩
      · next hend =>
          refine .inr ⟨Bool.eq_false_iff.2 hend, ?_⟩
          split at h
          · next hop =>
              cases h
              exact .inl ⟨hop, rfl⟩
          · next hop =>
              split at h
              · next hname =>
                  cases h
                  exact .inr (.inl ⟨hname, rfl, rfl⟩)
              · next hname =>
                  cases h
                  exact .inr (.inr ⟨hop, Bool.eq_false_iff.2 hname, rfl, rfl⟩)

/-- A lexeme is a piece of the text from its start on. -/
theorem lexeme?_prefix {t piece : Text} {k : Kind} (h : t.lexeme? = some (k, piece)) :
    piece <+: t := by
  cases t with
  | nil => cases h
  | cons s t =>
      obtain ⟨-, ⟨-, -, rfl⟩ | ⟨-, ⟨-, rfl⟩ | ⟨-, -, rfl⟩ | ⟨-, -, -, rfl⟩⟩⟩ := lexeme?_cases h
      · exact List.prefix_append [s] t
      · exact List.prefix_append [s] t
      · exact List.takeWhile_prefix _
      · exact List.prefix_append [s] t

/-- A lexeme is missing at the end only, or in front of a NUL character. -/
theorem isNul_of_lexeme? {s : Symbol} {t : Text} (h : lexeme? (s :: t) = none) :
    s.isNul = true := by
  rw [lexeme?] at h
  split at h
  · assumption
  · split at h
    · cases h
    · split at h
      · cases h
      · split at h
        · cases h
        · cases h

/-- Where no lexeme is found, a text without NUL characters is at its end. -/
theorem afterGap_eq_nil {t : Text} (hnul : ∀ s ∈ t, s.isNul = false) (h : t.afterGap.lexeme? = none) :
    t.afterGap = [] := by
  cases hafter : t.afterGap with
  | nil => rfl
  | cons s r =>
      have hs : s.isNul = false := hnul s (List.mem_of_mem_drop (hafter ▸ List.mem_cons_self))
      -- what is no lexeme starts with a NUL character, and there is none
      rw [hafter] at h
      rw [isNul_of_lexeme? h] at hs
      cases hs

theorem operator?_ne_eof {s : Symbol} {k : Kind} (h : s.operator? = some k) : k ≠ .eof := by
  unfold Symbol.operator? at h
  split at h
  case h_6 => cases h
  all_goals
    cases h
    decide

/-- No lexeme is the end of the input, and only characters that end a line spell the end of a line. -/
theorem kind_of_lexeme? {t piece : Text} {k : Kind} (h : t.lexeme? = some (k, piece)) :
    k ≠ .eof ∧ (k = .newline → ∃ s ∈ t, s.isLineEnd = true) := by
  cases t with
  | nil => cases h
  | cons s t =>
      obtain ⟨-, ⟨hend, rfl, -⟩ | ⟨-, ⟨hop, -⟩ | ⟨-, rfl, -⟩ | ⟨-, -, rfl, -⟩⟩⟩ := lexeme?_cases h
      · exact ⟨by decide, fun _ => ⟨s, List.mem_cons_self, hend⟩⟩
      · obtain ⟨-, -, -, -, hnewline⟩ := Symbol.of_operator? hop
        exact ⟨operator?_ne_eof hop, fun hk => (hnewline hk).elim⟩
      · exact ⟨by decide, fun hk => by cases hk⟩
      · exact ⟨by decide, fun hk => by cases hk⟩

/-- What ends a name also ends it in a longer text. All other lexemes are single symbols. -/
theorem lexeme?_append_stop {a : Text} {c : Symbol} (ha : a ≠ []) (hc : c.isNameChar = false)
    (b : Text) : lexeme? (a ++ c :: b) = lexeme? a := by
  cases a with
  | nil => exact (ha rfl).elim
  | cons s r =>
      have htake : (s :: (r ++ c :: b)).takeWhile Symbol.isNameChar =
          (s :: r).takeWhile Symbol.isNameChar := takeWhile_append_stop hc (s :: r) b
      rw [List.cons_append, lexeme?, lexeme?, htake]

end Text

namespace Lexed

/-- Some tokens in front. -/
def prepend (ts : List Token) (l : Lexed) : Lexed := { l with tokens := ts ++ l.tokens }

/-- The token that a line feed makes. -/
def lineFeed (p : Position) : Token := ⟨.newline, "\n", p⟩

/-- A text that is read to its end stops there. -/
theorem stop_of_unread {pos : Position} {t : Text} (h : (ofTextAt pos t).unread = []) :
    (ofTextAt pos t).stop = pos.advance t := by
  fun_induction ofTextAt pos t with
  | case1 pos t hend => exact congrArg pos.advance (Text.gap_eq_self h)
  | case2 pos t k piece hlex ih =>
      have hpiece : piece ++ t.afterGap.drop piece.length = t.afterGap :=
        List.prefix_iff_eq_append.1 (Text.lexeme?_prefix hlex)
      calc (ofTextAt ((pos.advance t.gap).advance piece) (t.afterGap.drop piece.length)).stop
          = ((pos.advance t.gap).advance piece).advance (t.afterGap.drop piece.length) := ih h
        _ = pos.advance (t.gap ++ (piece ++ t.afterGap.drop piece.length)) := by
            rw [Position.advance_append, Position.advance_append]
        _ = pos.advance t := by rw [hpiece, Text.gap_append_afterGap]

/-- Only a NUL character leaves something unread. -/
theorem unread_eq_nil {t : Text} (h : ∀ s ∈ t, s.isNul = false) (pos : Position) :
    (ofTextAt pos t).unread = [] := by
  fun_induction ofTextAt pos t with
  | case1 pos t hend => exact Text.afterGap_eq_nil h hend
  | case2 pos t k piece hlex ih =>
      exact ih fun s hs => h s (List.mem_of_mem_drop (List.mem_of_mem_drop hs))

/-- The first token of a text stays the first when more comes behind it that does not go on with a
name. -/
theorem ofTextAt_append_of_lexeme {pos : Position} {a piece : Text} {k : Kind} {c : Symbol}
    (h : a.afterGap.lexeme? = some (k, piece)) (hc : c.isNameChar = false) (b : Text) :
    ofTextAt pos (a ++ c :: b) = cons ⟨k, Text.literal k piece, pos.advance a.gap⟩
      (ofTextAt ((pos.advance a.gap).advance piece) (a.afterGap.drop piece.length ++ c :: b)) := by
  have hne : a.afterGap ≠ [] := (Text.lexeme?_ne_nil h).2
  have hgap : Text.gap (a ++ c :: b) = a.gap := Text.gap_append_of_afterGap hne _
  have hafter : Text.afterGap (a ++ c :: b) = a.afterGap ++ c :: b := Text.afterGap_append_of_gap hgap
  have hlex : (Text.afterGap (a ++ c :: b)).lexeme? = some (k, piece) := by
    rw [hafter, Text.lexeme?_append_stop hne hc, h]
  rw [ofTextAt_of_lexeme hlex, hafter, hgap,
    List.drop_append_of_le_length (Text.lexeme?_prefix h).length_le]

/-- **A line feed ends whatever stands before it.** A text that is read to its end gives the tokens that
it has alone, then the end of the line, then what follows from the next line on. -/
theorem ofTextAt_append_lineFeed {pos : Position} {a : Text} (b : Text)
    (ha : (ofTextAt pos a).unread = []) :
    ofTextAt pos (a ++ .char '\n' :: b) =
      prepend ((ofTextAt pos a).tokens ++ [lineFeed (ofTextAt pos a).stop])
        (ofTextAt ((ofTextAt pos a).stop.after (.char '\n')) b) := by
  fun_induction ofTextAt pos a with
  | case1 pos a hend =>
      have hafter : Text.afterGap (a ++ .char '\n' :: b) = .char '\n' :: b := by
        rw [Text.afterGap_append_stop (by decide), show a.afterGap = [] from ha, List.nil_append]
      have hlex : (Text.afterGap (a ++ .char '\n' :: b)).lexeme? =
          some (.newline, [.char '\n']) := by
        rw [hafter]
        rfl
      rw [ofTextAt_of_lexeme hlex, hafter, Text.gap_append_stop (by decide)]
      rfl
  | case2 pos a k piece hlex ih =>
      rw [ofTextAt_append_of_lexeme hlex (by decide) b, ih ha]
      rfl

/-- The second of two texts in a row is read from the line on that the first ends in. -/
theorem ofText_append_lineFeed {a : Text} (b : Text) (hnul : ∀ s ∈ a, s.isNul = false) :
    ofText (a ++ .char '\n' :: b) = prepend ((ofText a).tokens ++ [lineFeed (ofText a).stop])
      ((ofText b).down (1 + a.count (.char '\n'))) := by
  have hunread : (ofText a).unread = [] := unread_eq_nil hnul .start
  have hstop : (ofText a).stop = Position.start.advance a := stop_of_unread hunread
  rw [ofText, ofTextAt_append_lineFeed b hunread, ← ofText, hstop, Position.advance_lineFeed,
    ofTextAt_down, ← ofText]

/-- Behind a text that ends early nothing is read. -/
theorem ofTextAt_append_of_unread {pos : Position} {a : Text} (b : Text)
    (ha : (ofTextAt pos a).unread ≠ []) :
    (ofTextAt pos (a ++ .char '\n' :: b)).tokens = (ofTextAt pos a).tokens ∧
      (ofTextAt pos (a ++ .char '\n' :: b)).unread ≠ [] := by
  fun_induction ofTextAt pos a with
  | case1 pos a hend =>
      have hafter : Text.afterGap (a ++ .char '\n' :: b) = a.afterGap ++ .char '\n' :: b :=
        Text.afterGap_append_stop (by decide) a b
      have hend' : (Text.afterGap (a ++ .char '\n' :: b)).lexeme? = none := by
        rw [hafter, Text.lexeme?_append_stop ha (by decide), hend]
      rw [ofTextAt_of_end hend', hafter]
      exact ⟨rfl, List.append_ne_nil_of_left_ne_nil ha _⟩
  | case2 pos a k piece hlex ih =>
      rw [ofTextAt_append_of_lexeme hlex (by decide) b]
      obtain ⟨htokens, hunread⟩ := ih ha
      exact ⟨congrArg (List.cons _) htokens, hunread⟩

theorem tokens_append_of_unread {pos : Position} {a : Text} (b : Text)
    (ha : (ofTextAt pos a).unread ≠ []) :
    (ofTextAt pos (a ++ .char '\n' :: b)).tokens = (ofTextAt pos a).tokens :=
  (ofTextAt_append_of_unread b ha).1

/-! ## Kinds -/

/-- The end of the input is no token of a text. -/
theorem kind_ne_eof {pos : Position} {t : Text} :
    ∀ tok ∈ (ofTextAt pos t).tokens, tok.kind ≠ .eof := by
  fun_induction ofTextAt pos t with
  | case1 pos t hend =>
      intro tok htok
      cases htok
  | case2 pos t k piece hlex ih =>
      intro tok htok
      rcases List.mem_cons.1 htok with rfl | htok
      · exact (Text.kind_of_lexeme? hlex).1
      · exact ih tok htok

/-- A line by itself has no end of line in it. -/
theorem not_isNewline_of_line {t : Text} (h : ∀ s ∈ t, s.isLineEnd = false) {pos : Position} :
    ∀ tok ∈ (ofTextAt pos t).tokens, tok.isNewline = false := by
  fun_induction ofTextAt pos t with
  | case1 pos t hend =>
      intro tok htok
      cases htok
  | case2 pos t k piece hlex ih =>
      intro tok htok
      rcases List.mem_cons.1 htok with rfl | htok
      · refine decide_eq_false fun hk => ?_
        obtain ⟨s, hs, hend⟩ := (Text.kind_of_lexeme? hlex).2 hk
        rw [h s (List.mem_of_mem_drop hs)] at hend
        cases hend
      · exact ih (fun s hs => h s (List.mem_of_mem_drop (List.mem_of_mem_drop hs))) tok htok

end Lexed

end LazyLambda
