/-
# LazyLambda.Proofs.Token.Parts — texts as gaps and the spellings of tokens.

A part is a token with what stands in front of it, blanks and perhaps a comment, and the piece of text
that spells it. `Part.Fits` says which parts may stand between given texts. It looks at the symbols of
the part and at its neighbours, and knows nothing of how a text is read.

Parts that fit, one behind the other up to the end of the input, make up a text in one way only, and
reading finds it: a text without NUL characters splits into parts with the tokens that it is read as
(`Lexed.exists_splits`), and whatever parts it splits into, they say the same (`Splits.words_eq`).
-/
import LazyLambda.Proofs.Token.Comments
import LazyLambda.Proofs.Token.EarlyEnd

namespace LazyLambda

/-! ## How tokens are written -/

/-- How the signs of a kind are written. -/
def Kind.spellings : Kind → List String
  | .lambda => ["\\", "λ"]
  | .assign => ["="]
  | .lparen => ["("]
  | .rparen => [")"]
  | _ => []

/-- Symbols that no gap and no token but an illegal one begins with. -/
def Symbol.isOther (s : Symbol) : Bool :=
  !s.isBlank && s ≠ .char '#' && !s.isLineEnd && s.operator? = none && !s.isNameChar

/-- `Spells source k literal`: the source is how a token of the kind that says the literal is written. -/
def Spells (source : Text) (k : Kind) (literal : String) : Prop :=
  match k with
  | .newline => literal = "\n" ∧ ∃ s, source = [s] ∧ s.isLineEnd = true
  | .ident => IsName literal ∧ source = .ofString literal
  | .illegal => ∃ s, source = [s] ∧ s.isOther = true ∧ literal = String.ofList [s.reading]
  | .eof => literal = "" ∧ source = []
  | .lambda | .assign | .lparen | .rparen => literal ∈ k.spellings ∧ source = .ofString literal

/-! ## Parts -/

/-- A token, with the blanks and the comment in front of it and the piece of text that spells it. -/
structure Part where
  blanks : Text
  comment : Text
  source : Text
  token : Token

namespace Part

/-- What stands in front of the token. -/
def gap (p : Part) : Text := p.blanks ++ p.comment

/-- The text of a part. -/
def text (p : Part) : Text := p.gap ++ p.source

/-- The text of some parts, one behind the other. -/
def texts (ps : List Part) : Text := ps.flatMap text

open Text (Apart) in
/-- Whether a part may stand between two texts: its blanks are blanks, its comment runs from a `#` to the
end of the line or of the text, its source spells the token, and a name is not cut on either side. -/
structure Fits (p : Part) (before after : Text) : Prop where
  blank : ∀ s ∈ p.blanks, s.isBlank = true
  comment : p.comment = [] ∨ p.comment.head? = some (.char '#') ∧
    (∀ s ∈ p.comment, s.isLineEnd = false) ∧ ∀ s ∈ (p.source ++ after).head?, s.isLineEnd = true
  spells : Spells p.source p.token.kind p.token.literal
  uncut : p.token.kind = .ident →
    (∀ s ∈ (before ++ p.gap).getLast?, s.isNameChar = false) ∧ Apart after

end Part

/-- `Splits before t parts`: behind `before`, the text comes apart into the parts. The last of them is the
end of the input, and no other is. -/
inductive Splits : Text → Text → List Part → Prop
  | last {before : Text} {p : Part} :
      p.token.kind = .eof → p.Fits before [] → Splits before p.text [p]
  | next {before after : Text} {p : Part} {ps : List Part} :
      p.token.kind ≠ .eof → p.Fits before after → Splits (before ++ p.text) after ps →
      Splits before (p.text ++ after) (p :: ps)

/-! ## Spellings and lexemes -/

namespace Symbol

theorem isOther_iff {s : Symbol} : s.isOther = true ↔ s.isBlank = false ∧ s ≠ .char '#' ∧
    s.isLineEnd = false ∧ s.operator? = none ∧ s.isNameChar = false := by
  simp only [isOther, Bool.and_eq_true, Bool.not_eq_true', decide_eq_true_eq, and_assoc]

theorem not_isNameChar_of_isLineEnd {s : Symbol} (h : s.isLineEnd = true) : s.isNameChar = false := by
  refine Bool.eq_false_iff.2 fun hname => ?_
  rw [not_isLineEnd_of_isNameChar hname] at h
  cases h

theorem not_isNameChar_of_operator? {s : Symbol} {k : Kind} (h : s.operator? = some k) :
    s.isNameChar = false := by
  refine Bool.eq_false_iff.2 fun hname => ?_
  rw [operator?_of_isNameChar hname] at h
  cases h

/-- The end of a line begins no gap. -/
theorem tight_of_isLineEnd {s : Symbol} (h : s.isLineEnd = true) :
    s.isBlank = false ∧ s ≠ .char '#' := by
  refine ⟨not_isBlank_of_stop (by simp [inComment, h]), ?_⟩
  rintro rfl
  exact absurd h (by decide)

end Symbol

namespace Text

/-- A text without stray bytes is the text of a string. -/
theorem ofString_toString {t : Text} (h : ∀ s ∈ t, Symbol.char s.reading = s) :
    ofString t.toString = t := by
  rw [ofString, toString, String.toList_ofList, List.map_map]
  exact (List.map_congr_left h).trans (List.map_id t)

theorem ofString_toString_names {t : Text} (h : ∀ s ∈ t, s.isNameChar = true) :
    ofString t.toString = t := by
  refine ofString_toString fun s hs => ?_
  match s, h s hs with
  | .char c, _ => rfl

/-- The signs are single symbols. -/
theorem mem_spellings_iff {literal : String} {k : Kind} :
    literal ∈ k.spellings ↔ ∃ s, ofString literal = [s] ∧ s.operator? = some k := by
  constructor
  · intro h
    cases k <;> simp only [Kind.spellings, List.mem_cons, List.not_mem_nil, or_false] at h
    case lambda =>
      rcases h with rfl | rfl
      · exact ⟨.char '\\', by decide, rfl⟩
      · exact ⟨.char 'λ', by decide, rfl⟩
    case assign => exact ⟨.char '=', by rw [h]; decide, rfl⟩
    case lparen => exact ⟨.char '(', by rw [h]; decide, rfl⟩
    case rparen => exact ⟨.char ')', by rw [h]; decide, rfl⟩
  · rintro ⟨s, hs, hop⟩
    obtain rfl : toString [s] = literal := by rw [← hs, toString_ofString]
    unfold Symbol.operator? at hop
    split at hop
    case h_6 => cases hop
    all_goals
      cases hop
      decide

end Text

namespace Spells

variable {source after : Text} {k : Kind} {literal : String}

/-- Everything but a name is a single symbol, and is told by that symbol alone. -/
theorem single (h : Spells source k literal) (hk : k ≠ .eof) (hname : k ≠ .ident) :
    ∃ s, source = [s] ∧ s.isBlank = false ∧ s ≠ .char '#' ∧ s.isNameChar = false ∧
      Text.literal k [s] = literal ∧
      (s.isNul = false → ∀ after, Text.lexeme? (s :: after) = some (k, [s])) := by
  cases k with
  | eof => exact (hk rfl).elim
  | ident => exact (hname rfl).elim
  | newline =>
      obtain ⟨rfl, s, rfl, hs⟩ := h
      obtain ⟨hblank, hsharp⟩ := Symbol.tight_of_isLineEnd hs
      refine ⟨s, rfl, hblank, hsharp, Symbol.not_isNameChar_of_isLineEnd hs, rfl, fun hnul after => ?_⟩
      simp [Text.lexeme?, hnul, hs]
  | illegal =>
      obtain ⟨s, rfl, hs, rfl⟩ := h
      obtain ⟨hblank, hsharp, hline, hop, hchar⟩ := Symbol.isOther_iff.1 hs
      refine ⟨s, rfl, hblank, hsharp, hchar, rfl, fun hnul after => ?_⟩
      simp [Text.lexeme?, hnul, hline, hop, hchar]
  | lambda | assign | lparen | rparen =>
      obtain ⟨hmem, rfl⟩ := h
      obtain ⟨s, hs, hop⟩ := Text.mem_spellings_iff.1 hmem
      obtain ⟨hblank, hsharp, -, hline, -⟩ := Symbol.of_operator? hop
      refine ⟨s, hs, hblank, hsharp, Symbol.not_isNameChar_of_operator? hop, ?_, fun hnul after => ?_⟩
      · rw [← hs]
        exact Text.toString_ofString literal
      · simp [Text.lexeme?, hnul, hline, hop]

/-- A token other than the end of the input begins no gap. -/
theorem tight (h : Spells source k literal) (hk : k ≠ .eof) :
    ∃ s r, source = s :: r ∧ s.isBlank = false ∧ s ≠ .char '#' := by
  by_cases hident : k = .ident
  · subst hident
    obtain ⟨hname, rfl⟩ := h
    obtain ⟨s, r, hsource⟩ := Text.exists_cons_of_isName hname
    have hs : s.isNameChar = true := Text.isNameChar_of_mem hname s (by simp [hsource])
    exact ⟨s, r, hsource, Symbol.not_isBlank_of_isNameChar hs, Symbol.ne_of_isNameChar hs (by decide)⟩
  · obtain ⟨s, hsource, hblank, hsharp, -⟩ := h.single hk hident
    exact ⟨s, [], hsource, hblank, hsharp⟩

/-- **What spells a token is read as that token**, provided that a name is not cut. -/
theorem lexeme?_eq (h : Spells source k literal) (hk : k ≠ .eof) (hnul : ∀ s ∈ source, s.isNul = false)
    (hafter : k = .ident → Text.Apart after) :
    Text.lexeme? (source ++ after) = some (k, source) ∧ Text.literal k source = literal := by
  by_cases hident : k = .ident
  · subst hident
    obtain ⟨hname, rfl⟩ := h
    exact ⟨Text.lexeme?_name hname (hafter rfl), Text.toString_ofString literal⟩
  · obtain ⟨s, rfl, -, -, -, hliteral, hlex⟩ := h.single hk hident
    exact ⟨hlex (hnul s List.mem_cons_self) after, hliteral⟩

end Spells

namespace Text

/-- **What is read as a token spells it**, and a name is not cut. -/
theorem spells_of_lexeme? {s : Symbol} {t piece : Text} {k : Kind} (hblank : s.isBlank = false)
    (hsharp : s ≠ .char '#') (h : lexeme? (s :: t) = some (k, piece)) :
    Spells piece k (literal k piece) ∧ (k = .ident → Apart ((s :: t).drop piece.length)) := by
  obtain ⟨-, ⟨hline, rfl, rfl⟩ | ⟨hline, ⟨hop, rfl⟩ | ⟨hname, rfl, rfl⟩ | ⟨hop, hname, rfl, rfl⟩⟩⟩ :=
    lexeme?_cases h
  · exact ⟨⟨rfl, s, rfl, hline⟩, fun hk => by cases hk⟩
  · have hchar : ofString (toString [s]) = [s] := by
      unfold Symbol.operator? at hop
      split at hop
      case h_6 => cases hop
      all_goals decide
    have hsign : toString [s] ∈ k.spellings := mem_spellings_iff.2 ⟨s, hchar, hop⟩
    cases k with
    | lambda | assign | lparen | rparen => exact ⟨⟨hsign, hchar.symm⟩, fun hk => by cases hk⟩
    | newline | eof | ident | illegal => cases hsign
  · have hall : ((s :: t).takeWhile Symbol.isNameChar).all Symbol.isNameChar = true := List.all_takeWhile
    have hstring := ofString_toString_names (List.all_eq_true.1 hall)
    have hne : toString ((s :: t).takeWhile Symbol.isNameChar) ≠ "" := by
      intro hempty
      rw [hempty, List.takeWhile_cons_of_pos hname] at hstring
      cases hstring
    refine ⟨⟨(isName_iff _).2 ⟨hne, hstring.symm ▸ hall⟩, hstring.symm⟩, fun _ => ?_⟩
    rw [drop_length_takeWhile]
    exact not_of_head?_dropWhile Symbol.isNameChar (s :: t)
  · exact ⟨⟨s, rfl, Symbol.isOther_iff.2 ⟨hblank, hsharp, hline, hop, hname⟩, rfl⟩, fun hk => by cases hk⟩

/-! ## Gaps -/

theorem gap_append_blanks {a : Text} (ha : ∀ s ∈ a, s.isBlank = true) (t : Text) :
    gap (a ++ t) = a ++ gap t := by
  induction a with
  | nil => rfl
  | cons s a ih =>
      rw [List.forall_mem_cons] at ha
      rw [List.cons_append, gap_cons_blank _ ha.1, ih ha.2, List.cons_append]

/-- A comment ends where its line or the text does. -/
theorem gap_comment {c t : Text} (hsharp : c.head? = some (.char '#')) (hc : ∀ s ∈ c, s.inComment = true)
    (ht : ∀ s ∈ t.head?, s.inComment = false) : gap (c ++ t) = c := by
  have htake : (c ++ t).takeWhile Symbol.inComment = c := by
    rw [List.takeWhile_append_of_pos hc]
    cases t with
    | nil => simp
    | cons s r => simp [ht s rfl]
  cases c with
  | nil => cases hsharp
  | cons s r =>
      cases hsharp
      exact htake

/-- What a text has for a comment in front of its first token, and what that token begins with. -/
theorem comment_cases {t : Text} (hnul : ∀ s ∈ t, s.isNul = false) :
    comment (t.dropWhile Symbol.isBlank) = [] ∧
        (∀ s ∈ t.afterGap.head?, s.isBlank = false ∧ s ≠ .char '#') ∨
      (comment (t.dropWhile Symbol.isBlank)).head? = some (.char '#') ∧
        (∀ s ∈ comment (t.dropWhile Symbol.isBlank), s.isLineEnd = false) ∧
        ∀ s ∈ t.afterGap.head?, s.isLineEnd = true := by
  have hgap := comment_append_afterGap t
  have hblank := not_of_head?_dropWhile Symbol.isBlank t
  cases hdrop : t.dropWhile Symbol.isBlank with
  | nil =>
      rw [hdrop] at hgap
      rw [(List.append_eq_nil_iff.1 hgap).2]
      exact .inl ⟨rfl, fun s hs => by cases hs⟩
  | cons c u =>
      rw [hdrop] at hgap hblank
      by_cases hc : c = .char '#'
      · subst hc
        refine .inr ⟨rfl, fun s hs => ?_, fun s hs => ?_⟩
        · have hin : s.inComment = true := List.all_eq_true.1 List.all_takeWhile s hs
          simp only [Symbol.inComment, Bool.and_eq_true, Bool.not_eq_true'] at hin
          exact hin.1
        · have hmem : s ∈ t := List.mem_of_mem_drop (List.mem_of_mem_head? hs)
          rw [afterGap_of_comment hdrop] at hs
          have hstop := not_of_head?_dropWhile Symbol.inComment _ s hs
          simpa [Symbol.inComment, hnul s hmem] using hstop
      · rw [comment_of_ne u hc, List.nil_append] at hgap
        refine .inl ⟨comment_of_ne u hc, fun s hs => ?_⟩
        rw [hgap] at hs
        obtain rfl : c = s := by simpa using hs
        exact ⟨hblank c rfl, hc⟩

/-- What follows the gap begins no gap. -/
theorem tight_afterGap {t : Text} (hnul : ∀ s ∈ t, s.isNul = false) :
    ∀ s ∈ t.afterGap.head?, s.isBlank = false ∧ s ≠ .char '#' := by
  rcases comment_cases hnul with ⟨-, htight⟩ | ⟨-, -, hline⟩
  · exact htight
  · exact fun s hs => Symbol.tight_of_isLineEnd (hline s hs)

/-- The first token of a text is spelled by its piece. -/
theorem spells_afterGap {t piece : Text} {k : Kind} (hnul : ∀ s ∈ t, s.isNul = false)
    (h : t.afterGap.lexeme? = some (k, piece)) :
    Spells piece k (literal k piece) ∧ (k = .ident → Apart (t.afterGap.drop piece.length)) := by
  have htight := tight_afterGap hnul
  cases hafter : t.afterGap with
  | nil =>
      rw [hafter] at h
      cases h
  | cons s r =>
      rw [hafter] at h htight
      obtain ⟨hblank, hsharp⟩ := htight s rfl
      exact spells_of_lexeme? hblank hsharp h

end Text

/-! ## Parts that fit are read -/

namespace Part

variable {p : Part} {before after : Text} {pos : Position}

/-- The gap of a text is that of the part it begins with. -/
theorem Fits.gap_eq (h : p.Fits before after) (hnul : ∀ s ∈ p.gap, s.isNul = false)
    (htight : ∀ s ∈ (p.source ++ after).head?, s.isBlank = false ∧ s ≠ .char '#') :
    Text.gap (p.text ++ after) = p.gap ∧ Text.afterGap (p.text ++ after) = p.source ++ after := by
  have happend : p.text ++ after = p.blanks ++ (p.comment ++ (p.source ++ after)) := by
    simp [text, gap]
  have hrest : Text.gap (p.comment ++ (p.source ++ after)) = p.comment := by
    rcases h.comment with hnil | ⟨hsharp, hline, hend⟩
    · rw [hnil]
      cases hhead : p.source ++ after with
      | nil => rfl
      | cons s r =>
          obtain ⟨hblank, hsharp⟩ := htight s (by rw [hhead]; rfl)
          exact Text.gap_of_tight r hblank hsharp
    · refine Text.gap_comment hsharp (fun s hs => ?_) fun s hs => ?_
      · simp [Symbol.inComment, hline s hs, hnul s (List.mem_append_right _ hs)]
      · simp [Symbol.inComment, hend s hs]
  have hgap : Text.gap (p.text ++ after) = p.gap := by
    rw [happend, Text.gap_append_blanks h.blank, hrest, gap]
  refine ⟨hgap, ?_⟩
  rw [Text.afterGap, hgap, text, List.append_assoc, List.drop_left]

/-- **A part that fits is read first**, and reading goes on behind it. -/
theorem Fits.ofTextAt_eq (h : p.Fits before after) (hk : p.token.kind ≠ .eof)
    (hnul : ∀ s ∈ p.text, s.isNul = false) (pos : Position) :
    Lexed.ofTextAt pos (p.text ++ after) = Lexed.cons { p.token with pos := pos.advance p.gap }
      (Lexed.ofTextAt (pos.advance p.text) after) := by
  have htight : ∀ s ∈ (p.source ++ after).head?, s.isBlank = false ∧ s ≠ .char '#' := by
    obtain ⟨c, r, hsource, hc⟩ := h.spells.tight hk
    intro s hs
    rw [hsource] at hs
    obtain rfl : c = s := by simpa using hs
    exact hc
  obtain ⟨hgap, hafter⟩ := h.gap_eq (fun s hs => hnul s (List.mem_append_left _ hs)) htight
  obtain ⟨hlex, hliteral⟩ := h.spells.lexeme?_eq hk (fun s hs => hnul s (List.mem_append_right _ hs))
    fun hident => (h.uncut hident).2
  rw [← hafter] at hlex
  rw [Lexed.ofTextAt_of_lexeme hlex, hafter, hgap, hliteral, List.drop_left, text,
    Position.advance_append]

/-- Behind the last part nothing is read. -/
theorem Fits.ofTextAt_eq_end (h : p.Fits before []) (hk : p.token.kind = .eof)
    (hnul : ∀ s ∈ p.text, s.isNul = false) (pos : Position) :
    Lexed.ofTextAt pos p.text = ⟨[], pos.advance p.gap, []⟩ := by
  have hspells := h.spells
  rw [hk] at hspells
  obtain ⟨-, hsource⟩ := hspells
  obtain ⟨hgap, hafter⟩ := h.gap_eq (fun s hs => hnul s (List.mem_append_left _ hs))
    (by simp [hsource])
  rw [List.append_nil] at hgap hafter
  rw [hsource, List.append_nil] at hafter
  have hlex : p.text.afterGap.lexeme? = none := by
    rw [hafter]
    rfl
  rw [Lexed.ofTextAt_of_end hlex, hgap, hafter]

end Part

/-- **Whatever parts a text splits into, they say what is read.** -/
theorem Splits.words_eq {before t : Text} {parts : List Part} (h : Splits before t parts)
    (hnul : ∀ s ∈ t, s.isNul = false) (pos : Position) :
    parts.map (fun p => p.token.word) = (Lexed.ofTextAt pos t).all.map Token.word := by
  induction h generalizing pos with
  | @last before p hk hfits =>
      rw [hfits.ofTextAt_eq_end hk hnul]
      have hspells := hfits.spells
      rw [hk] at hspells
      show [(p.token.kind, p.token.literal)] = [(.eof, "")]
      rw [hk, hspells.1]
  | @next before after p ps hk hfits _ ih =>
      rw [hfits.ofTextAt_eq hk (fun s hs => hnul s (List.mem_append_left _ hs))]
      exact congrArg (List.cons _) (ih (fun s hs => hnul s (List.mem_append_right _ hs)) _)

/-! ## What is read fits -/

/-- Texts that are not cut within a name. -/
def Seam (before after : Text) : Prop :=
  ∀ s ∈ before.getLast?, s.isNameChar = true → Text.Apart after

theorem seam_nil (t : Text) : Seam [] t := by
  intro s hs
  cases hs

/-- In front of a name, behind a seam and blanks, is no character of names. -/
theorem Seam.not_isNameChar {before blanks r : Text} {s : Symbol} (h : Seam before (blanks ++ s :: r))
    (hs : s.isNameChar = true) (hblank : ∀ c ∈ blanks, c.isBlank = true) :
    ∀ c ∈ (before ++ blanks).getLast?, c.isNameChar = false := by
  intro c hc
  refine Bool.eq_false_iff.2 fun hname => ?_
  rw [List.getLast?_append, Option.mem_def, Option.or_eq_some_iff] at hc
  rcases hc with hlast | ⟨hnone, hlast⟩
  · have hc' := hblank c (List.mem_of_getLast? hlast)
    rw [Symbol.not_isBlank_of_isNameChar hname] at hc'
    cases hc'
  · obtain rfl : blanks = [] := List.getLast?_eq_none_iff.1 hnone
    have hs' : s.isNameChar = false := h c hlast hname s rfl
    rw [hs] at hs'
    cases hs'

namespace Part

/-- The part that a text begins with, given its token and the piece that spells it. -/
def inFront (t piece : Text) (token : Token) : Part :=
  ⟨t.takeWhile Symbol.isBlank, Text.comment (t.dropWhile Symbol.isBlank), piece, token⟩

variable {before t piece : Text} {k : Kind}

/-- A name is not cut in front either: behind a comment the line would end. -/
theorem not_isNameChar_of_lexeme? (hseam : Seam before t) (hnul : ∀ s ∈ t, s.isNul = false)
    (h : t.afterGap.lexeme? = some (.ident, piece)) :
    ∀ s ∈ (before ++ t.gap).getLast?, s.isNameChar = false := by
  obtain ⟨⟨hname, hpiece⟩, -⟩ := Text.spells_afterGap hnul h
  obtain ⟨s, r, hs⟩ := Text.exists_cons_of_isName hname
  have hchar : s.isNameChar = true := Text.isNameChar_of_mem hname s (by simp [hs])
  rw [hs] at hpiece
  obtain ⟨rest, hafter⟩ := Text.lexeme?_prefix h
  rw [hpiece, List.cons_append] at hafter
  have hnone : Text.comment (t.dropWhile Symbol.isBlank) = [] := by
    rcases Text.comment_cases hnul with ⟨hnone, -⟩ | ⟨-, -, hline⟩
    · exact hnone
    · have hs' := Symbol.not_isNameChar_of_isLineEnd (hline s (by rw [← hafter]; rfl))
      rw [hchar] at hs'
      cases hs'
  have hgap : t.gap = t.takeWhile Symbol.isBlank := by
    rw [Text.gap, hnone, List.append_nil]
  have ht : t.takeWhile Symbol.isBlank ++ s :: (r ++ rest) = t := by
    rw [← hgap, hafter, Text.gap_append_afterGap]
  rw [← ht] at hseam
  rw [hgap]
  exact hseam.not_isNameChar hchar (List.all_eq_true.1 List.all_takeWhile)

/-- **What is read first fits.** -/
theorem fits_of_lexeme? (hseam : Seam before t) (hnul : ∀ s ∈ t, s.isNul = false)
    (h : t.afterGap.lexeme? = some (k, piece)) (pos : Position) :
    (inFront t piece ⟨k, Text.literal k piece, pos⟩).Fits before (t.afterGap.drop piece.length) := by
  have hpiece : piece ++ t.afterGap.drop piece.length = t.afterGap :=
    List.prefix_iff_eq_append.1 (Text.lexeme?_prefix h)
  obtain ⟨hspells, hapart⟩ := Text.spells_afterGap hnul h
  refine ⟨List.all_eq_true.1 List.all_takeWhile, ?_, hspells, fun hident => ⟨?_, hapart hident⟩⟩
  · show Text.comment _ = [] ∨ _ ∧ _ ∧ ∀ s ∈ (piece ++ t.afterGap.drop piece.length).head?, _
    rw [hpiece]
    exact (Text.comment_cases hnul).imp_left And.left
  · obtain rfl : k = .ident := hident
    exact not_isNameChar_of_lexeme? hseam hnul h

/-- The end of the input fits where nothing is left to read. -/
theorem fits_of_end (before : Text) (hnul : ∀ s ∈ t, s.isNul = false) (h : t.afterGap = []) (pos : Position) :
    (inFront t [] (.eof pos)).Fits before [] := by
  refine ⟨List.all_eq_true.1 List.all_takeWhile, ?_, ⟨rfl, rfl⟩, fun hident => by cases hident⟩
  have hcomment := (Text.comment_cases hnul).imp_left And.left
  rwa [h] at hcomment

/-- Behind the first token no name is cut. -/
theorem seam_of_lexeme? (before : Text) (hnul : ∀ s ∈ t, s.isNul = false)
    (h : t.afterGap.lexeme? = some (k, piece)) :
    Seam (before ++ (t.gap ++ piece)) (t.afterGap.drop piece.length) := by
  obtain ⟨hspells, hapart⟩ := Text.spells_afterGap hnul h
  intro c hc hchar
  rw [← List.append_assoc, List.getLast?_append, Option.mem_def, Option.or_eq_some_iff] at hc
  rcases hc with hlast | ⟨hnone, -⟩
  · by_cases hident : k = .ident
    · exact hapart hident
    · obtain ⟨s, rfl, -, -, hs, -⟩ := hspells.single (Text.kind_of_lexeme? h).1 hident
      obtain rfl : s = c := by simpa using hlast
      rw [hchar] at hs
      cases hs
  · exact ((Text.lexeme?_ne_nil h).1 (List.getLast?_eq_none_iff.1 hnone)).elim

end Part

/-- **A text splits into parts with the tokens that it is read as.** -/
theorem Lexed.exists_splits {before t : Text} (hseam : Seam before t)
    (hnul : ∀ s ∈ t, s.isNul = false) (pos : Position) :
    ∃ parts, Splits before t parts ∧ parts.map Part.token = (ofTextAt pos t).all := by
  fun_induction ofTextAt pos t generalizing before with
  | case1 pos t hend =>
      have hafter : t.afterGap = [] := Text.afterGap_eq_nil hnul hend
      have hlast := Splits.last rfl (Part.fits_of_end before hnul hafter (pos.advance t.gap))
      have ht : (Part.inFront t [] (.eof (pos.advance t.gap))).text = t := by
        show t.gap ++ [] = t
        rw [List.append_nil, Text.gap_eq_self hafter]
      rw [ht] at hlast
      exact ⟨_, hlast, rfl⟩
  | case2 pos t k piece hlex ih =>
      let p := Part.inFront t piece ⟨k, Text.literal k piece, pos.advance t.gap⟩
      have ht : p.text ++ t.afterGap.drop piece.length = t := by
        show (t.gap ++ piece) ++ _ = t
        rw [List.append_assoc, List.prefix_iff_eq_append.1 (Text.lexeme?_prefix hlex),
          Text.gap_append_afterGap]
      have hrest : ∀ s ∈ t.afterGap.drop piece.length, s.isNul = false :=
        fun s hs => hnul s (List.mem_of_mem_drop (List.mem_of_mem_drop hs))
      obtain ⟨ps, hsplits, htokens⟩ := ih (Part.seam_of_lexeme? before hnul hlex) hrest
      have hfirst := Splits.next (Text.kind_of_lexeme? hlex).1
        (Part.fits_of_lexeme? hseam hnul hlex (pos.advance t.gap)) hsplits
      rw [ht] at hfirst
      exact ⟨p :: ps, hfirst, congrArg (List.cons p.token) htokens⟩

/-! ## Bytes -/

/-- The parts of a text make it up. -/
theorem Splits.texts_eq {before t : Text} {parts : List Part} (h : Splits before t parts) :
    Part.texts parts = t := by
  induction h with
  | last _ _ => exact List.append_nil _
  | next _ _ _ ih => rw [← ih]; rfl

theorem Part.bytes_texts (parts : List Part) :
    (texts parts).bytes = parts.flatMap fun p => p.gap.bytes ++ p.source.bytes := by
  rw [texts, Text.bytes, List.flatMap_assoc]
  simp only [text, List.flatMap_append, Text.bytes]

/-- **Bytes are split exactly.** Without a zero byte among them they are the gaps and the spellings of the
tokens, in order and up to the end of the input, each where it fits. No other words could be found there. -/
theorem Lexed.bytes_split_exactly (bs : List UInt8) (hnul : 0 ∉ bs) :
    (∃ parts, Splits [] (.ofBytes bs) parts ∧ parts.map Part.token = (ofText (.ofBytes bs)).all ∧
      (parts.flatMap fun p => p.gap.bytes ++ p.source.bytes) = bs) ∧
    ∀ parts, Splits [] (.ofBytes bs) parts →
      parts.map (fun p => p.token.word) = (ofText (.ofBytes bs)).all.map Token.word := by
  have hnul' := Text.not_isNul_of_bytes hnul
  refine ⟨?_, fun parts hsplits => hsplits.words_eq hnul' .start⟩
  obtain ⟨parts, hsplits, htokens⟩ := exists_splits (seam_nil _) hnul' .start
  refine ⟨parts, hsplits, htokens, ?_⟩
  rw [← Part.bytes_texts, hsplits.texts_eq, Text.bytes_ofBytes]

/-- A stray byte is a token of its own in front of a name, and part of the comment behind a `#`. -/
theorem Lexed.bytes_split_exactly_stray :
    let bs : List UInt8 := [0xCE, 0xBB, 0x78, 0xFF, 0xC2, 0xA0, 0x23, 0xCE, 0x0D, 0x79, 0x20]
    0 ∉ bs ∧ (ofText (.ofBytes bs)).all = [⟨.lambda, "λ", ⟨1, 1⟩⟩, ⟨.ident, "x", ⟨1, 2⟩⟩,
        ⟨.illegal, "�", ⟨1, 3⟩⟩, ⟨.newline, "\n", ⟨1, 7⟩⟩, ⟨.ident, "y", ⟨1, 8⟩⟩, .eof ⟨1, 10⟩] ∧
      ∃ parts, Splits [] (.ofBytes bs) parts ∧ parts.map Part.token = (ofText (.ofBytes bs)).all ∧
        (parts.flatMap fun p => p.gap.bytes ++ p.source.bytes) = bs := by
  intro bs
  have hnul : 0 ∉ bs := by decide
  exact ⟨hnul, by decide +kernel, (bytes_split_exactly bs hnul).1⟩

end LazyLambda
