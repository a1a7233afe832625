/-
# LazyLambda.Proofs.Token.Lexing — how written words come apart into tokens.

`Lexes s pos ts` says that a piece of text at a position gives the tokens `ts`, whatever comes behind
it. Only a name could run on into what follows, so what follows must not go on with a character of
names (`Apart`). Blanks, signs and names each come to what one expects, and pieces come to their tokens
one after the other (`Lexes.append`).
-/
import LazyLambda.Token.Lexed

namespace LazyLambda

/-! ## Names -/

/-- A name that can be written: letters, digits and `_`, at least one of them, and no `λ`. -/
def IsName (x : String) : Prop :=
  x ≠ "" ∧ ∀ c ∈ x.toList, c ≠ 'λ' ∧ (Text.isLetter c = true ∨ Text.isDigit c = true ∨ c = '_')

namespace Symbol

theorem isNameChar_char (c : Char) : (Symbol.char c).isNameChar = true ↔
    c ≠ 'λ' ∧ (Text.isLetter c = true ∨ Text.isDigit c = true ∨ c = '_') := by
  simp [isNameChar, or_assoc]

theorem ne_of_isNameChar {s s' : Symbol} (h : s.isNameChar = true) (h' : s'.isNameChar = false) :
    s ≠ s' := by
  rintro rfl
  rw [h] at h'
  cases h'

theorem not_isBlank_of_isNameChar {s : Symbol} (h : s.isNameChar = true) : s.isBlank = false := by
  simp only [isBlank, Bool.or_eq_false_iff, decide_eq_false_iff_not]
  refine ⟨⟨⟨?_, ?_⟩, ?_⟩, ?_⟩ <;> exact ne_of_isNameChar h (by decide)

theorem not_isNul_of_isNameChar {s : Symbol} (h : s.isNameChar = true) : s.isNul = false := by
  simp only [isNul, decide_eq_false_iff_not]
  exact ne_of_isNameChar h (by decide)

theorem not_isLineEnd_of_isNameChar {s : Symbol} (h : s.isNameChar = true) :
    s.isLineEnd = false := by
  simp only [isLineEnd, Bool.or_eq_false_iff, decide_eq_false_iff_not]
  refine ⟨⟨⟨?_, ?_⟩, ?_⟩, ?_⟩ <;> exact ne_of_isNameChar h (by decide)

theorem operator?_of_isNameChar {s : Symbol} (h : s.isNameChar = true) : s.operator? = none := by
  unfold operator?
  split
  case h_6 => rfl
  all_goals exact absurd h (by decide)

/-- A sign is none of the characters that are looked for before signs are. -/
theorem of_operator? {s : Symbol} {k : Kind} (h : s.operator? = some k) :
    s.isBlank = false ∧ s ≠ .char '#' ∧ s.isNul = false ∧ s.isLineEnd = false ∧ k ≠ .newline := by
  unfold operator? at h
  split at h
  case h_6 => cases h
  all_goals
    cases h
    decide

end Symbol

namespace Text

theorem ofString_append (s s' : String) : ofString (s ++ s') = ofString s ++ ofString s' := by
  simp [ofString]

theorem toString_ofString (s : String) : (ofString s).toString = s := by
  have hr : Symbol.reading ∘ Symbol.char = id := rfl
  simp [toString, ofString, hr]

theorem isName_iff (x : String) :
    IsName x ↔ x ≠ "" ∧ (ofString x).all Symbol.isNameChar = true := by
  simp only [IsName, ofString, List.all_eq_true, List.forall_mem_map, Symbol.isNameChar_char]

instance (x : String) : Decidable (IsName x) :=
  decidable_of_decidable_of_iff (isName_iff x).symm

theorem isNameChar_of_mem {x : String} (h : IsName x) : ∀ s ∈ ofString x, s.isNameChar = true :=
  List.all_eq_true.1 ((isName_iff x).1 h).2

theorem exists_cons_of_isName {x : String} (h : IsName x) : ∃ s r, ofString x = s :: r := by
  cases hx : ofString x with
  | nil => exact (h.1 (by simpa [ofString] using hx)).elim
  | cons s r => exact ⟨s, r, rfl⟩

/-! ## Gaps and lexemes -/

/-- A text that goes on with no character of names, so that a name in front of it is at its end. -/
def Apart (t : Text) : Prop := ∀ s ∈ t.head?, s.isNameChar = false

theorem apart_nil : Apart [] := by
  intro s hs
  cases hs

theorem apart_cons {s : Symbol} (h : s.isNameChar = false) (t : Text) : Apart (s :: t) := by
  intro s' hs
  obtain rfl : s = s' := by simpa using hs
  exact h

theorem Apart.append {t u : Text} (ht : Apart t) (hu : Apart u) : Apart (t ++ u) := by
  cases t with
  | nil => exact hu
  | cons s t => exact apart_cons (ht s rfl) _

theorem comment_of_ne {s : Symbol} (t : Text) (hc : s ≠ .char '#') : comment (s :: t) = [] := by
  unfold comment
  split
  · next h =>
    injection h with h _
    exact (hc h).elim
  · rfl

theorem gap_of_tight {s : Symbol} (t : Text) (hb : s.isBlank = false) (hc : s ≠ .char '#') :
    gap (s :: t) = [] := by
  simp [gap, hb, comment_of_ne t hc]

theorem afterGap_of_gap {t : Text} (h : t.gap = []) : t.afterGap = t := by
  rw [afterGap, h]
  rfl

theorem afterGap_of_tight {s : Symbol} (t : Text) (hb : s.isBlank = false) (hc : s ≠ .char '#') :
    afterGap (s :: t) = s :: t :=
  afterGap_of_gap (gap_of_tight t hb hc)

theorem afterGap_cons_blank {s : Symbol} (t : Text) (hb : s.isBlank = true) :
    afterGap (s :: t) = afterGap t := by
  simp [afterGap, gap, hb]

theorem gap_cons_blank {s : Symbol} (t : Text) (hb : s.isBlank = true) :
    gap (s :: t) = s :: gap t := by
  simp [gap, hb]

/-- What follows a name is what it is spelled apart from. -/
theorem lexeme?_name {x : String} (h : IsName x) {rest : Text} (hr : Apart rest) :
    lexeme? (ofString x ++ rest) = some (.ident, ofString x) := by
  have htake : (ofString x ++ rest).takeWhile Symbol.isNameChar = ofString x := by
    rw [List.takeWhile_append_of_pos (isNameChar_of_mem h)]
    cases rest with
    | nil => simp
    | cons s r => simp [hr s rfl]
  obtain ⟨s, r, hx⟩ := exists_cons_of_isName h
  have hs : s.isNameChar = true := isNameChar_of_mem h s (by simp [hx])
  rw [hx, List.cons_append] at htake ⊢
  simp [lexeme?, Symbol.not_isNul_of_isNameChar hs, Symbol.not_isLineEnd_of_isNameChar hs,
    Symbol.operator?_of_isNameChar hs, hs, htake]

end Text

/-! ## Tokens -/

namespace Lexed

open Text (Apart apart_nil apart_cons)

theorem ofTextAt_of_lexeme {pos : Position} {t piece : Text} {k : Kind}
    (h : t.afterGap.lexeme? = some (k, piece)) :
    ofTextAt pos t = cons ⟨k, Text.literal k piece, pos.advance t.gap⟩
      (ofTextAt ((pos.advance t.gap).advance piece) (t.afterGap.drop piece.length)) := by
  rw [ofTextAt]
  split
  · next hn =>
    rw [h] at hn
    cases hn
  · next hs =>
    rw [h] at hs
    cases hs
    rfl

theorem ofTextAt_of_end {pos : Position} {t : Text} (h : t.afterGap.lexeme? = none) :
    ofTextAt pos t = ⟨[], pos.advance t.gap, t.afterGap⟩ := by
  rw [ofTextAt]
  split
  · rfl
  · next hs =>
    rw [h] at hs
    cases hs

theorem tokens_ofTextAt_nil (pos : Position) : (ofTextAt pos []).tokens = [] := by
  rw [ofTextAt_of_end rfl]

theorem ofTextAt_cons_blank {b : Symbol} (hb : b.isBlank = true) (pos : Position) (t : Text) :
    ofTextAt pos (b :: t) = ofTextAt (pos.after b) t := by
  have hafter : Text.afterGap (b :: t) = t.afterGap := Text.afterGap_cons_blank t hb
  have hpos : pos.advance (Text.gap (b :: t)) = (pos.after b).advance t.gap := by
    rw [Text.gap_cons_blank t hb]
    rfl
  cases h : t.afterGap.lexeme? with
  | none => rw [ofTextAt_of_end (hafter ▸ h), ofTextAt_of_end h, hafter, hpos]
  | some p => rw [ofTextAt_of_lexeme (hafter ▸ h), ofTextAt_of_lexeme h, hafter, hpos]

/-- `Lexes s pos ts`: the piece `s` at a position gives the tokens `ts`, whatever follows. -/
def Lexes (s : Text) (pos : Position) (ts : List Token) : Prop :=
  ∀ rest, Apart rest →
    (ofTextAt pos (s ++ rest)).tokens = ts ++ (ofTextAt (pos.advance s) rest).tokens

theorem Lexes.tokens_ofTextAt {s : Text} {pos : Position} {ts : List Token} (h : Lexes s pos ts) :
    (ofTextAt pos s).tokens = ts := by
  have hnil := h [] apart_nil
  rwa [List.append_nil, tokens_ofTextAt_nil, List.append_nil] at hnil

theorem lexes_nil (pos : Position) : Lexes [] pos [] := by
  intro rest _
  rfl

theorem Lexes.append {s s' : Text} {pos : Position} {ts ts' : List Token} (h : Lexes s pos ts)
    (h' : Lexes s' (pos.advance s) ts') (ha : Apart s') : Lexes (s ++ s') pos (ts ++ ts') := by
  intro rest hr
  rw [List.append_assoc, h _ (ha.append hr), h' rest hr, List.append_assoc]
  simp [Position.advance]

/-- A text without a gap in front begins with a token at its very position. -/
theorem tokens_ofTextAt_tight {pos : Position} {s : Symbol} {t piece rest : Text} {k : Kind}
    (hb : s.isBlank = false) (hc : s ≠ .char '#') (h : Text.lexeme? (s :: t) = some (k, piece))
    (hrest : s :: t = piece ++ rest) :
    (ofTextAt pos (s :: t)).tokens =
      ⟨k, Text.literal k piece, pos⟩ :: (ofTextAt (pos.advance piece) rest).tokens := by
  have hafter : Text.afterGap (s :: t) = s :: t := Text.afterGap_of_tight t hb hc
  rw [ofTextAt_of_lexeme (hafter.symm ▸ h), hafter, Text.gap_of_tight t hb hc, hrest,
    List.drop_left]
  rfl

theorem lexes_name {x : String} (h : IsName x) (pos : Position) :
    Lexes (Text.ofString x) pos [⟨.ident, x, pos⟩] := by
  intro rest hr
  have hlex : Text.lexeme? (Text.ofString x ++ rest) = some (.ident, Text.ofString x) :=
    Text.lexeme?_name h hr
  have hlit : Text.literal .ident (Text.ofString x) = x := Text.toString_ofString x
  obtain ⟨s, r, hx⟩ := Text.exists_cons_of_isName h
  have hs : s.isNameChar = true := Text.isNameChar_of_mem h s (by simp [hx])
  rw [hx, List.cons_append] at hlex ⊢
  rw [tokens_ofTextAt_tight (Symbol.not_isBlank_of_isNameChar hs)
    (Symbol.ne_of_isNameChar hs (by decide)) hlex rfl, ← hx, hlit]
  rfl

/-- A sign makes a token of its own, also right in front of a name. -/
theorem Lexes.cons_sign {c : Char} {k : Kind} {s : Text} {pos : Position} {ts : List Token}
    (hk : (Symbol.char c).operator? = some k) (h : Lexes s (pos.after (.char c)) ts) :
    Lexes (.char c :: s) pos (⟨k, String.ofList [c], pos⟩ :: ts) := by
  intro rest hr
  obtain ⟨hb, hc, hn, hl, hnl⟩ := Symbol.of_operator? hk
  have hlex : Text.lexeme? (.char c :: (s ++ rest)) = some (k, [.char c]) := by
    simp [Text.lexeme?, hn, hl, hk]
  have hlit : Text.literal k [.char c] = String.ofList [c] := by
    cases k with
    | newline => exact (hnl rfl).elim
    | _ => rfl
  rw [List.cons_append, tokens_ofTextAt_tight hb hc hlex rfl, hlit]
  exact congrArg _ (h rest hr)

/-- A blank makes no token. -/
theorem Lexes.cons_blank {b : Symbol} {s : Text} {pos : Position} {ts : List Token}
    (hb : b.isBlank = true) (h : Lexes s (pos.after b) ts) : Lexes (b :: s) pos ts := by
  intro rest hr
  rw [List.cons_append, ofTextAt_cons_blank hb]
  exact h rest hr

end Lexed

end LazyLambda
