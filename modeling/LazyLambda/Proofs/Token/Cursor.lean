/-
# LazyLambda.Proofs.Token.Cursor — tokens one at a time.

A `Cursor` stands somewhere in a text and is asked for the next token again and again; nothing tells it to stop.
Asked so, it gives the tokens that the text is split into, and from then on the end of the input
(`Cursor.token_eq`). Each token uses up a symbol, and each symbol a byte, so the end comes after no more tokens
than there are bytes (`Cursor.ends`).
-/
import LazyLambda.Proofs.Token.EarlyEnd

namespace LazyLambda

/-- A place in a text: its position, and the text from there on. -/
structure Cursor where
  pos : Position
  ahead : Text

namespace Cursor

/-- Where reading a text begins. -/
def start (t : Text) : Cursor := ⟨.start, t⟩

/-- The next token, and the place behind it. At the end of the input the cursor stays. -/
def next (c : Cursor) : Token × Cursor :=
  let pos := c.pos.advance c.ahead.gap
  match c.ahead.afterGap.lexeme? with
  | none => (.eof pos, ⟨pos, c.ahead.afterGap⟩)
  | some (k, piece) =>
    (⟨k, Text.literal k piece, pos⟩, ⟨pos.advance piece, c.ahead.afterGap.drop piece.length⟩)

/-- The token that the cursor gives after so many others. -/
def token (c : Cursor) : Nat → Token
  | 0 => c.next.1
  | n + 1 => c.next.2.token n

/-- What a cursor has ahead of it, split at once. -/
def lexed (c : Cursor) : Lexed := .ofTextAt c.pos c.ahead

end Cursor

/-! ## How many tokens there are -/

namespace Text

theorem length_le_length_bytes (t : Text) : t.length ≤ t.bytes.length := by
  induction t with
  | nil => exact Nat.le_refl 0
  | cons s t ih =>
      have hs : 0 < s.bytes.length := by
        cases s with
        | char c => exact length_utf8EncodeChar_pos c
        | stray b => exact Nat.zero_lt_one
      have hbytes : bytes (s :: t) = s.bytes ++ bytes t := rfl
      rw [hbytes, List.length_append, List.length_cons]
      omega

/-- Where no token begins, no gap begins either. -/
theorem gap_of_end {t : Text} (h : t.lexeme? = none) : t.gap = [] := by
  cases t with
  | nil => rfl
  | cons s t =>
      obtain rfl : s = .char '\x00' := of_decide_eq_true (isNul_of_lexeme? h)
      exact gap_of_tight t (by decide) (by decide)

end Text

namespace Lexed

theorem length_tokens_le (pos : Position) (t : Text) : (ofTextAt pos t).tokens.length ≤ t.length := by
  fun_induction ofTextAt pos t with
  | case1 pos t hend => exact Nat.zero_le _
  | case2 pos t k piece hlex ih =>
      obtain ⟨hpiece, hafter⟩ := Text.lexeme?_ne_nil hlex
      have hpos := List.length_pos_iff.2 hpiece
      have hpos' := List.length_pos_iff.2 hafter
      have hle : t.afterGap.length ≤ t.length := by simp [Text.afterGap]
      rw [List.length_drop] at ih
      show (ofTextAt _ _).tokens.length + 1 ≤ _
      omega

end Lexed

/-! ## One after the other -/

namespace Cursor

variable {c : Cursor}

theorem lexed_of_lexeme {k : Kind} {piece : Text} (h : c.ahead.afterGap.lexeme? = some (k, piece)) :
    c.lexed = .cons c.next.1 c.next.2.lexed := by
  have hnext : c.next = (⟨k, Text.literal k piece, c.pos.advance c.ahead.gap⟩,
      ⟨(c.pos.advance c.ahead.gap).advance piece, c.ahead.afterGap.drop piece.length⟩) := by
    rw [next, h]
  rw [hnext, lexed, Lexed.ofTextAt_of_lexeme h]
  rfl

/-- At the end the cursor gives the end, and has the same end ahead of it as before. -/
theorem lexed_of_end (h : c.ahead.afterGap.lexeme? = none) :
    c.lexed.tokens = [] ∧ c.next.1 = .eof c.lexed.stop ∧ c.next.2.lexed = c.lexed := by
  have hlexed : c.lexed = ⟨[], c.pos.advance c.ahead.gap, c.ahead.afterGap⟩ := Lexed.ofTextAt_of_end h
  have hnext : c.next = (.eof (c.pos.advance c.ahead.gap),
      ⟨c.pos.advance c.ahead.gap, c.ahead.afterGap⟩) := by
    rw [next, h]
  have hgap : c.ahead.afterGap.gap = [] := Text.gap_of_end h
  have hafter : c.ahead.afterGap.afterGap = c.ahead.afterGap := by
    rw [Text.afterGap, hgap]
    rfl
  rw [hnext, hlexed]
  refine ⟨rfl, rfl, ?_⟩
  show Lexed.ofTextAt _ c.ahead.afterGap = _
  rw [Lexed.ofTextAt_of_end (hafter.symm ▸ h), hgap, hafter]
  rfl

/-- **The cursor gives the tokens of the text, and then the end for ever.** -/
theorem token_eq (c : Cursor) (n : Nat) : c.token n = c.lexed.tokens[n]?.getD (.eof c.lexed.stop) := by
  induction n generalizing c with
  | zero =>
      cases h : c.ahead.afterGap.lexeme? with
      | none =>
          obtain ⟨htokens, hfirst, -⟩ := lexed_of_end h
          rw [htokens]
          exact hfirst
      | some lexeme => rw [lexed_of_lexeme h]; rfl
  | succ n ih =>
      have hnext : c.token (n + 1) = c.next.2.token n := rfl
      rw [hnext, ih]
      cases h : c.ahead.afterGap.lexeme? with
      | none =>
          obtain ⟨htokens, -, hstays⟩ := lexed_of_end h
          rw [hstays, htokens]
          rfl
      | some lexeme => rw [lexed_of_lexeme h]; rfl

/-- **The end comes within the length of the text, and stays.** In front of it the cursor gives exactly what
the text is split into. -/
theorem ends (bs : List UInt8) :
    let c := start (.ofBytes bs)
    ∃ n ≤ bs.length, (∀ i, (c.token i).kind = .eof ↔ n ≤ i) ∧ c.lexed.tokens = (List.range n).map c.token := by
  intro c
  have hkinds : ∀ tok ∈ c.lexed.tokens, tok.kind ≠ .eof := Lexed.kind_ne_eof
  refine ⟨c.lexed.tokens.length, ?_, fun i => ?_, ?_⟩
  · calc c.lexed.tokens.length
      _ ≤ (Text.ofBytes bs).length := Lexed.length_tokens_le _ _
      _ ≤ (Text.ofBytes bs).bytes.length := Text.length_le_length_bytes _
      _ = bs.length := by rw [Text.bytes_ofBytes]
  · rw [token_eq]
    by_cases hi : i < c.lexed.tokens.length
    · rw [List.getElem?_eq_getElem hi, Option.getD_some]
      have hne := hkinds _ (List.getElem_mem hi)
      simp only [hne, false_iff]
      omega
    · have hle := Nat.le_of_not_lt hi
      rw [List.getElem?_eq_none hle, Option.getD_none]
      exact ⟨fun _ => hle, fun _ => rfl⟩
  · refine List.ext_getElem (by simp) fun i hi _ => ?_
    rw [List.getElem_map, List.getElem_range, token_eq, List.getElem?_eq_getElem hi,
      Option.getD_some]

end Cursor

end LazyLambda
