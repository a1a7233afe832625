/-
# LazyLambda.Proofs.Token.Positions — tokens stand where they say.

Reading moves a position along, symbol by symbol. `Position.behind` says where one comes out without moving:
it counts the line feeds of the text in front, and the symbols behind the last of them. The two agree
(`Position.advance_start`), so that each token carries the place of its first symbol (`Splits.pos_eq`).

A token is spelled by at least one symbol, and each symbol moves the position on. Hence no two tokens of a
text share a place, and their places are in order (`Lexed.pairwise_before`).
-/
import LazyLambda.Proofs.Token.Parts

namespace LazyLambda

/-! ## Places -/

/-- The last line of a text, from behind its last line feed on. -/
def Text.lastLine (t : Text) : Text := (t.reverse.takeWhile fun s => s ≠ .char '\n').reverse

namespace Position

/-- The place right behind a text: its line is one more than the line feeds of the text, and its column one
more than the symbols behind the last line feed. -/
def behind (t : Text) : Position := ⟨1 + t.count (.char '\n'), 1 + t.lastLine.length⟩

/-- The order of places: by lines first, and within a line by columns. -/
def Before (p q : Position) : Prop := p.line < q.line ∨ p.line = q.line ∧ p.col < q.col

theorem after_behind (t : Text) (s : Symbol) : (behind t).after s = behind (t ++ [s]) := by
  by_cases hs : s = .char '\n'
  · simp [after, behind, Text.lastLine, hs, Nat.add_assoc]
  · simp [after, behind, Text.lastLine, hs, Nat.add_assoc]

theorem advance_behind (t u : Text) : (behind t).advance u = behind (t ++ u) := by
  induction u generalizing t with
  | nil => rw [List.append_nil]; rfl
  | cons s u ih =>
      show ((behind t).after s).advance u = _
      rw [after_behind, ih, List.append_assoc, List.singleton_append]

/-- **Moving along a text from its start leads right behind it.** -/
theorem advance_start (t : Text) : start.advance t = behind t := advance_behind [] t

variable {p q r : Position}

theorem Before.trans (h : p.Before q) (h' : q.Before r) : p.Before r := by
  unfold Before at *
  omega

theorem before_after (p : Position) (s : Symbol) : p.Before (p.after s) := by
  unfold Before after
  split
  · exact .inl (Nat.lt_succ_self _)
  · exact .inr ⟨rfl, Nat.lt_succ_self _⟩

/-- Every symbol moves the position on. -/
theorem before_advance (p : Position) {t : Text} (ht : t ≠ []) : p.Before (p.advance t) := by
  induction t generalizing p with
  | nil => exact (ht rfl).elim
  | cons s t ih =>
      have hfirst := p.before_after s
      cases t with
      | nil => exact hfirst
      | cons s' t => exact hfirst.trans (ih (p.after s) (List.cons_ne_nil _ _))

theorem Before.advance (h : p.Before q) (t : Text) : p.Before (q.advance t) := by
  cases t with
  | nil => exact h
  | cons s t => exact h.trans (q.before_advance (List.cons_ne_nil s t))

end Position

/-! ## Tokens in order -/

namespace Lexed

/-- What is read from a position on stands behind everything that the position is behind of. -/
theorem before_of_mem {p pos : Position} (h : p.Before pos) (t : Text) :
    ∀ tok ∈ (ofTextAt pos t).all, p.Before tok.pos := by
  fun_induction ofTextAt pos t with
  | case1 pos t hend =>
      intro tok htok
      obtain rfl := List.mem_singleton.1 htok
      exact h.advance t.gap
  | case2 pos t k piece hlex ih =>
      intro tok htok
      rcases List.mem_cons.1 htok with rfl | htok
      · exact h.advance t.gap
      · exact ih ((h.advance t.gap).advance piece) tok htok

/-- **The tokens of a text stand one behind the other**, the end of the input last. -/
theorem pairwise_before (pos : Position) (t : Text) :
    (ofTextAt pos t).all.Pairwise fun a b => a.pos.Before b.pos := by
  fun_induction ofTextAt pos t with
  | case1 pos t hend => exact List.pairwise_singleton _ _
  | case2 pos t k piece hlex ih =>
      refine List.pairwise_cons.2 ⟨?_, ih⟩
      have hpiece : piece ≠ [] := (Text.lexeme?_ne_nil hlex).1
      exact before_of_mem ((pos.advance t.gap).before_advance hpiece) _

end Lexed

/-! ## Tokens in place -/

/-- The tokens that a text is read as stand behind everything in front of them. -/
theorem Splits.pos_eq {before t : Text} {parts : List Part} (h : Splits before t parts)
    (hnul : ∀ s ∈ t, s.isNul = false) {pos : Position}
    (htokens : parts.map Part.token = (Lexed.ofTextAt pos t).all) {front back : List Part} {p : Part}
    (hparts : parts = front ++ p :: back) : p.token.pos = pos.advance (Part.texts front ++ p.gap) := by
  induction h generalizing pos front with
  | @last before q hk hfits =>
      obtain ⟨rfl, hq⟩ | ⟨front', -, hnil⟩ := List.cons_eq_append_iff.1 hparts
      · cases hq
        rw [hfits.ofTextAt_eq_end hk hnul] at htokens
        obtain ⟨htoken, -⟩ := List.cons.inj htokens
        rw [htoken]
        rfl
      · exact (List.append_ne_nil_of_right_ne_nil front' (List.cons_ne_nil p back) hnil.symm).elim
  | @next before after q ps hk hfits _ ih =>
      rw [hfits.ofTextAt_eq hk (fun s hs => hnul s (List.mem_append_left _ hs))] at htokens
      obtain ⟨htoken, hrest⟩ := List.cons.inj htokens
      obtain ⟨rfl, hq⟩ | ⟨front', rfl, hps⟩ := List.cons_eq_append_iff.1 hparts
      · cases hq
        rw [htoken]
        rfl
      · rw [ih (fun s hs => hnul s (List.mem_append_right _ hs)) hrest hps, ← Position.advance_append]
        show _ = pos.advance ((q.text ++ Part.texts front') ++ p.gap)
        rw [List.append_assoc]

/-- **Every token carries its true position.** The text up to its first NUL character splits into parts with
the tokens that are read, and each of them says how many line feeds stand in front of its first symbol, and
how many symbols in front of it on its line. Whoever goes on reading is given the last of them, the end of
the input, again and again. Up to there the places grow. -/
theorem Lexed.tokens_stand_where_they_say (t : Text) :
    (∃ parts, Splits [] t.untilNul parts ∧ parts.map Part.token = (ofText t).all ∧
      ∀ front p back, parts = front ++ p :: back →
        p.token.pos = .behind (Part.texts front ++ p.gap)) ∧
    (∀ n, (Nat.repeat goOn (n + 1) (ofText t)).all = [.eof (ofText t).stop]) ∧
    (ofText t).all.Pairwise fun a b => a.pos.Before b.pos := by
  have hnul := t.not_isNul_untilNul
  obtain ⟨parts, hsplits, htokens⟩ := exists_splits (seam_nil _) hnul .start
  refine ⟨⟨parts, hsplits, htokens.trans (all_ofText t).symm, ?_⟩, ?_, pairwise_before .start t⟩
  · intro front p back hparts
    rw [hsplits.pos_eq hnul htokens hparts, Position.advance_start]
  · intro n
    rw [repeat_goOn_ofText]
    rfl

end LazyLambda
