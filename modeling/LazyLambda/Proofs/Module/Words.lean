/-
# LazyLambda.Proofs.Module.Words — what is read depends on words, not on where they stand.

Tokens have places, and these get into what the reader complains about but not into what it reads. A
derivation can be moved to other tokens that say the same (`Module.exists_sameWords`), with the same meaning.
So texts with the same words, once their lines are joined, hold the same statements
(`Parser.readTokens_of_sameWords`).
-/
import LazyLambda.Proofs.Module.Parentheses
import LazyLambda.Proofs.Token.Comments

namespace LazyLambda

/-! ## The same words -/

/-- `SameWords ts us`: tokens that say the same, in the same order. -/
def SameWords (ts us : List Token) : Prop := ts.map Token.word = us.map Token.word

namespace SameWords

variable {t : Token} {ts ts' us us' : List Token}

theorem refl (ts : List Token) : SameWords ts ts := rfl

theorem cons {u : Token} (ht : t.word = u.word) (h : SameWords ts us) : SameWords (t :: ts) (u :: us) := by
  rw [SameWords, List.map_cons, List.map_cons, ht, h]

theorem append (h : SameWords ts us) (h' : SameWords ts' us') : SameWords (ts ++ ts') (us ++ us') := by
  rw [SameWords, List.map_append, List.map_append, h, h']

theorem of_cons (h : SameWords (t :: ts) us) :
    ∃ u us', us = u :: us' ∧ t.word = u.word ∧ SameWords ts us' := by
  obtain ⟨u, us', rfl, hu, hus⟩ := List.map_eq_cons_iff.1 h.symm
  exact ⟨u, us', rfl, hu.symm, hus.symm⟩

theorem of_append (h : SameWords (ts ++ ts') us) :
    ∃ us₁ us₂, us = us₁ ++ us₂ ∧ SameWords ts us₁ ∧ SameWords ts' us₂ := by
  rw [SameWords, List.map_append] at h
  obtain ⟨us₁, us₂, rfl, h₁, h₂⟩ := List.map_eq_append_iff.1 h.symm
  exact ⟨us₁, us₂, rfl, h₁.symm, h₂.symm⟩

theorem of_nil (h : SameWords [] us) : us = [] := List.map_eq_nil_iff.1 h.symm

end SameWords

theorem Token.kind_of_word {t u : Token} (h : t.word = u.word) : t.kind = u.kind := (Prod.mk.inj h).1

theorem Token.literal_of_word {t u : Token} (h : t.word = u.word) : t.literal = u.literal :=
  (Prod.mk.inj h).2

theorem Token.isNewline_of_word {t u : Token} (h : t.word = u.word) : t.isNewline = u.isNewline := by
  rw [isNewline, isNewline, kind_of_word h]

/-! ## Derivations elsewhere -/

namespace Grammar

/-- A leaf of the same kind, for a token that says the same. -/
theorem exists_leaf {k : Kind} (x : Leaf k) {u : Token} (h : x.val.word = u.word) :
    ∃ y : Leaf k, y.val = u ∧ y.val.literal = x.val.literal :=
  ⟨⟨u, (Token.kind_of_word h).symm.trans x.property⟩, rfl, (Token.literal_of_word h).symm⟩

mutual

/-- An atom can be moved to tokens that say the same. -/
theorem Atom.exists_sameWords : ∀ (a : Atom) {us : List Token}, SameWords a.tokens us →
    ∃ b : Atom, b.tokens = us ∧ b.expr = a.expr
  | .name x, us, h => by
      rw [Atom.tokens] at h
      obtain ⟨u, us', rfl, hu, hus⟩ := h.of_cons
      obtain rfl := hus.of_nil
      obtain ⟨y, rfl, hy⟩ := exists_leaf x hu
      refine ⟨.name y, by rw [Atom.tokens], ?_⟩
      rw [Atom.expr, Atom.expr, hy]
  | .group opening inner closing, us, h => by
      rw [Atom.tokens] at h
      obtain ⟨u, us', rfl, hu, hus⟩ := h.of_cons
      obtain ⟨us₁, us₂, rfl, hinner, hclosing⟩ := hus.of_append
      obtain ⟨v, us₃, rfl, hv, hnil⟩ := hclosing.of_cons
      obtain rfl := hnil.of_nil
      obtain ⟨opening', rfl, -⟩ := exists_leaf opening hu
      obtain ⟨closing', rfl, -⟩ := exists_leaf closing hv
      obtain ⟨inner', rfl, hexpr, -⟩ := inner.exists_sameWords hinner
      refine ⟨.group opening' inner' closing', by rw [Atom.tokens], ?_⟩
      rw [Atom.expr, Atom.expr, hexpr]

/-- An expression can be moved to tokens that say the same. -/
theorem Expression.exists_sameWords : ∀ (e : Expression) {us : List Token}, SameWords e.tokens us →
    ∃ f : Expression, f.tokens = us ∧ f.expr = e.expr ∧ ∀ g, f.onto g = e.onto g
  | .atom a, us, h => by
      rw [Expression.tokens] at h
      obtain ⟨b, rfl, hexpr⟩ := a.exists_sameWords h
      refine ⟨.atom b, by rw [Expression.tokens], ?_, fun g => ?_⟩
      · rw [Expression.expr, Expression.expr, hexpr]
      · rw [Expression.onto, Expression.onto, hexpr]
  | .lambda sign param body, us, h => by
      rw [Expression.tokens] at h
      obtain ⟨u, us', rfl, hu, hus⟩ := h.of_cons
      obtain ⟨v, us'', rfl, hv, hbody⟩ := hus.of_cons
      obtain ⟨sign', rfl, -⟩ := exists_leaf sign hu
      obtain ⟨param', rfl, hparam⟩ := exists_leaf param hv
      obtain ⟨body', rfl, hexpr, -⟩ := body.exists_sameWords hbody
      refine ⟨.lambda sign' param' body', by rw [Expression.tokens], ?_, fun g => ?_⟩
      · rw [Expression.expr, Expression.expr, hparam, hexpr]
      · rw [Expression.onto, Expression.onto, hparam, hexpr]
  | .more a e, us, h => by
      rw [Expression.tokens] at h
      obtain ⟨us₁, us₂, rfl, ha, he⟩ := h.of_append
      obtain ⟨b, rfl, hexpr⟩ := a.exists_sameWords ha
      obtain ⟨f, rfl, -, honto⟩ := e.exists_sameWords he
      refine ⟨.more b f, by rw [Expression.tokens], ?_, fun g => ?_⟩
      · rw [Expression.expr, Expression.expr, hexpr, honto]
      · rw [Expression.onto, Expression.onto, hexpr, honto]

end

theorem Sentence.exists_sameWords (s : Sentence) {us : List Token} (h : SameWords s.tokens us) :
    ∃ s' : Sentence, s'.tokens = us ∧ s'.statement = s.statement := by
  cases s with
  | define target sign body =>
      obtain ⟨u, us', rfl, hu, hus⟩ := h.of_cons
      obtain ⟨v, us'', rfl, hv, hbody⟩ := hus.of_cons
      obtain ⟨target', rfl, htarget⟩ := exists_leaf target hu
      obtain ⟨sign', rfl, -⟩ := exists_leaf sign hv
      obtain ⟨body', rfl, hexpr, -⟩ := body.exists_sameWords hbody
      refine ⟨.define target' sign' body', rfl, ?_⟩
      rw [Sentence.statement, Sentence.statement, htarget, hexpr]
  | bare body =>
      obtain ⟨body', rfl, hexpr, -⟩ := body.exists_sameWords h
      exact ⟨.bare body', rfl, congrArg Statement.bare hexpr⟩

theorem exists_blanks (ls : List (Leaf .newline)) {us : List Token} (h : SameWords (blanks ls) us) :
    ∃ ls', blanks ls' = us := by
  induction ls generalizing us with
  | nil => exact ⟨[], h.of_nil.symm⟩
  | cons l ls ih =>
      obtain ⟨u, us', rfl, hu, hus⟩ := SameWords.of_cons h
      obtain ⟨l', rfl, -⟩ := exists_leaf l hu
      obtain ⟨ls', rfl⟩ := ih hus
      exact ⟨l' :: ls', rfl⟩

theorem Continuation.exists_sameWords (c : Continuation) {us : List Token} (h : SameWords c.tokens us) :
    ∃ c' : Continuation, c'.tokens = us ∧ c'.sentence.statement = c.sentence.statement := by
  obtain ⟨u, us', rfl, hu, hus⟩ := h.of_cons
  obtain ⟨us₁, us₂, rfl, hblank, hsentence⟩ := hus.of_append
  obtain ⟨newline', rfl, -⟩ := exists_leaf c.newline hu
  obtain ⟨blank', rfl⟩ := exists_blanks c.blank hblank
  obtain ⟨sentence', rfl, hstatement⟩ := c.sentence.exists_sameWords hsentence
  exact ⟨⟨newline', blank', sentence'⟩, rfl, hstatement⟩

theorem exists_continuations (cs : List Continuation) {us : List Token}
    (h : SameWords (cs.flatMap Continuation.tokens) us) :
    ∃ cs' : List Continuation, cs'.flatMap Continuation.tokens = us ∧
      (cs'.map fun c => c.sentence.statement) = cs.map fun c => c.sentence.statement := by
  induction cs generalizing us with
  | nil => exact ⟨[], h.of_nil.symm, rfl⟩
  | cons c cs ih =>
      rw [List.flatMap_cons] at h
      obtain ⟨us₁, us₂, rfl, hc, hcs⟩ := h.of_append
      obtain ⟨c', rfl, hstatement⟩ := c.exists_sameWords hc
      obtain ⟨cs', rfl, hstatements⟩ := ih hcs
      refine ⟨c' :: cs', List.flatMap_cons, ?_⟩
      rw [List.map_cons, List.map_cons, hstatement, hstatements]

/-- **A derivation can be moved to tokens that say the same**, and then means the same. -/
theorem Module.exists_sameWords (m : Grammar.Module) {us : List Token} (h : SameWords m.tokens us) :
    ∃ m' : Grammar.Module, m'.tokens = us ∧ m'.statements = m.statements := by
  obtain ⟨us₁, us₂, rfl, hlead, h⟩ := h.of_append
  obtain ⟨us₃, us₄, rfl, hfirst, h⟩ := h.of_append
  obtain ⟨us₅, us₆, rfl, hrest, htrail⟩ := h.of_append
  obtain ⟨lead', rfl⟩ := exists_blanks m.lead hlead
  obtain ⟨first', rfl, hstatement⟩ := m.first.exists_sameWords hfirst
  obtain ⟨rest', rfl, hstatements⟩ := exists_continuations m.rest hrest
  obtain ⟨trail', rfl⟩ := exists_blanks m.trail htrail
  refine ⟨⟨lead', first', rest', trail'⟩, rfl, ?_⟩
  rw [Module.statements, Module.statements, hstatement, hstatements]

end Grammar

/-! ## Joined lines -/

namespace Parser

open Grammar

variable {t : Token} {ts us : List Token}

theorem depthAfter_of_isNewline (depth : Nat) (h : t.isNewline = true) : depthAfter depth t = depth := by
  have hk : t.kind = .newline := of_decide_eq_true h
  rw [depthAfter, hk]

theorem joined_append (depth : Nat) (ts us : List Token) :
    joined depth (ts ++ us) = joined depth ts ++ joined (openAfter depth ts) us := by
  induction ts generalizing depth with
  | nil => rfl
  | cons t ts ih =>
      show joined depth (t :: (ts ++ us)) = joined depth (t :: ts) ++ joined (openAfter (depthAfter depth t) ts) us
      rw [joined, joined]
      split
      · next h => rw [ih, depthAfter_of_isNewline depth h.2]
      · rw [ih, List.cons_append]

/-- An end of a line inside parentheses can be left out. -/
theorem joined_append_newline {depth : Nat} (hopen : 0 < openAfter depth ts) (ht : t.isNewline = true)
    (us : List Token) : joined depth (ts ++ t :: us) = joined depth (ts ++ us) := by
  rw [joined_append, joined_append, joined, if_pos ⟨hopen, ht⟩]

/-- Joining lines opens and closes no parentheses. -/
theorem openAfter_joined (depth : Nat) (ts : List Token) :
    openAfter depth (joined depth ts) = openAfter depth ts := by
  induction ts generalizing depth with
  | nil => rfl
  | cons t ts ih =>
      show _ = openAfter (depthAfter depth t) ts
      rw [joined]
      split
      · next h => rw [ih, depthAfter_of_isNewline depth h.2]
      · exact ih _

theorem balance_joined (depth : Nat) (ts : List Token) : balance (joined depth ts) = balance ts := by
  induction ts generalizing depth with
  | nil => rfl
  | cons t ts ih =>
      rw [joined, balance_cons t ts]
      split
      · next h => rw [ih, balance_of_isNewline h.2, Int.zero_add]
      · rw [balance_cons, ih]

/-- The depth is at least what the parentheses add up to. -/
theorem add_balance_le_openAfter (depth : Nat) (ts : List Token) :
    depth + balance ts ≤ openAfter depth ts := by
  induction ts generalizing depth with
  | nil => simp [balance, openAfter]
  | cons t ts ih =>
      have hstep : (depth : Int) + balance [t] ≤ depthAfter depth t := by
        cases hk : t.kind <;> simp [balance, depthAfter, hk]
        omega
      have hrest := ih (depthAfter depth t)
      show _ ≤ ((openAfter (depthAfter depth t) ts : Nat) : Int)
      rw [balance_cons]
      omega

/-- How parentheses are opened and closed can be told from the words. -/
theorem openAfter_of_sameWords (depth : Nat) (h : SameWords ts us) :
    openAfter depth ts = openAfter depth us := by
  induction ts generalizing depth us with
  | nil => rw [h.of_nil]
  | cons t ts ih =>
      obtain ⟨u, us', rfl, hu, hus⟩ := h.of_cons
      show openAfter (depthAfter depth t) ts = openAfter (depthAfter depth u) us'
      rw [ih _ hus, depthAfter, depthAfter, Token.kind_of_word hu]

theorem balance_of_sameWords (h : SameWords ts us) : balance ts = balance us := by
  induction ts generalizing us with
  | nil => rw [h.of_nil]
  | cons t ts ih =>
      obtain ⟨u, us', rfl, hu, hus⟩ := h.of_cons
      have hone : balance [t] = balance [u] := by simp [balance, Token.kind_of_word hu]
      rw [balance_cons, balance_cons u, ih hus, hone]

theorem joined_sameWords (depth : Nat) (h : SameWords ts us) :
    SameWords (joined depth ts) (joined depth us) := by
  induction ts generalizing depth us with
  | nil =>
      rw [h.of_nil]
      exact .refl _
  | cons t ts ih =>
      obtain ⟨u, us', rfl, hu, hus⟩ := h.of_cons
      rw [joined, joined, Token.isNewline_of_word hu, depthAfter, depthAfter, Token.kind_of_word hu]
      split
      · exact ih depth hus
      · exact .cons hu (ih _ hus)

/-- **Texts with the same words on joined lines hold the same statements.** -/
theorem readTokens_of_sameWords {l l' : Lexed} (h : SameWords (joined 0 l.tokens) (joined 0 l'.tokens))
    (hl : (readTokens l).faults = []) : readTokens l' = readTokens l := by
  obtain ⟨m, hm⟩ := exists_derivation_of_no_fault hl
  rw [← hm] at h
  obtain ⟨m', hm', hstatements⟩ := m.exists_sameWords h
  rw [readTokens_of_derivation hm', readTokens_of_derivation hm, hstatements]

end Parser

end LazyLambda
