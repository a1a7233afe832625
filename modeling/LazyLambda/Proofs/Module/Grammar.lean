/-
# LazyLambda.Proofs.Module.Grammar — the grammar of modules, and that it is unambiguous.

    module     = { newline } statement { newline { newline } statement } { newline }
    statement  = name "=" expr | expr
    expr       = { atom } ( atom | lambda )
    atom       = name | "(" expr ")"
    lambda     = ( "\" | "λ" ) name expr

A derivation is a tree with the tokens at its leaves, each of the kind that the rule asks for. Reading
the leaves off from left to right gives the tokens that it derives (`tokens`), and leaving out the
parentheses and the ends of lines gives what it means (`expr`, `statement`, `statements`). Tokens are
derived by one tree at most (`Module.tokens_injective`).

The grammar knows nothing of lines that end inside parentheses; `joined` takes these ends away.
-/
import LazyLambda.Module.Basic
import LazyLambda.Token.Basic

namespace LazyLambda.Grammar

/-! ## Derivations -/

/-- A token of a kind. -/
abbrev Leaf (k : Kind) := { t : Token // t.kind = k }

mutual

/-- An operand that can stand anywhere: a name, or an expression in parentheses. -/
inductive Atom where
  | name (x : Leaf .ident)
  | group (opening : Leaf .lparen) (inner : Expression) (closing : Leaf .rparen)

/-- Operands in a row, of which only the last may be a function. -/
inductive Expression where
  | atom (a : Atom)
  | lambda (sign : Leaf .lambda) (param : Leaf .ident) (body : Expression)
  /-- One more operand in front. -/
  | more (a : Atom) (rest : Expression)

end

/-- A statement. -/
inductive Sentence where
  | define (target : Leaf .ident) (sign : Leaf .assign) (body : Expression)
  | bare (body : Expression)

/-- A statement after others, on a line of its own. -/
structure Continuation where
  newline : Leaf .newline
  blank : List (Leaf .newline)
  sentence : Sentence

/-- A module: statements on different lines, with empty lines anywhere between and around them. -/
structure Module where
  lead : List (Leaf .newline)
  first : Sentence
  rest : List Continuation
  trail : List (Leaf .newline)

/-! ## Tokens -/

mutual

/-- The tokens of an atom. -/
def Atom.tokens : Atom → List Token
  | .name x => [x.val]
  | .group opening inner closing => opening.val :: (inner.tokens ++ [closing.val])

/-- The tokens of an expression. -/
def Expression.tokens : Expression → List Token
  | .atom a => a.tokens
  | .lambda sign param body => sign.val :: param.val :: body.tokens
  | .more a rest => a.tokens ++ rest.tokens

end

/-- The tokens of a statement. -/
def Sentence.tokens : Sentence → List Token
  | .define target sign body => target.val :: sign.val :: body.tokens
  | .bare body => body.tokens

/-- The tokens of some ends of lines. -/
def blanks (ls : List (Leaf .newline)) : List Token := ls.map Subtype.val

/-- The tokens of a further statement, from the end of the line before it on. -/
def Continuation.tokens (c : Continuation) : List Token :=
  c.newline.val :: (blanks c.blank ++ c.sentence.tokens)

/-- The tokens of a module. -/
def Module.tokens (m : Module) : List Token :=
  blanks m.lead ++ (m.first.tokens ++ (m.rest.flatMap Continuation.tokens ++ blanks m.trail))

/-! ## Meaning -/

mutual

/-- What an atom means. Parentheses leave nothing behind. -/
def Atom.expr : Atom → Expr
  | .name x => .name x.val.literal
  | .group _ inner _ => inner.expr

/-- What an expression means. -/
def Expression.expr : Expression → Expr
  | .atom a => a.expr
  | .lambda _ param body => .lambda param.val.literal body.expr
  | .more a rest => rest.onto a.expr

/-- What an expression means behind an operand: application associates to the left. -/
def Expression.onto (f : Expr) : Expression → Expr
  | .atom a => .apply f a.expr
  | .lambda _ param body => .apply f (.lambda param.val.literal body.expr)
  | .more a rest => rest.onto (.apply f a.expr)

end

/-- What a statement means. -/
def Sentence.statement : Sentence → Statement
  | .define target _ body => .define target.val.literal body.expr
  | .bare body => .bare body.expr

/-- What a module means: its statements, in order. -/
def Module.statements (m : Module) : List Statement :=
  m.first.statement :: m.rest.map fun c => c.sentence.statement

/-! ## Lines that end inside parentheses -/

/-- How many parentheses are open after a token. -/
def depthAfter (depth : Nat) (t : Token) : Nat :=
  match t.kind with
  | .lparen => depth + 1
  | .rparen => depth - 1
  | _ => depth

/-- The tokens without the ends of lines that lie inside parentheses, of which so many are open in
front. -/
def joined : Nat → List Token → List Token
  | _, [] => []
  | depth, t :: ts =>
    if 0 < depth ∧ t.isNewline then joined depth ts else t :: joined (depthAfter depth t) ts

/-- Kinds of tokens that expressions are made of. -/
def kindInExpression : Kind → Bool
  | .ident | .lambda | .lparen | .rparen => true
  | _ => false

theorem inExpression_leaf {k : Kind} (x : Leaf k) (hk : kindInExpression k = true) :
    kindInExpression x.val.kind = true := by
  rw [x.property, hk]

mutual

theorem Atom.kinds : ∀ (a : Atom), ∀ t ∈ a.tokens, kindInExpression t.kind = true
  | .name x => by
      simp only [Atom.tokens, List.mem_singleton]
      rintro t rfl
      exact inExpression_leaf x rfl
  | .group opening inner closing => by
      have hi := inner.kinds
      simp only [Atom.tokens, List.mem_cons, List.mem_append, List.not_mem_nil, or_false]
      rintro t (rfl | ht | rfl)
      · exact inExpression_leaf opening rfl
      · exact hi t ht
      · exact inExpression_leaf closing rfl

/-- An expression is made of names, signs of functions and parentheses. -/
theorem Expression.kinds : ∀ (e : Expression), ∀ t ∈ e.tokens, kindInExpression t.kind = true
  | .atom a => by
      rw [Expression.tokens]
      exact a.kinds
  | .lambda sign param body => by
      have hb := body.kinds
      simp only [Expression.tokens, List.mem_cons]
      rintro t (rfl | rfl | ht)
      · exact inExpression_leaf sign rfl
      · exact inExpression_leaf param rfl
      · exact hb t ht
  | .more a e => by
      have ha := a.kinds
      have he := e.kinds
      simp only [Expression.tokens, List.mem_append]
      rintro t (ht | ht)
      · exact ha t ht
      · exact he t ht

end

/-- An expression is written on one line. -/
theorem Expression.not_isNewline (e : Expression) : ∀ t ∈ e.tokens, t.isNewline = false := by
  intro t ht
  have hkind := e.kinds t ht
  refine decide_eq_false fun hk => ?_
  rw [hk] at hkind
  cases hkind

theorem joined_of_not_isNewline (depth : Nat) {ts : List Token}
    (h : ∀ t ∈ ts, t.isNewline = false) : joined depth ts = ts := by
  induction ts generalizing depth with
  | nil => rfl
  | cons t ts ih =>
      rw [List.forall_mem_cons] at h
      rw [joined, if_neg (by simp [h.1]), ih _ h.2]

/-! ## One derivation at most -/

/-- Whether an operand can start with a token of a kind. -/
def kindOpens : Kind → Bool
  | .ident | .lambda | .lparen => true
  | _ => false

/-- Whether an operand can start with a token. -/
def opens (t : Token) : Bool := kindOpens t.kind

theorem opens_leaf {k : Kind} (x : Leaf k) : opens x.val = kindOpens k :=
  congrArg kindOpens x.property

theorem not_isNewline_of_opens {t : Token} (h : opens t = true) : t.isNewline = false := by
  cases hk : t.kind <;> simp_all [opens, kindOpens, Token.isNewline]

/-- Tokens that no operand starts with, so that an expression in front of them is at its end. -/
def Closing (ts : List Token) : Prop := ∀ t ∈ ts.head?, opens t = false

theorem closing_nil : Closing [] := by
  intro t ht
  cases ht

theorem closing_cons {t : Token} (h : opens t = false) (ts : List Token) : Closing (t :: ts) := by
  intro u hu
  obtain rfl : t = u := by simpa using hu
  exact h

theorem not_closing_cons {t : Token} (h : opens t = true) (ts : List Token) :
    ¬ Closing (t :: ts) := by
  intro hc
  have hf : opens t = false := hc t rfl
  rw [h] at hf
  cases hf

/-- Leaves of different kinds hold different tokens. -/
theorem Leaf.val_ne {k k' : Kind} (h : k ≠ k') (x : Leaf k) (y : Leaf k') : x.val ≠ y.val := by
  intro e
  exact h (x.property.symm.trans ((congrArg Token.kind e).trans y.property))

/-- An atom starts an operand, and not that of a function. -/
theorem Atom.tokens_eq_cons (a : Atom) :
    ∃ t ts, a.tokens = t :: ts ∧ opens t = true ∧ t.kind ≠ .lambda := by
  cases a with
  | name x =>
      refine ⟨x.val, [], by rw [Atom.tokens], opens_leaf x, ?_⟩
      rw [x.property]
      decide
  | group opening inner closing =>
      refine ⟨opening.val, _, by rw [Atom.tokens], opens_leaf opening, ?_⟩
      rw [opening.property]
      decide

theorem Expression.tokens_eq_cons (e : Expression) :
    ∃ t ts, e.tokens = t :: ts ∧ opens t = true := by
  cases e with
  | atom a =>
      obtain ⟨t, ts, ha, ht, -⟩ := a.tokens_eq_cons
      exact ⟨t, ts, by rw [Expression.tokens, ha], ht⟩
  | lambda sign param body =>
      exact ⟨sign.val, _, by rw [Expression.tokens], opens_leaf sign⟩
  | more a rest =>
      obtain ⟨t, ts, ha, ht, -⟩ := a.tokens_eq_cons
      exact ⟨t, ts ++ rest.tokens, by rw [Expression.tokens, ha, List.cons_append], ht⟩

theorem Expression.not_closing_append (e : Expression) (ts : List Token) :
    ¬ Closing (e.tokens ++ ts) := by
  obtain ⟨t, us, he, ht⟩ := e.tokens_eq_cons
  rw [he]
  exact not_closing_cons ht _

theorem Atom.append_ne_lambda (a : Atom) (sign : Leaf .lambda) (ts us : List Token) :
    a.tokens ++ ts ≠ sign.val :: us := by
  obtain ⟨t, vs, ha, -, hk⟩ := a.tokens_eq_cons
  intro e
  rw [ha] at e
  injection e with e _
  exact hk (e ▸ sign.property)

mutual

/-- An atom is told by the tokens that start with it, whatever follows. -/
theorem Atom.tokens_append_inj {ts us : List Token} : ∀ {a b : Atom},
    a.tokens ++ ts = b.tokens ++ us → a = b ∧ ts = us
  | .name x, .name y, h => by
      simp only [Atom.tokens, List.cons_append, List.nil_append, List.cons.injEq] at h
      exact ⟨congrArg Atom.name (Subtype.ext h.1), h.2⟩
  | .name x, .group opening inner closing, h => by
      simp only [Atom.tokens, List.cons_append, List.nil_append, List.cons.injEq] at h
      exact (Leaf.val_ne (by decide) x opening h.1).elim
  | .group opening inner closing, .name x, h => by
      simp only [Atom.tokens, List.cons_append, List.nil_append, List.cons.injEq] at h
      exact (Leaf.val_ne (by decide) opening x h.1).elim
  | .group o e c, .group o' e' c', h => by
      simp only [Atom.tokens, List.cons_append, List.append_assoc, List.nil_append,
        List.cons.injEq] at h
      obtain ⟨ho, h⟩ := h
      obtain ⟨he, h⟩ := Expression.tokens_append_inj h (closing_cons (opens_leaf c) ts)
        (closing_cons (opens_leaf c') us)
      injection h with hc hts
      rw [Subtype.ext ho, he, Subtype.ext hc]
      exact ⟨rfl, hts⟩

/-- An expression is told by the tokens that start with it and go on with no operand. -/
theorem Expression.tokens_append_inj {ts us : List Token} : ∀ {e f : Expression},
    e.tokens ++ ts = f.tokens ++ us → Closing ts → Closing us → e = f ∧ ts = us
  | .atom a, .atom b, h, _, _ => by
      simp only [Expression.tokens] at h
      obtain ⟨hab, hts⟩ := Atom.tokens_append_inj h
      exact ⟨congrArg Expression.atom hab, hts⟩
  | .atom a, .lambda sign param body, h, _, _ => by
      simp only [Expression.tokens, List.cons_append] at h
      exact (a.append_ne_lambda sign _ _ h).elim
  | .atom a, .more b f, h, hts, _ => by
      simp only [Expression.tokens, List.append_assoc] at h
      obtain ⟨_, rfl⟩ := Atom.tokens_append_inj h
      exact (f.not_closing_append us hts).elim
  | .lambda sign param body, .atom a, h, _, _ => by
      simp only [Expression.tokens, List.cons_append] at h
      exact (a.append_ne_lambda sign _ _ h.symm).elim
  | .lambda s p e, .lambda s' p' f, h, hts, hus => by
      simp only [Expression.tokens, List.cons_append, List.cons.injEq] at h
      obtain ⟨hs, hp, h⟩ := h
      obtain ⟨he, h⟩ := Expression.tokens_append_inj h hts hus
      rw [Subtype.ext hs, Subtype.ext hp, he]
      exact ⟨rfl, h⟩
  | .lambda sign param body, .more a f, h, _, _ => by
      simp only [Expression.tokens, List.cons_append, List.append_assoc] at h
      exact (a.append_ne_lambda sign _ _ h.symm).elim
  | .more a e, .atom b, h, _, hus => by
      simp only [Expression.tokens, List.append_assoc] at h
      obtain ⟨_, rfl⟩ := Atom.tokens_append_inj h
      exact (e.not_closing_append ts hus).elim
  | .more a e, .lambda sign param body, h, _, _ => by
      simp only [Expression.tokens, List.cons_append, List.append_assoc] at h
      exact (a.append_ne_lambda sign _ _ h).elim
  | .more a e, .more b f, h, hts, hus => by
      simp only [Expression.tokens, List.append_assoc] at h
      obtain ⟨rfl, hrest⟩ := Atom.tokens_append_inj h
      obtain ⟨rfl, hts'⟩ := Expression.tokens_append_inj hrest hts hus
      exact ⟨rfl, hts'⟩

end

/-- Tokens that are at the end of a line, or of all. -/
def LineEnd (ts : List Token) : Prop := ∀ t ∈ ts.head?, t.isNewline = true

theorem LineEnd.closing {ts : List Token} (h : LineEnd ts) : Closing ts := by
  intro t ht
  have hn : t.isNewline = true := h t ht
  cases ho : opens t with
  | false => rfl
  | true =>
      rw [not_isNewline_of_opens ho] at hn
      cases hn

theorem Sentence.tokens_eq_cons (s : Sentence) :
    ∃ t ts, s.tokens = t :: ts ∧ t.isNewline = false := by
  cases s with
  | define target sign body =>
      exact ⟨target.val, _, rfl, not_isNewline_of_opens (opens_leaf target)⟩
  | bare body =>
      obtain ⟨t, ts, hb, ht⟩ := body.tokens_eq_cons
      exact ⟨t, ts, hb, not_isNewline_of_opens ht⟩

/-- Behind the name in a definition an expression would be at its end, but not its line. -/
theorem Expression.append_ne_define {e : Expression} {ts us : List Token} (hus : LineEnd us)
    (target : Leaf .ident) (sign : Leaf .assign) :
    target.val :: sign.val :: ts ≠ e.tokens ++ us := by
  intro h
  have h' : (Expression.atom (.name target)).tokens ++ (sign.val :: ts) = e.tokens ++ us := by
    simpa [Expression.tokens, Atom.tokens] using h
  obtain ⟨-, rfl⟩ := Expression.tokens_append_inj h' (closing_cons (opens_leaf sign) _) hus.closing
  have hn : sign.val.isNewline = true := hus sign.val rfl
  simp [Token.isNewline, sign.property] at hn

/-- A statement is told by the tokens that start with it and go on with the end of its line. -/
theorem Sentence.tokens_append_inj {s s' : Sentence} {ts us : List Token}
    (h : s.tokens ++ ts = s'.tokens ++ us) (hts : LineEnd ts) (hus : LineEnd us) :
    s = s' ∧ ts = us := by
  match s, s' with
  | .define target sign e, .define target' sign' e' =>
      simp only [Sentence.tokens, List.cons_append, List.cons.injEq] at h
      obtain ⟨ht, hs, h⟩ := h
      obtain ⟨rfl, h'⟩ := Expression.tokens_append_inj h hts.closing hus.closing
      rw [Subtype.ext ht, Subtype.ext hs]
      exact ⟨rfl, h'⟩
  | .define target sign e, .bare f => exact (Expression.append_ne_define hus target sign h).elim
  | .bare e, .define target sign f =>
      exact (Expression.append_ne_define hts target sign h.symm).elim
  | .bare e, .bare f =>
      obtain ⟨rfl, h'⟩ := Expression.tokens_append_inj h hts.closing hus.closing
      exact ⟨rfl, h'⟩

/-- Empty lines are told from what follows them on a line. -/
theorem blanks_append_inj {ls ls' : List (Leaf .newline)} {ts us : List Token}
    (h : blanks ls ++ ts = blanks ls' ++ us) (hts : ∀ t ∈ ts.head?, t.isNewline = false)
    (hus : ∀ t ∈ us.head?, t.isNewline = false) : ls = ls' ∧ ts = us := by
  have hnl (l : Leaf .newline) (vs : List Token) :
      ¬ ∀ t ∈ (l.val :: vs).head?, t.isNewline = false := by
    intro hf
    simpa [Token.isNewline, l.property] using hf l.val rfl
  induction ls generalizing ls' with
  | nil =>
      cases ls' with
      | nil => exact ⟨rfl, h⟩
      | cons l ls' =>
          obtain rfl : ts = l.val :: (blanks ls' ++ us) := h
          exact (hnl l _ hts).elim
  | cons l ls ih =>
      cases ls' with
      | nil =>
          obtain rfl : l.val :: (blanks ls ++ ts) = us := h
          exact (hnl l _ hus).elim
      | cons l' ls' =>
          injection h with hl h
          obtain ⟨rfl, h'⟩ := ih h
          rw [Subtype.ext hl]
          exact ⟨rfl, h'⟩

theorem Sentence.head_append (s : Sentence) (ts : List Token) :
    ∀ t ∈ (s.tokens ++ ts).head?, t.isNewline = false := by
  obtain ⟨u, us, hs, hu⟩ := s.tokens_eq_cons
  rw [hs]
  intro t ht
  obtain rfl : u = t := by simpa using ht
  exact hu

/-- What follows a statement of a module is the end of its line. -/
theorem lineEnd_rest (cs : List Continuation) (trail : List (Leaf .newline)) :
    LineEnd (cs.flatMap Continuation.tokens ++ blanks trail) := by
  have hleaf (l : Leaf .newline) (ts : List Token) : LineEnd (l.val :: ts) := by
    intro t ht
    obtain rfl : l.val = t := by simpa using ht
    simp [Token.isNewline, l.property]
  cases cs with
  | nil =>
      cases trail with
      | nil =>
          intro t ht
          cases ht
      | cons l ls => exact hleaf l _
  | cons c cs => exact hleaf c.newline _

theorem rest_tokens_cons (c : Continuation) (cs : List Continuation)
    (trail : List (Leaf .newline)) :
    (c :: cs).flatMap Continuation.tokens ++ blanks trail = blanks (c.newline :: c.blank) ++
      (c.sentence.tokens ++ (cs.flatMap Continuation.tokens ++ blanks trail)) := by
  simp [Continuation.tokens, blanks]

theorem head_nil : ∀ t ∈ ([] : List Token).head?, t.isNewline = false := by
  simp

/-- Empty lines hold no statement. -/
theorem blanks_ne_rest (c : Continuation) (cs : List Continuation)
    (trail trail' : List (Leaf .newline)) :
    blanks trail ≠ (c :: cs).flatMap Continuation.tokens ++ blanks trail' := by
  intro h
  rw [rest_tokens_cons, ← List.append_nil (blanks trail)] at h
  obtain ⟨-, h⟩ := blanks_append_inj h head_nil (c.sentence.head_append _)
  obtain ⟨t, ts, hs, -⟩ := c.sentence.tokens_eq_cons
  rw [hs] at h
  cases h

theorem rest_tokens_inj {cs cs' : List Continuation} {trail trail' : List (Leaf .newline)}
    (h : cs.flatMap Continuation.tokens ++ blanks trail =
      cs'.flatMap Continuation.tokens ++ blanks trail') : cs = cs' ∧ trail = trail' := by
  induction cs generalizing cs' with
  | nil =>
      cases cs' with
      | nil =>
          have h' : blanks trail ++ [] = blanks trail' ++ [] := by simpa using h
          exact ⟨rfl, (blanks_append_inj h' head_nil head_nil).1⟩
      | cons c' cs' => exact (blanks_ne_rest c' cs' trail trail' h).elim
  | cons c cs ih =>
      cases cs' with
      | nil => exact (blanks_ne_rest c cs trail' trail h.symm).elim
      | cons c' cs' =>
          rw [rest_tokens_cons, rest_tokens_cons] at h
          obtain ⟨hb, h⟩ := blanks_append_inj h (c.sentence.head_append _)
            (c'.sentence.head_append _)
          obtain ⟨hs, h⟩ := Sentence.tokens_append_inj h (lineEnd_rest cs trail)
            (lineEnd_rest cs' trail')
          obtain ⟨rfl, ht⟩ := ih h
          injection hb with hn hb
          cases c
          cases c'
          simp_all

/-- **The grammar is unambiguous.** -/
theorem Module.tokens_injective {m m' : Module} (h : m.tokens = m'.tokens) : m = m' := by
  obtain ⟨hlead, h⟩ := blanks_append_inj h (m.first.head_append _) (m'.first.head_append _)
  obtain ⟨hfirst, h⟩ := Sentence.tokens_append_inj h (lineEnd_rest m.rest m.trail)
    (lineEnd_rest m'.rest m'.trail)
  obtain ⟨hrest, htrail⟩ := rest_tokens_inj h
  cases m
  cases m'
  simp_all

end LazyLambda.Grammar
