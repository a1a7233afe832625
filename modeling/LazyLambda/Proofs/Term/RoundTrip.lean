/-
# LazyLambda.Proofs.Term.RoundTrip — a term that is written and read again is the same expression.

`Term.inspect` decides on parentheses by looking for `λ` and for a blank in text that is written
already. What it has to know is whether the expression in that text ends in a function, which would
swallow an argument behind it, and whether it is more than one operand. `Spelled` keeps the two
together: a text comes apart into the tokens of a tree, which ends in a function only if there is a `λ`
in the text, and is one atom unless there is a blank in it.

The names of a term are those that it is written with; what a global stands for is not among them.
-/
import LazyLambda.Proofs.Module.Exact
import LazyLambda.Proofs.Token.Lexing
import LazyLambda.Term.Binding

namespace LazyLambda

/-! ## What a term is written as -/

/-- The names in an expression, those of parameters included. -/
def Expr.names : Expr → List String
  | .name x => [x]
  | .lambda x body => x :: body.names
  | .apply f a => f.names ++ a.names

namespace Term

/-- The expression that a term is written as: globals stay names, and passed identifiers give way to
what was passed. -/
def readback : Term → Expr
  | .lam x body => .lambda x body.readback
  | .app f a => .apply f.readback a.readback
  | .free x => .name x
  | .global x _ => .name x
  | .passed _ t => t.readback

/-- The names that a term is written with. -/
def writtenNames : Term → List String
  | .lam x body => x :: body.writtenNames
  | .app f a => f.writtenNames ++ a.writtenNames
  | .free x => [x]
  | .global x _ => [x]
  | .passed _ t => t.writtenNames

theorem names_readback (t : Term) : t.readback.names = t.writtenNames := by
  induction t with
  | lam x body ih => rw [readback, Expr.names, ih, writtenNames]
  | app f a ihf iha => rw [readback, Expr.names, ihf, iha, writtenNames]
  | free x => rfl
  | global x t _ => rfl
  | passed x t ih => exact ih

theorem readback_ofExpr (e : Expr) : (ofExpr e).readback = e := by
  induction e with
  | name x => rfl
  | lambda x body ih => rw [ofExpr, readback, ih]
  | apply f a ihf iha => rw [ofExpr, readback, ihf, iha]

/-- Looking names up changes nothing that is written. -/
theorem readback_resolve (definition? : String → Option Term) (t : Term) :
    (t.resolve definition?).readback = t.readback := by
  induction t with
  | lam x body ih => rw [resolve, readback, ih, readback]
  | app f a ihf iha => rw [resolve, readback, ihf, iha, readback]
  | free x =>
      rw [resolve]
      cases definition? x <;> rfl
  | global x t _ => rfl
  | passed x t _ => rfl

end Term

/-! ## Operands in a row -/

namespace Grammar

/-- Whether the last operand is a function, so that what follows would belong to its body. -/
def Expression.endsInFunction : Expression → Bool
  | .atom _ => false
  | .lambda .. => true
  | .more _ e => e.endsInFunction

/-- One more operand behind the others. -/
def Expression.snoc (a : Atom) : Expression → Expression
  | .atom b => .more b (.atom a)
  | .lambda sign param body => .lambda sign param (body.snoc a)
  | .more b e => .more b (e.snoc a)

namespace Expression

theorem tokens_snoc (a : Atom) (e : Expression) : (e.snoc a).tokens = e.tokens ++ a.tokens := by
  fun_induction snoc a e with
  | case1 b => simp only [tokens]
  | case2 sign param body ih => simp only [tokens, ih, List.cons_append]
  | case3 b e ih => simp only [tokens, ih, List.append_assoc]

theorem onto_snoc (a : Atom) (f : Expr) (e : Expression) (h : e.endsInFunction = false) :
    (e.snoc a).onto f = .apply (e.onto f) a.expr := by
  fun_induction snoc a e generalizing f with
  | case1 b => simp only [onto]
  | case2 sign param body _ => cases h
  | case3 b e ih => simp only [onto, ih _ h]

/-- An operand behind others is their argument, unless a function swallows it. -/
theorem expr_snoc (a : Atom) (e : Expression) (h : e.endsInFunction = false) :
    (e.snoc a).expr = .apply e.expr a.expr := by
  cases e with
  | atom b => simp only [snoc, expr, onto]
  | lambda => cases h
  | more b e => simp only [snoc, expr, onto_snoc a _ e h]

theorem endsInFunction_snoc (a : Atom) (e : Expression) (h : e.endsInFunction = false) :
    (e.snoc a).endsInFunction = false := by
  fun_induction snoc a e with
  | case1 b => rfl
  | case2 sign param body _ => cases h
  | case3 b e ih => exact ih h

end Expression

end Grammar

/-! ## Spelling -/

open Grammar (Atom Expression)
open Lexed (Lexes)
open Term (parenthesiseIf)

/-- A text that comes apart into the tokens of an expression with a meaning, and shows by a `λ` that it
ends in a function and by a blank that it is more than an atom. -/
def Spelled (s : String) (e : Expr) : Prop :=
  ∀ pos, ∃ tree : Expression, Lexes (.ofString s) pos tree.tokens ∧ tree.expr = e ∧
    (tree.endsInFunction = true → 'λ' ∈ s.toList) ∧ ((∃ a, tree = .atom a) ∨ ' ' ∈ s.toList)

/-- A text that comes apart into the tokens of an atom with a meaning. -/
def SpelledAtom (s : String) (e : Expr) : Prop :=
  ∀ pos, ∃ a : Atom, Lexes (.ofString s) pos a.tokens ∧ a.expr = e

theorem lexes_words {s s' : String} {pos : Position} {ts ts' : List Token}
    (h : Lexes (.ofString s) pos ts)
    (h' : Lexes (.ofString s') ((pos.advance (.ofString s)).after (.char ' ')) ts') :
    Lexes (.ofString (s ++ " " ++ s')) pos (ts ++ ts') := by
  rw [String.append_assoc, Text.ofString_append, Text.ofString_append]
  exact h.append (.cons_blank (by decide) h') (Text.apart_cons (by decide) _)

theorem spelled_name {x : String} (h : IsName x) : Spelled x (.name x) := by
  intro pos
  refine ⟨.atom (.name ⟨⟨.ident, x, pos⟩, rfl⟩), ?_, ?_, ?_, .inl ⟨_, rfl⟩⟩
  · simpa only [Expression.tokens, Atom.tokens] using Lexed.lexes_name h pos
  · simp only [Expression.expr, Atom.expr]
  · intro hf
    cases hf

theorem Spelled.lam {x s : String} {e : Expr} (hx : IsName x) (h : Spelled s e) :
    Spelled ("λ" ++ x ++ " " ++ s) (.lambda x e) := by
  intro pos
  obtain ⟨tree, hlex, rfl, -, -⟩ :=
    h (((pos.after (.char 'λ')).advance (.ofString x)).after (.char ' '))
  refine ⟨.lambda ⟨⟨.lambda, "λ", pos⟩, rfl⟩ ⟨⟨.ident, x, pos.after (.char 'λ')⟩, rfl⟩ tree,
    ?_, ?_, ?_, ?_⟩
  · have hwords := lexes_words (Lexed.lexes_name hx (pos.after (.char 'λ'))) hlex
    have htext : "λ" ++ x ++ " " ++ s = "λ" ++ (x ++ " " ++ s) := by simp [String.append_assoc]
    rw [htext, Text.ofString_append, Expression.tokens]
    exact hwords.cons_sign (c := 'λ') rfl
  · simp only [Expression.expr]
  · intro _
    simp
  · exact .inr (by simp)

theorem Spelled.group {s : String} {e : Expr} (h : Spelled s e) : SpelledAtom ("(" ++ s ++ ")") e := by
  intro pos
  obtain ⟨tree, hlex, rfl, -, -⟩ := h (pos.after (.char '('))
  let closing : Token := ⟨.rparen, ")", (pos.after (.char '(')).advance (.ofString s)⟩
  have hclose : Lexes (.ofString ")") ((pos.after (.char '(')).advance (.ofString s)) [closing] :=
    Lexes.cons_sign (c := ')') rfl (Lexed.lexes_nil _)
  refine ⟨.group ⟨⟨.lparen, "(", pos⟩, rfl⟩ tree ⟨closing, rfl⟩, ?_, ?_⟩
  · rw [String.append_assoc, Text.ofString_append, Text.ofString_append, Atom.tokens]
    exact (hlex.append hclose (Text.apart_cons (by decide) _)).cons_sign (c := '(') rfl
  · simp only [Atom.expr]

/-- An argument is written as an atom. -/
theorem Spelled.argument {s : String} {e : Expr} (h : Spelled s e) :
    SpelledAtom (parenthesiseIf ' ' s) e := by
  by_cases hs : ' ' ∈ s.toList
  · rw [parenthesiseIf, if_pos (by simpa using hs)]
    exact h.group
  · -- without a blank the text is an atom as it stands
    rw [parenthesiseIf, if_neg (by simpa using hs)]
    intro pos
    obtain ⟨tree, hlex, rfl, -, ⟨a, rfl⟩ | hb⟩ := h pos
    · refine ⟨a, ?_, ?_⟩
      · rwa [Expression.tokens] at hlex
      · rw [Expression.expr]
    · exact (hs hb).elim

/-- A target is written so that an argument can follow it. -/
theorem Spelled.target {s : String} {e : Expr} (h : Spelled s e) (pos : Position) :
    ∃ tree : Expression, Lexes (.ofString (parenthesiseIf 'λ' s)) pos tree.tokens ∧ tree.expr = e ∧
      tree.endsInFunction = false := by
  by_cases hs : 'λ' ∈ s.toList
  · rw [parenthesiseIf, if_pos (by simpa using hs)]
    obtain ⟨a, hlex, rfl⟩ := h.group pos
    refine ⟨.atom a, ?_, ?_, rfl⟩
    · rwa [Expression.tokens]
    · rw [Expression.expr]
  · -- without a `λ` there is no function at the end to swallow the argument
    rw [parenthesiseIf, if_neg (by simpa using hs)]
    obtain ⟨tree, hlex, rfl, hf, -⟩ := h pos
    refine ⟨tree, hlex, rfl, ?_⟩
    cases hend : tree.endsInFunction with
    | false => rfl
    | true => exact (hs (hf hend)).elim

theorem Spelled.app {s s' : String} {e e' : Expr} (h : Spelled s e) (h' : Spelled s' e') :
    Spelled (parenthesiseIf 'λ' s ++ " " ++ parenthesiseIf ' ' s') (.apply e e') := by
  intro pos
  obtain ⟨tree, hlex, rfl, hend⟩ := h.target pos
  obtain ⟨a, hlex', rfl⟩ := h'.argument
    ((pos.advance (.ofString (parenthesiseIf 'λ' s))).after (.char ' '))
  refine ⟨tree.snoc a, ?_, tree.expr_snoc a hend, ?_, .inr (by simp)⟩
  · rw [Expression.tokens_snoc]
    exact lexes_words hlex hlex'
  · intro hf
    rw [Expression.endsInFunction_snoc a tree hend] at hf
    cases hf

/-- **Every term is spelled as the expression that it stands for**, if its names can be written. -/
theorem Term.spelled_inspect (t : Term) (h : ∀ x ∈ t.writtenNames, IsName x) :
    Spelled t.inspect t.readback := by
  induction t with
  | lam x body ih =>
      rw [writtenNames, List.forall_mem_cons] at h
      exact (ih h.2).lam h.1
  | app f a ihf iha =>
      rw [writtenNames, List.forall_mem_append] at h
      exact (ihf h.1).app (iha h.2)
  | free x => exact spelled_name (h x (List.mem_singleton_self x))
  | global x t _ => exact spelled_name (h x (List.mem_singleton_self x))
  | passed x t ih => exact ih h

/-! ## Reading again -/

/-- A text that is spelled as an expression is a module of that expression alone. -/
theorem Spelled.parse_eq {s : String} {e : Expr} (h : Spelled s e) (name : String) :
    Parser.parse name (.ofString s) = .ok ⟨name, [.bare e]⟩ := by
  obtain ⟨tree, hlex, rfl, -, -⟩ := h .start
  let m : Grammar.Module := ⟨[], .bare tree, [], []⟩
  have hm : m.tokens = Grammar.joined 0 (Lexed.ofText (.ofString s)).tokens := by
    rw [Lexed.ofText, hlex.tokens_ofTextAt, Grammar.joined_of_not_isNewline 0 tree.not_isNewline]
    simp [m, Grammar.Module.tokens, Grammar.Sentence.tokens, Grammar.blanks]
  have hread : Parser.read (.ofString s) = ⟨[.bare tree.expr], []⟩ :=
    Parser.readTokens_of_derivation hm
  rw [Parser.parse, hread]
  rfl

/-- **Writing a term and reading it again loses nothing.** What is read is one bare expression, the one
that the term stands for. So every expression comes back, whether or not its names are looked up
before it is written. -/
theorem parse_inspect (name : String) :
    (∀ t : Term, (∀ x ∈ t.writtenNames, IsName x) →
      Parser.parse name (.ofString t.inspect) = .ok ⟨name, [.bare t.readback]⟩) ∧
    ∀ e : Expr, (∀ x ∈ e.names, IsName x) →
      Parser.parse name (.ofString (Term.ofExpr e).inspect) = .ok ⟨name, [.bare e]⟩ ∧
      ∀ definition? : String → Option Term,
        Parser.parse name (.ofString ((Term.ofExpr e).resolve definition?).inspect) =
          .ok ⟨name, [.bare e]⟩ := by
  have hterm (t : Term) (ht : ∀ x ∈ t.readback.names, IsName x) :
      Parser.parse name (.ofString t.inspect) = .ok ⟨name, [.bare t.readback]⟩ := by
    rw [t.names_readback] at ht
    exact (t.spelled_inspect ht).parse_eq name
  refine ⟨fun t ht => hterm t (by rwa [t.names_readback]), fun e he => ⟨?_, fun definition? => ?_⟩⟩
  · have hback : (Term.ofExpr e).readback = e := Term.readback_ofExpr e
    have hparse := hterm (Term.ofExpr e) (by rwa [hback])
    rwa [hback] at hparse
  · have hback : ((Term.ofExpr e).resolve definition?).readback = e := by
      rw [Term.readback_resolve, Term.readback_ofExpr]
    have hparse := hterm ((Term.ofExpr e).resolve definition?) (by rwa [hback])
    rwa [hback] at hparse

/-- A function that was passed stands in parentheses where it is called, and what the global stands for
is neither written nor looked at. -/
theorem parse_inspect_passed_function :
    let t : Term := .app (.passed "f" (.lam "x" (.free "x")))
      (.app (.global "succ" (.free "not a name")) (.free "n_0"))
    let e : Expr := .apply (.lambda "x" (.name "x")) (.apply (.name "succ") (.name "n_0"))
    (∀ x ∈ t.writtenNames, IsName x) ∧ (∀ x ∈ e.names, IsName x) ∧
      t.inspect = "(λx x) (succ n_0)" ∧
      Parser.parse "m" (.ofString t.inspect) = .ok ⟨"m", [.bare e]⟩ ∧
      Parser.parse "m" (.ofString ((Term.ofExpr e).resolve fun x => some (.free x)).inspect) =
        .ok ⟨"m", [.bare e]⟩ := by
  intro t e
  have ht : ∀ x ∈ t.writtenNames, IsName x := by decide
  have he : ∀ x ∈ e.names, IsName x := by decide
  exact ⟨ht, he, by decide, (parse_inspect "m").1 t ht, ((parse_inspect "m").2 e he).2 _⟩

end LazyLambda
