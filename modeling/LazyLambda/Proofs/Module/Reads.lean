/-
# LazyLambda.Proofs.Module.Reads — what the reader of expressions does, rule by rule.

`Parser.expr` returns tokens together with proofs about them. `Reads` is what it does without the
proofs: one rule for each way through it, faults included. The two agree (`reads_expr`), and the rules
leave no choice (`Reads.unique`), so that whatever is shown of all derivations is shown of the reader,
and a derivation says what the reader returns.
-/
import LazyLambda.Module.Parser
import LazyLambda.Proofs.Module.Grammar

namespace LazyLambda.Parser

open Grammar (Closing closing_nil closing_cons opens)

/-! ## Results without their proofs -/

namespace Result

variable {α β : Type} {ts us : List Token}

/-- What was read, or what is wrong. -/
def toExcept : Result α ts → Except Complaint α
  | .ok a _ _ => .ok a
  | .error c _ _ => .error c

@[simp] theorem toExcept_widen (r : Result α ts) (h : ts <:+ us) :
    (r.widen h).toExcept = r.toExcept := by
  cases r <;> rfl

@[simp] theorem rest_widen (r : Result α ts) (h : ts <:+ us) : (r.widen h).rest = r.rest := by
  cases r <;> rfl

@[simp] theorem toExcept_map (f : α → β) (r : Result α ts) :
    (r.map f).toExcept = r.toExcept.map f := by
  cases r <;> rfl

@[simp] theorem rest_map (f : α → β) (r : Result α ts) : (r.map f).rest = r.rest := by
  cases r <;> rfl

end Result

/-! ## The rules -/

/-- `Reads inside acc ts o rest`: reading operands off `ts`, behind those that make `acc`, comes to `o`
and leaves `rest`. `inside` says whether a parenthesis is open. -/
inductive Reads : Bool → Option Expr → List Token → Except Complaint Expr → List Token → Prop
  | done {inside : Bool} {ts : List Token} (e : Expr) :
      Closing ts → Reads inside (some e) ts (.ok e) ts
  | noExpression {inside : Bool} {ts : List Token} :
      Closing ts → Reads inside none ts (.error .noExpression) ts
  | name {inside : Bool} {acc : Option Expr} {t : Token} {r rest : List Token}
      {o : Except Complaint Expr} :
      t.kind = .ident →
      Reads inside (some (operand acc (.name t.literal))) (settle inside r) o rest →
      Reads inside acc (t :: r) o rest
  | lambda {inside : Bool} {acc : Option Expr} {t p : Token} {r r' rest : List Token}
      {o : Except Complaint Expr} :
      t.kind = .lambda → settle inside r = p :: r' → p.kind = .ident →
      Reads inside none (settle inside r') o rest →
      Reads inside acc (t :: r) (o.map fun body => operand acc (.lambda p.literal body)) rest
  | noParameter {inside : Bool} {acc : Option Expr} {t : Token} {r : List Token} :
      t.kind = .lambda → (∀ p ∈ (settle inside r).head?, p.kind ≠ .ident) →
      Reads inside acc (t :: r) (.error .noParameter) (settle inside r)
  | group {inside : Bool} {acc : Option Expr} {t close : Token} {r rest rest' : List Token} {e : Expr}
      {o : Except Complaint Expr} :
      t.kind = .lparen → Reads true none (settle true r) (.ok e) (close :: rest) →
      close.kind = .rparen → Reads inside (some (operand acc e)) (settle inside rest) o rest' →
      Reads inside acc (t :: r) o rest'
  | groupFault {inside : Bool} {acc : Option Expr} {t : Token} {r rest : List Token} {c : Complaint} :
      t.kind = .lparen → Reads true none (settle true r) (.error c) rest →
      Reads inside acc (t :: r) (.error c) rest
  | unclosed {inside : Bool} {acc : Option Expr} {t : Token} {r rest : List Token} {e : Expr} :
      t.kind = .lparen → Reads true none (settle true r) (.ok e) rest →
      (∀ u ∈ rest.head?, u.kind ≠ .rparen) →
      Reads inside acc (t :: r) (.error (.unclosed t.pos)) rest

/-- The reader follows the rules. -/
theorem reads_expr (inside : Bool) (acc : Option Expr) (ts : List Token) :
    Reads inside acc ts (expr inside acc ts).toExcept (expr inside acc ts).rest := by
  have hfinish {inside : Bool} {acc : Option Expr} {ts : List Token} (hc : Closing ts) :
      Reads inside acc ts (finish acc ts).toExcept (finish acc ts).rest := by
    cases acc with
    | none => exact .noExpression hc
    | some e => exact .done e hc
  fun_induction expr inside acc ts with
  | case1 => exact hfinish closing_nil
  | case2 inside acc t r hk ih =>
      rw [Result.toExcept_widen, Result.rest_widen]
      exact .name hk ih
  | case3 inside acc t r hk hp =>
      have h : Reads inside acc (t :: r) (.error .noParameter) (settle inside r) :=
        .noParameter hk (by simp [hp])
      rwa [hp] at h
  | case4 inside acc t r hk p r' hp _ hi ih =>
      rw [Result.toExcept_widen, Result.rest_widen, Result.toExcept_map, Result.rest_map]
      exact .lambda hk hp hi ih
  | case5 inside acc t r hk p r' hp _ hi =>
      have h : Reads inside acc (t :: r) (.error .noParameter) (settle inside r) :=
        .noParameter hk (by simpa [hp] using hi)
      rwa [hp] at h
  | case6 inside acc t r hk _ c rest _ he ih =>
      rw [he] at ih
      exact .groupFault hk ih
  | case7 inside acc t r hk _ e _ he ih =>
      rw [he] at ih
      exact .unclosed hk ih (by simp [Result.rest])
  | case8 inside acc t r hk _ e close rest _ he hc ih ih' =>
      rw [he] at ih
      rw [Result.toExcept_widen, Result.rest_widen]
      exact .group hk ih hc ih'
  | case9 inside acc t r hk _ e close rest _ he hc ih =>
      rw [he] at ih
      exact .unclosed hk ih (by simpa [Result.rest] using hc)
  | case10 inside acc t r hi hl hp =>
      refine hfinish (closing_cons ?_ r)
      cases hk : t.kind <;> simp_all [opens, Grammar.kindOpens]

theorem closing_ne_kind {t : Token} {r : List Token} (h : Closing (t :: r)) :
    t.kind ≠ .ident ∧ t.kind ≠ .lambda ∧ t.kind ≠ .lparen := by
  have ho : opens t = false := h t rfl
  cases hk : t.kind <;> simp_all [opens, Grammar.kindOpens]

/-- The rules leave no choice. -/
theorem Reads.unique {inside : Bool} {acc : Option Expr} {ts rest rest' : List Token}
    {o o' : Except Complaint Expr} (h : Reads inside acc ts o rest)
    (h' : Reads inside acc ts o' rest') : o = o' ∧ rest = rest' := by
  induction h generalizing o' rest' with
  | done e hc =>
      cases h' with
      | done => exact ⟨rfl, rfl⟩
      | name hk => exact ((closing_ne_kind hc).1 hk).elim
      | lambda hk | noParameter hk => exact ((closing_ne_kind hc).2.1 hk).elim
      | group hk | groupFault hk | unclosed hk => exact ((closing_ne_kind hc).2.2 hk).elim
  | noExpression hc =>
      cases h' with
      | noExpression => exact ⟨rfl, rfl⟩
      | name hk => exact ((closing_ne_kind hc).1 hk).elim
      | lambda hk | noParameter hk => exact ((closing_ne_kind hc).2.1 hk).elim
      | group hk | groupFault hk | unclosed hk => exact ((closing_ne_kind hc).2.2 hk).elim
  | name hk _ ih =>
      cases h' with
      | name _ hr => exact ih hr
      | done _ hc | noExpression hc => exact ((closing_ne_kind hc).1 hk).elim
      | lambda hk' | noParameter hk' | group hk' | groupFault hk' | unclosed hk' =>
          rw [hk] at hk'
          cases hk'
  | lambda hk hp hi _ ih =>
      cases h' with
      | lambda _ hp' _ hr =>
          rw [hp] at hp'
          cases hp'
          obtain ⟨rfl, rfl⟩ := ih hr
          exact ⟨rfl, rfl⟩
      | noParameter _ hn => exact (hn _ (by rw [hp]; rfl) hi).elim
      | done _ hc | noExpression hc => exact ((closing_ne_kind hc).2.1 hk).elim
      | name hk' | group hk' | groupFault hk' | unclosed hk' =>
          rw [hk] at hk'
          cases hk'
  | noParameter hk hn =>
      cases h' with
      | noParameter => exact ⟨rfl, rfl⟩
      | lambda _ hp hi => exact (hn _ (by rw [hp]; rfl) hi).elim
      | done _ hc | noExpression hc => exact ((closing_ne_kind hc).2.1 hk).elim
      | name hk' | group hk' | groupFault hk' | unclosed hk' =>
          rw [hk] at hk'
          cases hk'
  | group hk _ hc _ ih ih' =>
      cases h' with
      | group _ hr _ hr' =>
          obtain ⟨he, hrest⟩ := ih hr
          cases he
          cases hrest
          exact ih' hr'
      | groupFault _ hr => cases (ih hr).1
      | unclosed _ hr hn =>
          obtain ⟨-, rfl⟩ := ih hr
          exact (hn _ rfl hc).elim
      | done _ hc' | noExpression hc' => exact ((closing_ne_kind hc').2.2 hk).elim
      | name hk' | lambda hk' | noParameter hk' =>
          rw [hk] at hk'
          cases hk'
  | groupFault hk _ ih =>
      cases h' with
      | group _ hr => cases (ih hr).1
      | groupFault _ hr =>
          obtain ⟨hc, rfl⟩ := ih hr
          cases hc
          exact ⟨rfl, rfl⟩
      | unclosed _ hr => cases (ih hr).1
      | done _ hc' | noExpression hc' => exact ((closing_ne_kind hc').2.2 hk).elim
      | name hk' | lambda hk' | noParameter hk' =>
          rw [hk] at hk'
          cases hk'
  | unclosed hk _ hn ih =>
      cases h' with
      | group _ hr hc =>
          obtain ⟨-, rfl⟩ := ih hr
          exact (hn _ rfl hc).elim
      | groupFault _ hr => cases (ih hr).1
      | unclosed _ hr => exact ⟨rfl, (ih hr).2⟩
      | done _ hc' | noExpression hc' => exact ((closing_ne_kind hc').2.2 hk).elim
      | name hk' | lambda hk' | noParameter hk' =>
          rw [hk] at hk'
          cases hk'

/-- A derivation says what the reader returns. -/
theorem Reads.expr_eq {inside : Bool} {acc : Option Expr} {ts rest : List Token}
    {o : Except Complaint Expr} (h : Reads inside acc ts o rest) :
    (expr inside acc ts).toExcept = o ∧ (expr inside acc ts).rest = rest :=
  (reads_expr inside acc ts).unique h

end LazyLambda.Parser
