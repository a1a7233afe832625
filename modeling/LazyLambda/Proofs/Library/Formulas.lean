/-
# LazyLambda.Proofs.Library.Formulas — formulas of the prelude evaluate to their truth values.

A formula is a tree of truth values, connectives and conditionals. `Formula.expr` calls the functions of the
prelude for it, and `Formula.holds` says what it comes to by the truth tables.

In the prelude everything is a choice that a truth value makes between two terms (`Prelude.agrees_chosen`).
The terms are arguments that nobody has evaluated, but each of them agrees with a truth value, and that is
all a choice needs to know. So one level of a formula follows from the levels below it, however their terms
are nested in identifiers of the same few names.
-/
import LazyLambda.Proofs.Library.Arithmetic
import LazyLambda.Proofs.Term.RoundTrip

namespace LazyLambda

/-! ## Formulas -/

/-- What joins two formulas. -/
inductive Connective where
  | and
  | or
  | xor
  | xnor
  deriving DecidableEq

namespace Connective

/-- What the prelude calls a connective. -/
def name : Connective → String
  | .and => "and"
  | .or => "or"
  | .xor => "xor"
  | .xnor => "xnor"

/-- The truth table of a connective. -/
def holds : Connective → Bool → Bool → Bool
  | .and, a, b => a && b
  | .or, a, b => a || b
  | .xor, a, b => a != b
  | .xnor, a, b => a == b

end Connective

/-- A formula of truth values. -/
inductive Formula where
  | constant (b : Bool)
  | not (φ : Formula)
  | binary (c : Connective) (φ ψ : Formula)
  /-- The second formula if the first holds, and the third if not. -/
  | choice (condition yes no : Formula)
  deriving DecidableEq

namespace Formula

/-- The expression of a formula: calls inside each other. -/
def expr : Formula → Expr
  | .constant b => .name (if b then "true" else "false")
  | .not φ => .call "not" [φ.expr]
  | .binary c φ ψ => .call c.name [φ.expr, ψ.expr]
  | .choice φ ψ χ => .call "if" [φ.expr, ψ.expr, χ.expr]

/-- Whether a formula is true. -/
def holds : Formula → Bool
  | .constant b => b
  | .not φ => !φ.holds
  | .binary c φ ψ => c.holds φ.holds ψ.holds
  | .choice φ ψ χ => if φ.holds then ψ.holds else χ.holds

/-- A formula in writing. -/
def text (φ : Formula) : String := (Term.ofExpr φ.expr).inspect

example : (choice (binary .xor (constant true) (not (constant false))) (constant false)
    (constant true)).text = "if (xor true (not false)) false true" := by decide

end Formula

namespace Prelude

open Term

variable {M N t f x : Term} {a b p q : Bool}

/-! ## Functions of truth values -/

/-- What a truth value chooses agrees with one of two truth values. -/
theorem agrees_chosen (ht : t.Agrees (truth b)) (hf : f.Agrees (truth p)) (hx : x.Agrees (truth q)) :
    (t.applied [f, x]).Agrees (truth (if b then p else q)) := by
  have hchoice := agrees_choice ht f x
  cases b with
  | true => exact hchoice.trans hf
  | false => exact hchoice.trans hx

theorem agrees_passed_truth (x : String) (hM : M.Agrees (truth a)) : (passed x M).Agrees (truth a) :=
  (agrees_passed x M).trans hM

/-- Choosing `false` if it holds and `true` if it does not turns a truth value over. -/
theorem agrees_turned (ht : t.Agrees (truth a)) :
    (t.applied [truthName false, truthName true]).Agrees (truth !a) := by
  have hchosen := agrees_chosen ht (agrees_truthName false) (agrees_truthName true)
  cases a <;> exact hchosen

theorem agrees_negation (hM : M.Agrees (truth a)) :
    ((global "not" negation).applied [M]).Agrees (truth !a) := by
  have hnot : ((global "not" negation).applied [M]).Agrees
      ((passed "a" M).applied [truthName false, truthName true]) :=
    agrees_applied (agrees_global "not" negation) [M] rfl
  exact hnot.trans (agrees_turned (agrees_passed_truth "a" hM))

theorem agrees_disjunction (hM : M.Agrees (truth a)) (hN : N.Agrees (truth b)) :
    ((global "or" disjunction).applied [M, N]).Agrees (truth (a || b)) := by
  have hor : ((global "or" disjunction).applied [M, N]).Agrees
      ((passed "a" M).applied [truthName true, passed "b" N]) :=
    agrees_applied (agrees_global "or" disjunction) [M, N] rfl
  have hchosen := agrees_chosen (agrees_passed_truth "a" hM) (agrees_truthName true)
    (agrees_passed_truth "b" hN)
  cases a <;> exact hor.trans hchosen

/-- Both branches ask for the second argument, and the first one turns it over. -/
theorem agrees_difference (hM : M.Agrees (truth a)) (hN : N.Agrees (truth b)) :
    ((global "xor" difference).applied [M, N]).Agrees (truth (a != b)) := by
  have hxor : ((global "xor" difference).applied [M, N]).Agrees ((passed "a" M).applied
      [(passed "b" N).applied [truthName false, truthName true],
        (passed "b" N).applied [truthName true, truthName false]]) :=
    agrees_applied (agrees_global "xor" difference) [M, N] rfl
  have hb := agrees_passed_truth "b" hN
  have hchosen := agrees_chosen (agrees_passed_truth "a" hM) (agrees_turned hb)
    (agrees_chosen hb (agrees_truthName true) (agrees_truthName false))
  cases a <;> cases b <;> exact hxor.trans hchosen

theorem agrees_equivalence (hM : M.Agrees (truth a)) (hN : N.Agrees (truth b)) :
    ((global "xnor" equivalence).applied [M, N]).Agrees (truth (a == b)) := by
  have hxnor : ((global "xnor" equivalence).applied [M, N]).Agrees ((global "not" negation).applied
      [(global "xor" difference).applied [passed "a" M, passed "b" N]]) :=
    agrees_applied (agrees_global "xnor" equivalence) [M, N] rfl
  have hdiffer := agrees_difference (agrees_passed_truth "a" hM) (agrees_passed_truth "b" hN)
  have hturned := agrees_negation hdiffer
  cases a <;> cases b <;> exact hxnor.trans hturned

/-- A conditional is the truth value itself, which is given two more arguments. -/
theorem agrees_conditional (ht : t.Agrees (truth b)) (hf : f.Agrees (truth p)) (hx : x.Agrees (truth q)) :
    ((global "if" (global "id" identity)).applied [t, f, x]).Agrees (truth (if b then p else q)) := by
  have hid : (global "if" (global "id" identity)).Agrees identity :=
    (agrees_global "if" _).trans (agrees_global "id" identity)
  have hif : ((global "if" (global "id" identity)).applied [t]).Agrees (passed "a" t) :=
    agrees_applied hid [t] rfl
  exact agrees_chosen (hif.trans (agrees_passed_truth "a" ht)) hf hx

/-! ## One level of a formula -/

/-- What a connective is bound to. -/
def connective : Connective → Term
  | .and => conjunction
  | .or => disjunction
  | .xor => difference
  | .xnor => equivalence

theorem get?_connective (c : Connective) : scope.get? c.name = some (connective c) := by
  cases c <;> rfl

theorem agrees_connective (c : Connective) (hM : M.Agrees (truth a)) (hN : N.Agrees (truth b)) :
    ((global c.name (connective c)).applied [M, N]).Agrees (truth (c.holds a b)) := by
  cases c with
  | and => exact agrees_conjunction hM hN
  | or => exact agrees_disjunction hM hN
  | xor => exact agrees_difference hM hN
  | xnor => exact agrees_equivalence hM hN

/-- **A formula agrees with its truth value**, before anything of it is evaluated. -/
theorem agrees_formula (φ : Formula) : (resolved φ.expr).Agrees (truth φ.holds) := by
  induction φ with
  | constant b => cases b <;> exact agrees_truthName _
  | not φ ih =>
      rw [Formula.expr, resolved_call (t := negation) rfl]
      exact agrees_negation ih
  | binary c φ ψ ihφ ihψ =>
      rw [Formula.expr, resolved_call (get?_connective c)]
      exact agrees_connective c ihφ ihψ
  | choice φ ψ χ ihφ ihψ ihχ =>
      rw [Formula.expr, resolved_call (t := global "id" identity) rfl]
      exact agrees_conditional ihφ ihψ ihχ

/-! ## Running formulas -/

/-- `Shows e s`: in a session without a limit that has loaded the prelude and nothing else, running a module
of the expression alone succeeds, whatever the module is called, and the value is written `s`. -/
def Shows (e : Expr) (s : String) : Prop :=
  ∃ fuel, ∀ more, fuel ≤ more →
    let loaded := Library.load (Session.new ⟨none, more⟩) Library.prelude
    loaded.result = .ok () ∧
      ∀ name, ∃ t, (loaded.session.run ⟨name, [.bare e]⟩).result = .ok t ∧ t.inspect = s

/-- A name is not evaluated: it shows what it is bound to. -/
theorem decides_constant (b : Bool) : Decides (Formula.constant b).expr b := by
  refine ⟨0, fun more _ => ?_⟩
  obtain ⟨hload, hsession⟩ := Library.load_prelude ⟨none, more⟩
  refine ⟨hload, ?_, ?_⟩
  · rw [hsession]
    cases b <;> rfl
  · rw [hsession]
    cases b <;> rfl

theorem decides_formula (φ : Formula) : Decides φ.expr φ.holds := by
  cases φ with
  | constant b => exact decides_constant b
  | not φ => exact decides_of_agrees (Expr.call_ne_name _ _ _) (agrees_formula φ.not)
  | binary c φ ψ => exact decides_of_agrees (Expr.call_ne_name _ _ _) (agrees_formula (.binary c φ ψ))
  | choice φ ψ χ => exact decides_of_agrees (Expr.call_ne_name _ _ _) (agrees_formula (.choice φ ψ χ))

/-- What is decided is shown as a truth value. -/
theorem Decides.shows {e : Expr} (h : Decides e b) : Shows e (truth b).inspect := by
  obtain ⟨fuel, h⟩ := h
  refine ⟨fuel, fun more hmore => ?_⟩
  obtain ⟨hload, -, hexec⟩ := h more hmore
  refine ⟨hload, fun name => ⟨truth b, ?_, rfl⟩⟩
  show (Session.step _ (.bare e)).result = _
  rw [Session.step, hexec]
  exact hexec

theorem inspect_truth (b : Bool) : (truth b).inspect = if b then "λa λb a" else "λa λb b" := by
  cases b <;> decide

/-- Formulas are written with names that can be read. -/
theorem isName_of_mem_formula (φ : Formula) : ∀ x ∈ φ.expr.names, IsName x := by
  induction φ with
  | constant b => cases b <;> decide
  | not φ ih =>
      simp only [Formula.expr, Expr.call, List.foldl_cons, List.foldl_nil, Expr.names,
        List.forall_mem_append, List.forall_mem_singleton]
      exact ⟨by decide, ih⟩
  | binary c φ ψ ihφ ihψ =>
      have hc : IsName c.name := by cases c <;> decide
      simp only [Formula.expr, Expr.call, List.foldl_cons, List.foldl_nil, Expr.names,
        List.forall_mem_append, List.forall_mem_singleton]
      exact ⟨⟨hc, ihφ⟩, ihψ⟩
  | choice φ ψ χ ihφ ihψ ihχ =>
      simp only [Formula.expr, Expr.call, List.foldl_cons, List.foldl_nil, Expr.names,
        List.forall_mem_append, List.forall_mem_singleton]
      exact ⟨⟨⟨by decide, ihφ⟩, ihψ⟩, ihχ⟩

/-- **Formulas evaluate to their truth value, to any depth.** What is written for a formula parses as the
calls of its expression, and running these in a session with the prelude shows the function that returns the
first of its two arguments if the formula is true, and the second if it is false. -/
theorem formula_shows_truth_value (φ : Formula) :
    (∀ name, Parser.parse name (.ofString φ.text) = .ok ⟨name, [.bare φ.expr]⟩) ∧
      Shows φ.expr (if φ.holds then "λa λb a" else "λa λb b") := by
  constructor
  · intro name
    have hback : (ofExpr φ.expr).readback = φ.expr := readback_ofExpr φ.expr
    have hnames : ∀ x ∈ (ofExpr φ.expr).writtenNames, IsName x := by
      rw [← names_readback, hback]
      exact isName_of_mem_formula φ
    have hparse := (spelled_inspect _ hnames).parse_eq name
    rwa [hback] at hparse
  · rw [← inspect_truth]
    exact (decides_formula φ).shows

end Prelude

end LazyLambda
