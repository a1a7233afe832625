/-
# LazyLambda.Proofs.Session.Unshadowed — a session never overwrites an argument.

Expressions are read without arguments in them, and resolving globals puts none in: what has been passed
to a function comes into a later statement only through the global that stands for it, and is then not
looked into. So the scope of a session never comes to hold a function that shadows an argument
(`Session.exec_unshadowed`), and no evaluation meets one.
-/
import LazyLambda.Proofs.Session.Moments
import LazyLambda.Proofs.Term.Unshadowed

namespace LazyLambda

/-! ## Resolving globals -/

/-- Resolving globals passes no arguments. -/
theorem Term.passedNames_resolve (definition? : String → Option Term) (e : Expr) :
    ((Term.ofExpr e).resolve definition?).passedNames = [] := by
  induction e with
  | name x =>
      rw [ofExpr, resolve]
      cases definition? x <;> rfl
  | lambda x body ih => exact ih
  | apply f a ihf iha =>
      show passedNames _ ++ passedNames _ = []
      rw [ihf, iha]
      rfl

theorem Scope.All.unshadowed_resolve {s : Scope} (hs : s.All Term.Unshadowed) (e : Expr) :
    ((Term.ofExpr e).resolve s.get?).Unshadowed := by
  induction e with
  | name x =>
      rw [Term.ofExpr, Term.resolve]
      cases hx : s.get? x with
      | none => exact Term.unshadowed_free x
      | some t => exact Term.unshadowed_global.2 (hs x t hx)
  | lambda x body ih =>
      refine Term.unshadowed_lam.2 ⟨?_, ih⟩
      rw [Term.passedNames_resolve]
      exact List.not_mem_nil
  | apply f a ihf iha => exact Term.unshadowed_app.2 ⟨ihf, iha⟩

theorem Job.Unshadowed.report {j : Job} (hj : j.Unshadowed) {a : Allowance} {t : Term}
    (h : (j.report a).result = .ok t) : t.Unshadowed := by
  obtain ⟨k, o, hk, hf⟩ := j.exists_ends a.steps
  have ho : o.Unshadowed := hk.unshadowed hj
  rw [hk.report_eq hf] at h
  match o with
  | .value x body =>
      cases h
      exact ho

namespace Session

/-- **A statement leaves no function in the scope that shadows an argument**, and comes to none. -/
theorem exec_unshadowed {s : Session} (hs : s.scope.All Term.Unshadowed) (st : Statement) :
    (s.exec st).session.scope.All Term.Unshadowed ∧
      ∀ t, (s.exec st).result = .ok t → t.Unshadowed := by
  have hj : (Job.eval (s.resolve st.expr)).Unshadowed := hs.unshadowed_resolve st.expr
  exact exec_all hs hj fun t ht => hj.report ht

/-- **No argument that has been passed is ever overwritten.** Let modules be run one after the other in a
session that is empty at first. At every moment, and after every module, no function in the scope shadows an
argument, wherever in what is defined it stands. The same holds of what the statement of the moment comes
to, and of all that an evaluator meets in evaluating its expression. Therefore every reduction on the way
replaces identifiers only that are free or global, although one that stands for an argument would be
replaced too. -/
theorem passed_never_overwritten (a : Allowance) (ms : List Module) :
    (∀ p ∈ (Session.new a).momentsOf ms,
      p.1.scope.All Term.Unshadowed ∧ (∀ t, (p.1.exec p.2).result = .ok t → t.Unshadowed) ∧
      ∀ (ev ev' : Evaluator) (j : Job), Evaluator.Meets (ev, .eval (p.1.resolve p.2.expr)) (ev', j) →
        j.Unshadowed ∧ (∀ o ev'', ev'.Works j o ev'' → o.Unshadowed) ∧
        ∀ x body arg, j = .call (.lam x body) arg → body.subst x arg = body.fill x arg) ∧
    (∀ e ∈ (Session.new a).effects ms, e.session.scope.All Term.Unshadowed) ∧
    ∀ x u arg, (Term.passed x u).subst x arg = .passed x arg := by
  have hkept : (∀ p ∈ (Session.new a).momentsOf ms, p.1.scope.All Term.Unshadowed) ∧
      ∀ e ∈ (Session.new a).effects ms, e.session.scope.All Term.Unshadowed := by
    refine keeps_momentsOf (P := fun s => s.scope.All Term.Unshadowed) (Q := fun _ => True) ?_
      Scope.all_empty fun _ _ => trivial
    intro p hp _
    exact (exec_unshadowed hp p.2).1
  refine ⟨fun p hp => ?_, hkept.2, Term.subst_passed_self⟩
  have hs : p.1.scope.All Term.Unshadowed := hkept.1 p hp
  refine ⟨hs, (exec_unshadowed hs p.2).2, fun ev ev' j hmeets => ?_⟩
  have hj : j.Unshadowed := hmeets.unshadowed (hs.unshadowed_resolve p.2.expr)
  refine ⟨hj, fun o ev'' hw => hw.unshadowed hj, ?_⟩
  rintro x body arg rfl
  exact Term.subst_eq_fill (Term.unshadowed_lam.1 hj.1).1

/-- The last result of the first module is a function that an argument has been passed into. The second
module calls it, with a global of the very name of the parameter that the argument was passed for. -/
theorem passed_never_overwritten_reused :
    let k : Term := .lam "x" (.lam "y" (.free "x"))
    let identity : Expr := .lambda "z" (.name "z")
    let first : Module := ⟨"", [.define "x" (.lambda "x" (.lambda "y" (.name "x"))),
      .bare (.apply (.name "x") identity)]⟩
    let second : Module := ⟨"", [.bare (.apply (.name "_") (.name "x"))]⟩
    let s := Session.new (.ofBound 3)
    let body : Term := .passed "x" (Term.ofExpr identity)
    ∃ p ∈ s.momentsOf [first, second],
      Evaluator.Meets (⟨3, 0⟩, .eval (p.1.resolve p.2.expr))
        (⟨3, 0⟩, .call (.lam "y" body) (.global "x" k)) ∧
      (Term.lam "y" body).Unshadowed ∧
      body.subst "y" (.global "x" k) = body.fill "y" (.global "x" k) := by
  intro k identity first second s body
  -- the program is run through the equations for answers
  have hreport (t : Term) (a : Allowance) : t.evaluate a = _ := Job.report_eq_answer a (.eval t)
  let s' : Session := ⟨(Scope.empty.set "x" k).set "_" (.lam "y" body), .ofBound 3⟩
  have hp : (s', .bare (.apply (.name "_") (.name "x"))) ∈ s.momentsOf [first, second] := by
    simp [s, s', k, body, first, second, identity, Session.new, Allowance.ofBound, Allowance.steps,
      momentsOf, moments, run, runFrom, step, exec, Effect.andThen, Effect.after, store, lastResult,
      resolve, Term.ofExpr, Term.resolve, Term.subst_lam_of_ne, Scope.get?_set_of_ne, hreport,
      Job.answer_eval_app, Job.answer_eval_lam, Job.answer_call_lam_succ, Job.answer_call_global,
      Outcome.result, Outcome.within]
  have hresolve : s'.resolve (.apply (.name "_") (.name "x")) =
      .app (.global "_" (.lam "y" body)) (.global "x" k) := by
    simp [s', resolve, Term.ofExpr, Term.resolve, Scope.get?_set_of_ne]
  have hmeets : Evaluator.Meets (⟨3, 0⟩, .eval (s'.resolve (.apply (.name "_") (.name "x"))))
      (⟨3, 0⟩, .call (.lam "y" body) (.global "x" k)) := by
    rw [hresolve]
    refine .tail (b := (⟨3, 0⟩, .call (.global "_" (.lam "y" body)) (.global "x" k))) (.single ?_) ?_
    · exact .app ..
    · exact .callGlobal ..
  obtain ⟨-, -, hmet⟩ := (passed_never_overwritten (.ofBound 3) [first, second]).1 _ hp
  obtain ⟨hjob, -, hsubst⟩ := hmet _ _ _ hmeets
  exact ⟨_, hp, hmeets, hjob.1, hsubst "y" body _ rfl⟩

end Session

end LazyLambda
