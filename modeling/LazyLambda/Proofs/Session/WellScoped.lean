/-
# LazyLambda.Proofs.Session.WellScoped — programs that use only defined names.

A statement is well scoped at the moment it is executed if the free names of its expression are defined
then. The names that its parameters hide need not be, and a later definition of the same name is another
matter.

The invariant is that everything in the scope is closed. Resolving a well-scoped expression in such a
scope gives a closed term; a definition stores it as it is, and evaluating it gives a closed function or
spends all that is allowed (`Session.exec_closed`). So along every run of well-scoped statements nothing
else goes wrong.
-/
import LazyLambda.Proofs.Session.FreeNames
import LazyLambda.Proofs.Session.Moments
import LazyLambda.Proofs.Term.Closed

namespace LazyLambda

namespace Scope

/-- Whether everything that is defined is closed. -/
def Closed (s : Scope) : Prop := s.All (·.ClosedUnder [])

theorem closed_empty : Scope.empty.Closed := all_empty

/-- An expression whose free names are defined, or parameters in scope, resolves to a closed term. -/
theorem Closed.resolve {s : Scope} (hs : s.Closed) {params : List String} {e : Expr}
    (he : ∀ x ∈ e.freeNames, x ∉ params → (s.get? x).isSome = true) :
    ((Term.ofExpr e).resolve s.get?).ClosedUnder params := by
  induction e generalizing params with
  | name x =>
      rw [Term.ofExpr, Term.resolve]
      cases hx : s.get? x with
      | some t => exact hs x t hx
      | none =>
          -- an undefined name can only be that of a parameter
          by_cases hmem : x ∈ params
          · exact hmem
          · have hsome := he x (List.mem_singleton.2 rfl) hmem
            rw [hx] at hsome
            cases hsome
  | lambda x body ih =>
      refine ih fun y hy hmem => ?_
      have hyx : y ≠ x := fun h => hmem (h ▸ List.mem_cons_self)
      refine he y (List.mem_filter.2 ⟨hy, by simpa using hyx⟩) fun hp => ?_
      exact hmem (List.mem_cons_of_mem x hp)
  | apply f a ihf iha =>
      refine ⟨ihf fun y hy => ?_, iha fun y hy => ?_⟩
      · exact he y (List.mem_append_left _ hy)
      · exact he y (List.mem_append_right _ hy)

end Scope

namespace Session

/-! ## One statement -/

/-- Whether the free names of an expression are defined. -/
def Binds (s : Session) (e : Expr) : Prop := ∀ x ∈ e.freeNames, (s.scope.get? x).isSome = true

instance (s : Session) (e : Expr) : Decidable (s.Binds e) := List.decidableBAll _ e.freeNames

variable {s : Session}

/-- Whether an error only says that all the allowed reductions are spent. -/
def RunsOut (a : Allowance) (err : RunError) : Prop := ∃ trace, err = .evaluation ⟨trace, a.spentCause⟩

/-- **A well-scoped statement keeps the scope closed, and fails only by running out.** -/
theorem exec_closed (hs : s.scope.Closed) {st : Statement} (hst : s.Binds st.expr) :
    (s.exec st).session.scope.Closed ∧
      ∀ err, (s.exec st).result = .error err → RunsOut s.allowance err := by
  have hclosed : (Job.eval (s.resolve st.expr)).Closed := hs.resolve fun x hx _ => hst x hx
  have hreport : (∃ t, ((s.resolve st.expr).evaluate s.allowance).result = .ok t ∧ t.ClosedUnder []) ∨
      ∃ trace, ((s.resolve st.expr).evaluate s.allowance).result = .error ⟨trace, s.allowance.spentCause⟩ :=
    hclosed.report s.allowance
  constructor
  · refine (exec_all hs hclosed fun t ht => ?_).1
    rcases hreport with ⟨u, hu, hcu⟩ | ⟨trace, htrace⟩
    · cases hu.symm.trans ht
      exact hcu
    · cases htrace.symm.trans ht
  · intro err herr
    rcases exec_error herr with ⟨x, rfl, hx⟩ | ⟨f, hf, rfl⟩
    · have hsome := hst x (List.mem_singleton.2 rfl)
      rw [hx] at hsome
      cases hsome
    · rcases hreport with ⟨u, hu, -⟩ | ⟨trace, htrace⟩
      · cases hu.symm.trans hf
      · cases htrace.symm.trans hf
        exact ⟨trace, rfl⟩

/-! ## Runs -/

/-- Along modules whose statements are well scoped the scope is closed at every moment, and nothing fails
but for want of statements or by running out. -/
theorem closed_of_mem_momentsOf {ms : List Module} (hs : s.scope.Closed)
    (h : ∀ p ∈ s.momentsOf ms, p.1.Binds p.2.expr) :
    (∀ p ∈ s.momentsOf ms, p.1.scope.Closed ∧ p.1.allowance = s.allowance) ∧
      ∀ e ∈ s.effects ms, ∀ err, e.result = .error err →
        (∃ label, err = .noStatements label) ∨ RunsOut s.allowance err := by
  have hmoments : ∀ p ∈ s.momentsOf ms, p.1.scope.Closed ∧ p.1.allowance = s.allowance := by
    refine (keeps_momentsOf (P := fun s' => s'.scope.Closed ∧ s'.allowance = s.allowance) ?_ ⟨hs, rfl⟩ h).1
    intro p hp hbinds
    exact ⟨(exec_closed hp.1 hbinds).1, (p.1.allowance_exec p.2).trans hp.2⟩
  refine ⟨hmoments, fun e he err herr => ?_⟩
  rcases exists_moment_of_mem_effects he with ⟨label, hlabel⟩ | ⟨p, hp, hresult⟩
  · rw [hlabel] at herr
    cases herr
    exact Or.inl ⟨label, rfl⟩
  · obtain ⟨hc, ha⟩ := hmoments p hp
    right
    rw [← ha]
    exact (exec_closed hc (h p hp)).2 err (hresult ▸ herr)

/-- **Well-scoped programs never meet an unbound name.** Let modules be run one after the other in a
session that is empty at first. If each statement, at the moment it is executed, has the free names of its
expression defined, then no statement fails but by spending all that is allowed, and no module but so or
for want of statements. -/
theorem wellScoped_only_runs_out (a : Allowance) (ms : List Module)
    (h : ∀ p ∈ (Session.new a).momentsOf ms, p.1.Binds p.2.expr) :
    (∀ p ∈ (Session.new a).momentsOf ms, ∀ err, (p.1.exec p.2).result = .error err → RunsOut a err) ∧
      ∀ e ∈ (Session.new a).effects ms, ∀ err, e.result = .error err →
        (∃ label, err = .noStatements label) ∨ RunsOut a err := by
  obtain ⟨hmoments, heffects⟩ := closed_of_mem_momentsOf Scope.closed_empty h
  refine ⟨fun p hp err herr => ?_, heffects⟩
  obtain ⟨hc, ha⟩ := hmoments p hp
  have hout := (exec_closed hc (h p hp)).2 err herr
  rwa [ha] at hout

/-- A program that hides a global, gives it another meaning and uses the last result. Its first module runs
out on the way, so that the name at its end is never looked up. -/
theorem wellScoped_only_runs_out_redefined :
    let x : Expr := .name "x"
    let twice : Expr := .lambda "x" (.apply x x)
    let first : Module := ⟨"", [.define "x" (.lambda "a" (.name "a")), .define "y" (.lambda "x" x),
      .bare (.apply x (.name "y")), .bare (.apply twice twice), .bare (.name "never")]⟩
    let second : Module := ⟨"", [.define "x" (.apply (.name "_") x), .bare (.name "_"), .bare x]⟩
    let s := Session.new (.ofBound 2)
    (∀ p ∈ s.momentsOf [first, second], p.1.Binds p.2.expr) ∧
      (s.momentsOf [first, second]).length = 7 ∧
      ∀ p ∈ s.momentsOf [first, second], ∀ err, (p.1.exec p.2).result = .error err →
        ∃ trace, err = .evaluation ⟨trace, .stepLimit 2⟩ := by
  intro x twice first second s
  -- the program is run through the equations for answers
  have hreport (t : Term) (a : Allowance) : t.evaluate a = _ := Job.report_eq_answer a (.eval t)
  have h : (∀ p ∈ s.momentsOf [first, second], p.1.Binds p.2.expr) ∧
      (s.momentsOf [first, second]).length = 7 := by
    simp [s, first, second, twice, x, Session.new, Allowance.ofBound, Allowance.steps, momentsOf,
      moments, run, runFrom, step, exec, Effect.andThen, Effect.after, store, lastResult, resolve,
      Term.ofExpr, Term.resolve, Scope.get?_set_of_ne, hreport, Job.answer_eval_lam,
      Job.answer_eval_global, Job.answer_eval_passed, Job.answer_eval_app, Job.answer_call_lam_zero,
      Job.answer_call_lam_succ, Job.answer_call_global, Job.answer_call_passed, Outcome.result,
      Outcome.within, Binds, Statement.expr, Expr.freeNames]
  exact ⟨h.1, h.2, (wellScoped_only_runs_out (.ofBound 2) [first, second] h.1).1⟩

end Session

end LazyLambda
