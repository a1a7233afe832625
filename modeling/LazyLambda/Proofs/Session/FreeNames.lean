/-
# LazyLambda.Proofs.Session.FreeNames — an expression depends on the globals that it uses freely.

Resolving the same expression in two scopes gives terms that are alike, as long as the scopes agree on
the free names of the expression: what they do not agree on is hidden by a parameter. So evaluation
reports the same in both sessions.
-/
import LazyLambda.Proofs.Scope
import LazyLambda.Proofs.Term.Alike
import LazyLambda.Session.Run

namespace LazyLambda

/-- The names that an expression uses without binding them, as often as it does. -/
def Expr.freeNames : Expr → List String
  | .name x => [x]
  | .lambda x body => body.freeNames.filter fun y => y ≠ x
  | .apply f a => f.freeNames ++ a.freeNames

/-! ## Resolution -/

/-- An identifier resolved in any way is named as before. -/
theorem Term.named_resolve (definition? : String → Option Term) (x : String) :
    ((Term.free x).resolve definition?).Named x := by
  rw [resolve]
  cases definition? x <;> rfl

/-- Scopes that agree on what is free and not hidden resolve an expression to terms that are alike. -/
theorem Term.alike_resolve {d d' : String → Option Term} {scope : List String} (e : Expr)
    (h : ∀ x ∈ e.freeNames, x ∉ scope → d x = d' x) :
    Term.Alike scope ((Term.ofExpr e).resolve d) ((Term.ofExpr e).resolve d') := by
  induction e generalizing scope with
  | name x =>
      by_cases hx : x ∈ scope
      · exact .hidden hx (named_resolve d x) (named_resolve d' x)
      · have hd : (Term.free x).resolve d = (Term.free x).resolve d' := by
          rw [resolve, resolve, h x (List.mem_singleton.2 rfl) hx]
        rw [ofExpr, hd]
        exact .refl scope _
  | lambda x body ih =>
      refine .lam x (ih fun y hy hys => ?_)
      have hyx : y ≠ x := fun e => hys (e ▸ List.mem_cons_self)
      have hfree : y ∈ (Expr.lambda x body).freeNames :=
        List.mem_filter.2 ⟨hy, by simpa using hyx⟩
      exact h y hfree fun hmem => hys (List.mem_cons_of_mem x hmem)
  | apply f a ihf iha =>
      refine .app (ihf fun y hy => ?_) (iha fun y hy => ?_)
      · exact h y (List.mem_append_left _ hy)
      · exact h y (List.mem_append_right _ hy)

namespace Session

/-! ## Execution -/

/-- Executing an expression other than a name shows the result of the report on it. -/
theorem exec_bare_result {e : Expr} (he : ∀ x, e ≠ .name x) (s : Session) :
    (s.exec (.bare e)).result =
      ((s.resolve e).evaluate s.allowance).result.mapError RunError.evaluation := by
  cases e with
  | name x => exact (he x rfl).elim
  | lambda x body | apply f a =>
      simp only [exec]
      cases ((s.resolve _).evaluate s.allowance).result <;> rfl

/-- `SameOutcome s s' e`: executing the expression in either session makes as many reductions, and shows
the same text or fails with the same error, contexts included. -/
structure SameOutcome (s s' : Session) (e : Expr) : Prop where
  steps_eq : ((s.resolve e).evaluate s.allowance).steps =
    ((s'.resolve e).evaluate s'.allowance).steps
  shown_eq : (s.exec (.bare e)).result.map Term.inspect =
    (s'.exec (.bare e)).result.map Term.inspect

theorem sameOutcome_of_agree {s s' : Session} {e : Expr} (he : ∀ x, e ≠ .name x)
    (ha : s.allowance = s'.allowance)
    (hs : ∀ x ∈ e.freeNames, s.scope.get? x = s'.scope.get? x) : SameOutcome s s' e := by
  have halike : Term.Alike [] (s.resolve e) (s'.resolve e) :=
    Term.alike_resolve e fun x hx _ => hs x hx
  obtain ⟨hsteps, hres⟩ := (Job.Alike.eval halike).report_eq s.allowance
  simp only [Job.report] at hsteps hres
  constructor
  · rw [hsteps, ha]
  · have hcomm (r : Except Failure Term) : (r.mapError RunError.evaluation).map Term.inspect =
        (r.map Term.inspect).mapError RunError.evaluation := by
      cases r <;> rfl
    rw [exec_bare_result he, exec_bare_result he, hcomm, hcomm, hres, ha]

/-- **An expression depends on its free names only.** Sessions with one allowance whose scopes agree on
the free names of an expression, itself no name, execute it with the same outcome. In particular no
definition of a name that is not free in it makes a difference. -/
theorem exec_bare_depends_on_freeNames {e : Expr} (he : ∀ x, e ≠ .name x) :
    (∀ s s' : Session, s.allowance = s'.allowance →
      (∀ x ∈ e.freeNames, s.scope.get? x = s'.scope.get? x) → SameOutcome s s' e) ∧
    ∀ (s : Session) (x : String) (t : Term), x ∉ e.freeNames →
      SameOutcome s { s with scope := s.scope.set x t } e := by
  constructor
  · intro s s' ha hs
    exact sameOutcome_of_agree he ha hs
  · intro s x t hx
    refine sameOutcome_of_agree he rfl fun y hy => ?_
    have hyx : y ≠ x := fun h => hx (h ▸ hy)
    exact (Scope.get?_set_of_ne t s.scope hyx).symm

/-- An identity applied to a global, in a session where nothing is called like its parameter and in one
where a global without a meaning is. -/
theorem exec_bare_hidden_global :
    let e : Expr := .apply (.lambda "x" (.name "x")) (.name "y")
    let identity : Term := .lam "z" (.free "z")
    let s : Session := ⟨Scope.empty.set "y" identity, .ofBound 5⟩
    let s' : Session := ⟨(Scope.empty.set "x" (.free "q")).set "y" identity, .ofBound 5⟩
    (∀ x ∈ e.freeNames, s.scope.get? x = s'.scope.get? x) ∧ "x" ∉ e.freeNames ∧
      SameOutcome s s' e ∧ SameOutcome s { s with scope := s.scope.set "x" (.free "q") } e := by
  intro e identity s s'
  have he : ∀ x, e ≠ .name x := fun x => Expr.noConfusion
  have hs : ∀ x ∈ e.freeNames, s.scope.get? x = s'.scope.get? x := by decide
  have hx : "x" ∉ e.freeNames := by decide
  exact ⟨hs, hx, (exec_bare_depends_on_freeNames he).1 s s' rfl hs,
    (exec_bare_depends_on_freeNames he).2 s "x" (.free "q") hx⟩

end Session

end LazyLambda
