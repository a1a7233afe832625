/-
# LazyLambda.Proofs.Evaluator.Termination — under a bound every evaluation ends.

A job is done by setting the evaluator to inner jobs, and one of these may be far larger than the job
itself: a reduction copies its argument, and the function that an inner call comes to is no part of what
was called. `Evaluator.Inner` has one rule for each of the places where this happens.

Under a positive bound no chain of inner jobs goes on for ever. What is left of the bound never grows. A
reduction lowers it, and so does a call that comes to a function, since it has made a reduction; all other
inner jobs are smaller terms, counting what identifiers stand for (`Evaluator.Inner.decreases`).
-/
import LazyLambda.Proofs.Evaluator.Basic

namespace LazyLambda

/-- How many nodes a term has, together with what its identifiers stand for. -/
def Term.nodes : Term → Nat
  | .lam _ body => body.nodes + 1
  | .app f a => f.nodes + a.nodes + 1
  | .free _ => 1
  | .global _ t => t.nodes + 1
  | .passed _ t => t.nodes + 1

/-- How many nodes there are to go through before a job makes a reduction. -/
def Job.nodes : Job → Nat
  | .eval t => t.nodes
  | .call f _ => f.nodes

namespace Evaluator

/-- `Inner p q`: in doing the job of `q`, the evaluator of `q` is set to the job of `p`, and is then the
evaluator of `p`. -/
inductive Inner : Evaluator × Job → Evaluator × Job → Prop
  | global (ev : Evaluator) (x : String) (u : Term) : Inner (ev, .eval u) (ev, .eval (.global x u))
  | passed (ev : Evaluator) (x : String) (u : Term) : Inner (ev, .eval u) (ev, .eval (.passed x u))
  | app (ev : Evaluator) (f a : Term) : Inner (ev, .call f a) (ev, .eval (.app f a))
  | beta {ev : Evaluator} (x : String) (body a : Term) :
      ¬ ev.IsSpent → Inner (ev.after 1, .eval (body.subst x a)) (ev, .call (.lam x body) a)
  | callGlobal (ev : Evaluator) (x : String) (u a : Term) :
      Inner (ev, .call u a) (ev, .call (.global x u) a)
  | callPassed (ev : Evaluator) (x : String) (u a : Term) :
      Inner (ev, .call u a) (ev, .call (.passed x u) a)
  | callApp (ev : Evaluator) (g b a : Term) : Inner (ev, .call g b) (ev, .call (.app g b) a)
  /-- Where the inner call has come to a function, this is called next. -/
  | callValue {ev ev' : Evaluator} {g b : Term} {x : String} {body : Term} (a : Term) :
      ev.Works (.call g b) (.value x body) ev' →
      Inner (ev', .call (.lam x body) a) (ev, .call (.app g b) a)

variable {ev ev' : Evaluator} {j j' : Job}

theorem Works.bound_eq {o : Outcome} (h : ev.Works j o ev') : ev'.bound = ev.bound := by
  obtain ⟨k, rfl, -, -⟩ := h.ends
  rfl

theorem Inner.bound_eq (h : Inner (ev', j') (ev, j)) : ev'.bound = ev.bound := by
  cases h with
  | callValue a hw => exact hw.bound_eq
  | _ => rfl

/-- A call that comes to a function uses up something of a positive bound. -/
theorem Works.left_lt {g b body : Term} {x : String} (hb : 0 < ev.bound)
    (h : ev.Works (.call g b) (.value x body) ev') : ev'.left < ev.left := by
  obtain ⟨k, rfl, hk, ha⟩ := h.ends
  have hpos : 0 < k := hk.pos_of_call
  rw [Allows, if_pos hb] at ha
  have hle : k ≤ ev.left := ha.1
  rw [left_after]
  omega

/-- **An inner job has less of the bound left, or as much and fewer nodes.** -/
theorem Inner.decreases (hb : 0 < ev.bound) (h : Inner (ev', j') (ev, j)) :
    ev'.left < ev.left ∨ ev'.left = ev.left ∧ j'.nodes < j.nodes := by
  cases h with
  | beta x body a hs =>
      left
      have hleft : ev.left ≠ 0 := fun h0 => hs (isSpent_iff.2 ⟨hb, h0⟩)
      rw [left_after]
      omega
  | callValue a hw => exact Or.inl (hw.left_lt hb)
  | global ev x u | passed ev x u | app ev f a | callGlobal ev x u a | callPassed ev x u a
  | callApp ev g b a =>
      right
      refine ⟨rfl, ?_⟩
      simp only [Job.nodes, Term.nodes]
      omega

/-- **No chain of inner jobs goes on for ever under a positive bound**, from whatever count. -/
theorem acc_inner (ev : Evaluator) (hb : 0 < ev.bound) (j : Job) : Acc Inner (ev, j) := by
  refine Acc.intro _ fun ⟨ev', j'⟩ h => ?_
  have hb' : 0 < ev'.bound := h.bound_eq ▸ hb
  exact acc_inner ev' hb' j'
termination_by (ev.left, j.nodes)
decreasing_by
  rcases h.decreases hb with hlt | ⟨heq, hlt⟩
  · exact Prod.Lex.left _ _ hlt
  · rw [heq]
    exact Prod.Lex.right _ hlt

/-! ## What a bounded evaluation comes to -/

/-- Where no chain of inner jobs goes on for ever, there is an outcome: the inner jobs have theirs, and
they are all that the rules ask for. -/
theorem exists_works_of_acc {p : Evaluator × Job} (h : Acc Inner p) :
    ∃ o ev', p.1.Works p.2 o ev' := by
  induction h with
  | intro p _ ih =>
    obtain ⟨ev, j⟩ := p
    match j with
    | .eval (.lam x body) => exact ⟨_, _, .lam ev x body⟩
    | .eval (.free x) => exact ⟨_, _, .free ev x⟩
    | .eval (.global x u) =>
        obtain ⟨o, ev', hw⟩ := ih _ (.global ev x u)
        exact ⟨_, _, .global x hw⟩
    | .eval (.passed x u) =>
        obtain ⟨o, ev', hw⟩ := ih _ (.passed ev x u)
        exact ⟨_, _, .passed x hw⟩
    | .eval (.app f a) =>
        obtain ⟨o, ev', hw⟩ := ih _ (.app ev f a)
        exact ⟨_, _, .app hw⟩
    | .call (.lam x body) a =>
        by_cases hs : ev.IsSpent
        · exact ⟨_, _, .refused x body a hs⟩
        · obtain ⟨o, ev', hw⟩ := ih _ (.beta x body a hs)
          exact ⟨_, _, .beta hs hw⟩
    | .call (.free x) a => exact ⟨_, _, .callFree ev x a⟩
    | .call (.global x u) a =>
        obtain ⟨o, ev', hw⟩ := ih _ (.callGlobal ev x u a)
        exact ⟨_, _, .callGlobal x hw⟩
    | .call (.passed x u) a =>
        obtain ⟨o, ev', hw⟩ := ih _ (.callPassed ev x u a)
        exact ⟨_, _, .callPassed x hw⟩
    | .call (.app g b) a =>
        obtain ⟨o, ev', hw⟩ := ih _ (.callApp ev g b a)
        cases o with
        | value x body =>
            obtain ⟨o, ev'', hw'⟩ := ih _ (.callValue a hw)
            exact ⟨_, _, .callApp hw hw'⟩
        | stopped trace stop => exact ⟨_, _, .callAppStopped hw⟩

/-- Whether a result is one that an evaluation under a limit may have: a function, or a failure at an
unbound name or at the limit. -/
def IsAnswer (limit : Nat) : Except Failure Term → Prop
  | .ok t => ∃ x body, t = .lam x body
  | .error f => (∃ x, f.cause = .unbound x) ∨ f.cause = .stepLimit limit

theorem isAnswer_result {bound : Int} (hb : 0 < bound) (o : Outcome) :
    IsAnswer bound.toNat (o.result (.ofBound bound)) := by
  match o with
  | .value x body => exact ⟨x, body, rfl⟩
  | .stopped trace (.unbound x) => exact Or.inl ⟨x, rfl⟩
  | .stopped trace .spent =>
      right
      simp [Allowance.cause, Allowance.spentCause, Allowance.ofBound, hb]

/-- **A bounded evaluation always ends.** Under a positive bound the recursion of evaluating and calling
is well-founded at every job and from every count, and it comes to one outcome. Asked for the job, the
evaluator gives the reported answer: a function, or a failure at an unbound name or at the limit. -/
theorem bounded_evaluation_ends (hb : 0 < ev.bound) (j : Job) :
    Acc Inner (ev, j) ∧
    (∃ o ev', ev.Works j o ev' ∧ ∀ o₁ ev₁, ev.Works j o₁ ev₁ → o₁ = o ∧ ev₁ = ev') ∧
    ∃ r, ev.Performs j r.result ⟨ev.bound, r.steps⟩ ∧ j.report (.ofBound ev.bound) = r ∧
      IsAnswer ev.bound.toNat r.result := by
  have hacc : Acc Inner (ev, j) := acc_inner ev hb j
  refine ⟨hacc, ?_, ?_⟩
  · obtain ⟨o, ev', hw⟩ := exists_works_of_acc hacc
    exact ⟨o, ev', hw, fun o₁ ev₁ hw₁ => hw₁.unique hw⟩
  · have hr : Reports ev.bound j.report (j.report (.ofBound ev.bound)) := by
      rw [Reports, if_pos hb]
    obtain ⟨k, o, -, -, ho⟩ := Job.reports_iff.1 hr
    have hanswer : IsAnswer ev.bound.toNat (j.report (.ofBound ev.bound)).result := by
      rw [ho]
      exact isAnswer_result hb o
    exact ⟨_, performs_iff.2 ⟨rfl, hr⟩, rfl, hanswer⟩

/-- A function that calls its argument on itself and once more grows at every reduction. An evaluator that
has counted two of five reductions still ends. -/
theorem bounded_evaluation_ends_growing :
    let body : Term := .app (.app (.free "x") (.free "x")) (.free "x")
    let grow : Term := .lam "x" body
    let ev : Evaluator := ⟨5, 2⟩
    0 < ev.bound ∧ (Term.app grow grow).nodes < (body.subst "x" grow).nodes ∧
      Acc Inner (ev, .call grow grow) ∧
      (∃ o ev', ev.Works (.call grow grow) o ev' ∧
        ∀ o₁ ev₁, ev.Works (.call grow grow) o₁ ev₁ → o₁ = o ∧ ev₁ = ev') ∧
      ∃ r, ev.Performs (.call grow grow) r.result ⟨5, r.steps⟩ ∧ grow.call (.ofBound 5) grow = r ∧
        IsAnswer 5 r.result := by
  intro body grow ev
  have hb : 0 < ev.bound := by decide
  exact ⟨hb, by decide, bounded_evaluation_ends hb (.call grow grow)⟩

end Evaluator

end LazyLambda
