/-
# LazyLambda.Proofs.Term.Closed — terms in which every name has a meaning.

A term is closed under some parameters if each identifier without a meaning is named like one of them or
like a parameter of a function around it inside the term. What an identifier stands for has no function
around it, so it has to be closed on its own.

Evaluation keeps this: a call replaces the parameter by an argument that is closed
(`Term.ClosedUnder.subst`). So a closed job comes to a closed function or runs out of reductions, and
never meets an unbound name (`Job.Ends.closed`).
-/
import LazyLambda.Proofs.Term.BigStep
import LazyLambda.Proofs.Term.Substitution

namespace LazyLambda

namespace Term

/-- Whether the identifiers without a meaning are all named like one of the parameters in scope, also in
what other identifiers stand for. -/
def ClosedUnder : List String → Term → Prop
  | scope, .lam x body => body.ClosedUnder (x :: scope)
  | scope, .app f a => f.ClosedUnder scope ∧ a.ClosedUnder scope
  | scope, .free x => x ∈ scope
  | _, .global _ t => t.ClosedUnder []
  | _, .passed _ t => t.ClosedUnder []

variable {scope scope' : List String} {x : String} {t arg : Term}

theorem ClosedUnder.mono (h : t.ClosedUnder scope) (hs : ∀ y ∈ scope, y ∈ scope') :
    t.ClosedUnder scope' := by
  induction t generalizing scope scope' with
  | lam x body ih =>
      refine ih h fun y hy => ?_
      rcases List.mem_cons.1 hy with rfl | hy
      · exact List.mem_cons_self
      · exact List.mem_cons_of_mem x (hs y hy)
  | app f a ihf iha => exact ⟨ihf h.1 hs, iha h.2 hs⟩
  | free x => exact hs x h
  | global x u _ | passed x u _ => exact h

/-- **Replacing a parameter by a closed argument** leaves only the other parameters in use. -/
theorem ClosedUnder.subst (h : t.ClosedUnder scope) (harg : arg.ClosedUnder [])
    (hs : ∀ y ∈ scope, y ≠ x → y ∈ scope') : (t.subst x arg).ClosedUnder scope' := by
  induction t generalizing scope scope' with
  | lam y body ih =>
      have hbody : body.ClosedUnder (y :: scope) := h
      by_cases hy : x = y
      · -- the function hides the parameter, so it may stay in use under it
        subst hy
        rw [subst_lam_self]
        refine hbody.mono fun z hz => ?_
        by_cases hzx : z = x
        · exact hzx ▸ List.mem_cons_self
        · exact List.mem_cons_of_mem x (hs z ((List.mem_cons.1 hz).resolve_left hzx) hzx)
      · rw [subst_lam_of_ne _ _ hy]
        refine ih hbody fun z hz hzx => ?_
        rcases List.mem_cons.1 hz with rfl | hz
        · exact List.mem_cons_self
        · exact List.mem_cons_of_mem y (hs z hz hzx)
  | app f a ihf iha => exact ⟨ihf h.1 hs, iha h.2 hs⟩
  | free y =>
      rw [subst_of_name? arg rfl]
      split
      · exact harg
      · next hy => exact hs y h (Ne.symm hy)
  | global y u _ | passed y u _ =>
      rw [subst_of_name? arg rfl]
      split
      · exact harg
      · exact h

end Term

/-! ## Evaluation -/

/-- Whether everything that a job is about is closed. -/
def Job.Closed : Job → Prop
  | .eval t => t.ClosedUnder []
  | .call f arg => f.ClosedUnder [] ∧ arg.ClosedUnder []

/-- What closed jobs come to: a closed function, or a stop for want of reductions. -/
def Outcome.Closed : Outcome → Prop
  | .value x body => body.ClosedUnder [x]
  | .stopped _ (.unbound _) => False
  | .stopped _ .spent => True

theorem Outcome.closed_within {c : Context} {o : Outcome} : (o.within c).Closed ↔ o.Closed := by
  match o with
  | .value x body | .stopped _ (.unbound x) | .stopped _ .spent => exact Iff.rfl

/-- **A closed job never meets an unbound name.** -/
theorem Job.Ends.closed {j : Job} {k : Nat} {o : Outcome} (h : j.Ends k o) (hj : j.Closed) :
    o.Closed := by
  induction h with
  | lam x body => exact hj
  | free x => cases hj
  | global x _ ih | passed x _ ih | app _ ih => exact Outcome.closed_within.2 (ih hj)
  | @beta x body a k o _ ih =>
      -- the parameter was the only one in scope
      have hs : ∀ y ∈ [x], y ≠ x → y ∈ ([] : List String) :=
        fun y hy hne => (hne (List.mem_singleton.1 hy)).elim
      have hbody : body.ClosedUnder [x] := hj.1
      exact ih (hbody.subst hj.2 hs)
  | pause x body a => trivial
  | callFree x a => cases hj.1
  | callGlobal x _ ih | callPassed x _ ih => exact ih hj
  | callApp _ _ ihg ihf => exact ihf ⟨ihg hj.1, hj.2⟩
  | callAppStopped _ ih => exact ih hj.1

/-- A closed job is reported to come to a closed function, or to spend all that is allowed. -/
theorem Job.Closed.report {j : Job} (hj : j.Closed) (a : Allowance) :
    (∃ t, (j.report a).result = .ok t ∧ t.ClosedUnder []) ∨
      ∃ trace, (j.report a).result = .error ⟨trace, a.spentCause⟩ := by
  obtain ⟨k, o, hk, hf⟩ := j.exists_ends a.steps
  have ho : o.Closed := hk.closed hj
  rw [hk.report_eq hf]
  match o with
  | .value x body => exact Or.inl ⟨_, rfl, ho⟩
  | .stopped _ (.unbound x) => exact ho.elim
  | .stopped trace .spent => exact Or.inr ⟨trace, rfl⟩

end LazyLambda
