/-
# LazyLambda.Proofs.Term.Reading — terms read as λ-terms, and evaluation as their weak head reduction.

`Term.reading` says what a term means. An identifier under a function of its name is that function's
parameter, whatever it stands for; otherwise it is what it stands for, read on its own, or a free name.

Replacing a parameter by name is then the contraction of a redex (`Term.readingIn_subst`): the functions
that hide the parameter are those that bind its name, and nothing that is put in can be captured, since
its reading points at no function outside.

Every derivation of an ending is a reduction with as many steps (`Job.Ends.reduces`). As there is an
ending for every budget and reduction is deterministic, the converse follows: a job comes to a function,
to an unbound name or to a stop exactly when its reading does. `Job.implements` says so of reports.
-/
import LazyLambda.Proofs.Nameless.WeakHead
import LazyLambda.Proofs.Term.BigStep
import LazyLambda.Proofs.Term.Substitution

namespace LazyLambda

open Nameless (Closed ofName Reduces Step)

namespace Term

/-! ## Readings -/

/-- The λ-term that a term denotes under functions with the given parameters, the innermost first. -/
def readingIn : List String → Term → Nameless
  | scope, .lam x body => .abs (body.readingIn (x :: scope))
  | scope, .app f a => .app (f.readingIn scope) (a.readingIn scope)
  | scope, .free x => ofName scope x (.name x)
  | scope, .global x t => ofName scope x (t.readingIn [])
  | scope, .passed x t => ofName scope x (t.readingIn [])

/-- The λ-term that a term denotes. -/
def reading (t : Term) : Nameless := t.readingIn []

theorem closed_readingIn (scope : List String) (t : Term) :
    (t.readingIn scope).Closed scope.length := by
  induction t generalizing scope with
  | lam x body ih => exact ih (x :: scope)
  | app f a ihf iha => exact ⟨ihf scope, iha scope⟩
  | free x => exact Nameless.closed_ofName (show (Nameless.name x).Closed 0 from trivial) x
  | global x t ih => exact Nameless.closed_ofName (ih []) x
  | passed x t ih => exact Nameless.closed_ofName (ih []) x

/-- A parameter further out is not read where one of the same name is in scope. -/
theorem readingIn_append_of_mem {scope : List String} {x : String} (h : x ∈ scope) (t : Term) :
    t.readingIn (scope ++ [x]) = t.readingIn scope := by
  induction t generalizing scope with
  | lam y body ih => exact congrArg Nameless.abs (ih (List.mem_cons_of_mem y h))
  | app f a ihf iha => rw [readingIn, readingIn, ihf h, iha h]
  | free y => exact Nameless.ofName_append_of_mem h y _
  | global y t _ => exact Nameless.ofName_append_of_mem h y _
  | passed y t _ => exact Nameless.ofName_append_of_mem h y _

/-- An identifier is replaced where its name is the parameter's, whatever it stood for. -/
theorem readingIn_subst_identifier {scope : List String} {x y : String} {t arg : Term} {o : Nameless}
    (h : x ∉ scope) (ho : o.Closed 0) (ht : ∀ scope, t.readingIn scope = ofName scope y o)
    (hself : x = y → t.subst x arg = .passed x arg) (hne : x ≠ y → t.subst x arg = t) :
    (t.subst x arg).readingIn scope =
      (t.readingIn (scope ++ [x])).instantiate scope.length arg.reading := by
  have harg : arg.reading.Closed 0 := closed_readingIn [] arg
  rw [ht, Nameless.instantiate_ofName_append h y harg ho]
  by_cases hy : x = y
  · subst hy
    rw [hself rfl, if_pos rfl]
    rfl
  · rw [hne hy, if_neg (Ne.symm hy), ht]

/-- **Replacing a parameter by name is contraction.** The parameter is the outermost in scope here: a
call has no function around it. -/
theorem readingIn_subst {scope : List String} {x : String} (h : x ∉ scope) (t arg : Term) :
    (t.subst x arg).readingIn scope =
      (t.readingIn (scope ++ [x])).instantiate scope.length arg.reading := by
  induction t generalizing scope with
  | lam y body ih =>
      by_cases hy : x = y
      · -- the function hides the parameter, in the text as in its reading
        subst hy
        have hx : x ∈ x :: scope := List.mem_cons_self
        have hc : (body.readingIn (x :: scope)).Closed (scope.length + 1) :=
          closed_readingIn (x :: scope) body
        rw [subst_lam_self]
        simp only [readingIn, Nameless.instantiate, ← List.cons_append]
        rw [readingIn_append_of_mem hx, hc.instantiate_eq]
      · have hx : x ∉ y :: scope := by simp [h, hy]
        rw [subst_lam_of_ne _ _ hy]
        simp only [readingIn, Nameless.instantiate]
        exact congrArg Nameless.abs (ih hx)
  | app f a ihf iha =>
      simp only [subst_app, readingIn, Nameless.instantiate]
      rw [ihf h, iha h]
  | free y =>
      have ho : (Nameless.name y).Closed 0 := trivial
      refine readingIn_subst_identifier h ho (fun _ => rfl) ?_ (subst_free_of_ne arg)
      rintro rfl
      exact subst_free_self x arg
  | global y u _ =>
      refine readingIn_subst_identifier h (closed_readingIn [] u) (fun _ => rfl) ?_
        (subst_global_of_ne u arg)
      rintro rfl
      exact subst_global_self x u arg
  | passed y u _ =>
      refine readingIn_subst_identifier h (closed_readingIn [] u) (fun _ => rfl) ?_
        (subst_passed_of_ne u arg)
      rintro rfl
      exact subst_passed_self x u arg

/-- Binding the parameter of a function is a step of its reading. -/
theorem step_reading_subst (x : String) (body arg : Term) :
    Step (.app (lam x body).reading arg.reading) (body.subst x arg).reading := by
  have h : (body.subst x arg).reading = (body.readingIn [x]).instantiate 0 arg.reading :=
    readingIn_subst List.not_mem_nil body arg
  rw [h]
  exact .beta _ _

end Term

/-! ## Endings are reductions -/

/-- The λ-term that a job is about. -/
def Job.reading : Job → Nameless
  | .eval t => t.reading
  | .call f arg => .app f.reading arg.reading

/-- What an outcome says about the λ-term that it is reached at: it is the function's reading, it has
the unbound name at its head, or it can take a further step. -/
def Outcome.At (u : Nameless) : Outcome → Prop
  | .value x body => (Term.lam x body).reading = u
  | .stopped _ (.unbound x) => u.HeadedBy x
  | .stopped _ .spent => ∃ v, Step u v

theorem Outcome.at_within {u : Nameless} {c : Context} {o : Outcome} :
    (o.within c).At u ↔ o.At u := by
  cases o with
  | value x body => rfl
  | stopped trace stop => cases stop <;> rfl

/-- Where a job does not stop for want of reductions, its reading is at the end. -/
theorem Outcome.At.not_step {u v : Nameless} {o : Outcome} (h : o.At u) (ho : o.isSpent = false) :
    ¬ Step u v := by
  match o with
  | .value x body => exact Nameless.IsAbs.not_step (h ▸ trivial)
  | .stopped _ (.unbound x) => exact Nameless.HeadedBy.not_step h
  | .stopped _ .spent => cases ho

/-- **Every derivation is a reduction** with as many steps. -/
theorem Job.Ends.reduces {j : Job} {k : Nat} {o : Outcome} (h : j.Ends k o) :
    ∃ u, Reduces k j.reading u ∧ o.At u := by
  induction h with
  | lam x body => exact ⟨_, .refl _, rfl⟩
  | free x => exact ⟨.name x, .refl _, rfl⟩
  | global x _ ih | passed x _ ih | app _ ih =>
      obtain ⟨u, hu, ho⟩ := ih
      exact ⟨u, hu, Outcome.at_within.2 ho⟩
  | @beta x body a k o _ ih =>
      obtain ⟨u, hu, ho⟩ := ih
      exact ⟨u, .head (Term.step_reading_subst x body a) hu, ho⟩
  | pause x body a => exact ⟨_, .refl _, _, Term.step_reading_subst x body a⟩
  | callFree x a => exact ⟨.app (.name x) a.reading, .refl _, rfl⟩
  | callGlobal x _ ih | callPassed x _ ih => exact ih
  | @callApp g b a x body j k o _ _ ihg ihf =>
      -- first the function in front, with the argument waiting, then the function that it comes to
      obtain ⟨_, hg, rfl⟩ := ihg
      obtain ⟨u, hu, ho⟩ := ihf
      exact ⟨u, (hg.app a.reading).trans hu, ho⟩
  | @callAppStopped g b a trace stop k _ ih =>
      obtain ⟨u, hu, ho⟩ := ih
      refine ⟨.app u a.reading, hu.app a.reading, ?_⟩
      cases stop with
      | unbound x => exact ho
      | spent =>
          obtain ⟨v, hv⟩ := ho
          exact ⟨.app v a.reading, .head _ hv⟩

/-- **Every reduction is a derivation**: wherever the reading of a job gets to, an ending of the job
with as many reductions says so. The ending is the one that the number of steps has room for. -/
theorem Job.exists_ends_of_reduces {j : Job} {k : Nat} {u : Nameless} (h : Reduces k j.reading u) :
    ∃ o, j.Ends k o ∧ o.At u := by
  obtain ⟨k', o, hk', hf⟩ := j.exists_ends k
  obtain ⟨u', hu', ho⟩ := hk'.reduces
  cases hs : o.isSpent with
  | true =>
      obtain rfl : k' = k := hf.2 hs
      obtain rfl : u' = u := hu'.deterministic h
      exact ⟨o, hk', ho⟩
  | false =>
      obtain ⟨rfl, rfl⟩ := hu'.eq_of_le (fun _ => ho.not_step hs) h hf.1
      exact ⟨o, hk', ho⟩

/-! ## Reports are reductions -/

/-- `Implements bound m report`: under a step bound the reports are those of weak head reduction of the
λ-term. A bound that is not positive is none. -/
structure Implements (bound : Int) (m : Nameless) (report : Allowance → Report) : Prop where
  /-- A function is reported exactly when an abstraction is reached within the bound, with the number of
  steps, and the function denotes it. -/
  value_iff (k : Nat) (u : Nameless) :
    (∃ w, Reports bound report ⟨.ok w, k⟩ ∧ w.reading = u) ↔
      Reduces k m u ∧ u.IsAbs ∧ (0 < bound → (k : Int) ≤ bound)
  /-- An unbound name is reported exactly when a term with that name at its head is reached within the
  bound, with the number of steps. -/
  unbound_iff (k : Nat) (x : String) :
    (∃ trace, Reports bound report ⟨.error ⟨trace, .unbound x⟩, k⟩) ↔
      (∃ u, Reduces k m u ∧ u.HeadedBy x) ∧ (0 < bound → (k : Int) ≤ bound)
  /-- A limit is reported exactly when it is the bound and the term still has a redex at its head after
  that many steps. -/
  limit_iff (limit : Nat) :
    (∃ trace k, Reports bound report ⟨.error ⟨trace, .stepLimit limit⟩, k⟩) ↔
      0 < bound ∧ (limit : Int) = bound ∧ ∃ u v, Reduces limit m u ∧ Step u v

namespace Job

/-- The reports on a job are those of weak head reduction of its reading. -/
theorem implements (bound : Int) (j : Job) : Implements bound j.reading j.report where
  value_iff k u := by
    constructor
    · rintro ⟨w, hw, rfl⟩
      obtain ⟨x, body, rfl, h, hk⟩ := reports_value_iff.1 hw
      obtain ⟨_, hu, rfl⟩ := h.reduces
      exact ⟨hu, trivial, hk⟩
    · rintro ⟨hu, ha, hk⟩
      obtain ⟨o, h, ho⟩ := exists_ends_of_reduces hu
      match o with
      | .value x body => exact ⟨_, reports_value_iff.2 ⟨x, body, rfl, h, hk⟩, ho⟩
      | .stopped _ (.unbound x) => exact (Nameless.HeadedBy.not_isAbs ho ha).elim
      | .stopped _ .spent =>
          obtain ⟨v, hv⟩ := ho
          exact (ha.not_step hv).elim
  unbound_iff k x := by
    constructor
    · rintro ⟨trace, hr⟩
      obtain ⟨h, hk⟩ := reports_unbound_iff.1 hr
      exact ⟨h.reduces, hk⟩
    · rintro ⟨⟨u, hu, hx⟩, hk⟩
      obtain ⟨o, h, ho⟩ := exists_ends_of_reduces hu
      match o with
      | .value y body => exact (hx.not_isAbs (ho ▸ trivial)).elim
      | .stopped trace (.unbound y) =>
          obtain rfl : y = x := Nameless.HeadedBy.unique ho hx
          exact ⟨trace, reports_unbound_iff.2 ⟨h, hk⟩⟩
      | .stopped _ .spent =>
          obtain ⟨v, hv⟩ := ho
          exact (hx.not_step hv).elim
  limit_iff limit := by
    constructor
    · rintro ⟨trace, k, hr⟩
      obtain ⟨hb, hl, rfl, h⟩ := reports_limit_iff.1 hr
      obtain ⟨u, hu, v, hv⟩ := h.reduces
      exact ⟨hb, hl, u, v, hu, hv⟩
    · rintro ⟨hb, hl, u, v, hu, hv⟩
      obtain ⟨o, h, ho⟩ := exists_ends_of_reduces hu
      cases hs : o.isSpent with
      | false => exact (ho.not_step hs hv).elim
      | true =>
          match o with
          | .stopped trace .spent => exact ⟨trace, limit, reports_limit_iff.2 ⟨hb, hl, rfl, h⟩⟩
          | .value _ _ | .stopped _ (.unbound _) => cases hs

end Job

/-- **Evaluation is weak head reduction.** Under every step bound, what is reported on evaluating a term
is what weak head reduction of its reading does, in as many steps; and what is reported on applying a
term to an argument is what it does to the one reading applied to the other. -/
theorem evaluation_implements_weakHead (bound : Int) :
    (∀ t : Term, Implements bound t.reading fun a => t.evaluate a) ∧
    ∀ f arg : Term, Implements bound (.app f.reading arg.reading) fun a => f.call a arg := by
  constructor
  · intro t
    exact Job.implements bound (.eval t)
  · intro f arg
    exact Job.implements bound (.call f arg)

end LazyLambda
