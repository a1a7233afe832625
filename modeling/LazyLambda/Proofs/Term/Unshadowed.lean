/-
# LazyLambda.Proofs.Term.Unshadowed — arguments that have been passed stay as they are.

Replacing a parameter replaces every identifier of its name, and that includes one that already stands for
the argument of an earlier call. It does no harm as long as no function of a term has such an identifier
of its own parameter's name in its body (`Term.Unshadowed`): then only identifiers that are free or global
are replaced (`Term.subst_eq_fill`).

Evaluation keeps it so. A call leaves the parameter's name behind only where no function hides it, and
what an identifier stands for is not looked into (`Term.Unshadowed.subst`).
-/
import LazyLambda.Proofs.Evaluator.Termination
import LazyLambda.Proofs.Term.Substitution
import Mathlib.Logic.Relation

namespace LazyLambda

namespace Term

/-- All the terms that a term is made of, itself and what its identifiers stand for included. -/
def parts : Term → List Term
  | .lam x body => .lam x body :: body.parts
  | .app f a => .app f a :: (f.parts ++ a.parts)
  | .free x => [.free x]
  | .global x t => .global x t :: t.parts
  | .passed x t => .passed x t :: t.parts

/-- The names of the identifiers of a term that stand for arguments. What identifiers stand for is not
looked into. -/
def passedNames : Term → List String
  | .lam _ body => body.passedNames
  | .app f a => f.passedNames ++ a.passedNames
  | .free _ => []
  | .global _ _ => []
  | .passed x _ => [x]

/-- Whether no function anywhere in a term has, in its body, an identifier of its parameter's name that
stands for an argument. -/
def Unshadowed (t : Term) : Prop := ∀ x body, .lam x body ∈ t.parts → x ∉ body.passedNames

section Cases

variable {x : String} {f a t body : Term}

theorem unshadowed_lam : (lam x body).Unshadowed ↔ x ∉ body.passedNames ∧ body.Unshadowed := by
  constructor
  · intro h
    exact ⟨h x body List.mem_cons_self, fun y b hb => h y b (List.mem_cons_of_mem _ hb)⟩
  · rintro ⟨hx, hbody⟩ y b hb
    rcases List.mem_cons.1 hb with heq | hb
    · cases heq
      exact hx
    · exact hbody y b hb

/-- What is no function adds nothing to its parts. -/
theorem unshadowed_cons {parts : List Term} (hparts : t.parts = t :: parts)
    (ht : ∀ x body, t ≠ lam x body) :
    t.Unshadowed ↔ ∀ x body, .lam x body ∈ parts → x ∉ body.passedNames := by
  rw [Unshadowed, hparts]
  refine forall₂_congr fun x body => ?_
  rw [List.mem_cons, or_iff_right fun heq => ht x body heq.symm]

theorem unshadowed_app : (app f a).Unshadowed ↔ f.Unshadowed ∧ a.Unshadowed := by
  rw [unshadowed_cons rfl fun _ _ => Term.noConfusion]
  constructor
  · intro h
    exact ⟨fun y b hb => h y b (List.mem_append_left _ hb),
      fun y b hb => h y b (List.mem_append_right _ hb)⟩
  · rintro ⟨hf, ha⟩ y b hb
    rcases List.mem_append.1 hb with hb | hb
    · exact hf y b hb
    · exact ha y b hb

theorem unshadowed_free (x : String) : (free x).Unshadowed := by
  intro y b hb
  cases List.mem_singleton.1 hb

theorem unshadowed_global : (global x t).Unshadowed ↔ t.Unshadowed :=
  unshadowed_cons rfl fun _ _ => Term.noConfusion

theorem unshadowed_passed : (passed x t).Unshadowed ↔ t.Unshadowed :=
  unshadowed_cons rfl fun _ _ => Term.noConfusion

end Cases

/-! ## Replacing a parameter -/

/-- The term with an argument in the place of every identifier of a name that is free or global. Those that
stand for an argument keep it. -/
def fill (t : Term) (x : String) (arg : Term) : Term :=
  match t with
  | .lam y body => if x = y then .lam y body else .lam y (body.fill x arg)
  | .app f a => .app (f.fill x arg) (a.fill x arg)
  | .free y => if x = y then .passed y arg else .free y
  | .global y u => if x = y then .passed y arg else .global y u
  | .passed y u => .passed y u

variable {x y : String} {t arg : Term}

/-- **Only identifiers that are free or global are replaced**, if no other has the parameter's name. -/
theorem subst_eq_fill (h : x ∉ t.passedNames) : t.subst x arg = t.fill x arg := by
  induction t with
  | lam y body ih =>
      rw [fill]
      by_cases hy : x = y
      · subst hy
        rw [subst_lam_self, if_pos rfl]
      · rw [subst_lam_of_ne _ _ hy, if_neg hy, ih h]
  | app f a ihf iha =>
      rw [subst_app, fill, ihf fun hx => h (List.mem_append_left _ hx),
        iha fun hx => h (List.mem_append_right _ hx)]
  | free y | global y u _ => rw [subst_of_name? arg rfl, fill]
  | passed y u _ =>
      have hy : x ≠ y := fun heq => h (List.mem_singleton.2 heq)
      rw [subst_passed_of_ne _ _ hy, fill]

/-- The only name that replacing a parameter can add is the parameter's. -/
theorem mem_passedNames_subst (h : y ∈ (t.subst x arg).passedNames) : y = x ∨ y ∈ t.passedNames := by
  induction t with
  | lam z body ih =>
      by_cases hz : x = z
      · subst hz
        rw [subst_lam_self] at h
        exact .inr h
      · rw [subst_lam_of_ne _ _ hz] at h
        exact ih h
  | app f a ihf iha =>
      rw [subst_app] at h
      rcases List.mem_append.1 h with h | h
      · exact (ihf h).imp id (List.mem_append_left _)
      · exact (iha h).imp id (List.mem_append_right _)
  | free z | global z u _ | passed z u _ =>
      rw [subst_of_name? arg rfl] at h
      split at h
      · next hz => exact .inl ((List.mem_singleton.1 h).trans hz.symm)
      · exact .inr h

/-- **Replacing a parameter puts its name under no function that hides it.** -/
theorem Unshadowed.subst (h : t.Unshadowed) (harg : arg.Unshadowed) (x : String) :
    (t.subst x arg).Unshadowed := by
  induction t with
  | lam y body ih =>
      by_cases hy : x = y
      · subst hy
        rwa [subst_lam_self]
      · obtain ⟨hbody, hb⟩ := unshadowed_lam.1 h
        rw [subst_lam_of_ne _ _ hy]
        refine unshadowed_lam.2 ⟨fun hmem => ?_, ih hb⟩
        -- the only name that is added is one that this function does not hide
        rcases mem_passedNames_subst hmem with heq | hmem
        · exact hy heq.symm
        · exact hbody hmem
  | app f a ihf iha =>
      obtain ⟨hf, ha⟩ := unshadowed_app.1 h
      exact unshadowed_app.2 ⟨ihf hf, iha ha⟩
  | free y | global y u _ | passed y u _ =>
      rw [subst_of_name? arg rfl]
      split
      · exact unshadowed_passed.2 harg
      · exact h

end Term

/-! ## Evaluation -/

/-- Whether no function shadows an argument in anything that a job is about. -/
def Job.Unshadowed : Job → Prop
  | .eval t => t.Unshadowed
  | .call f arg => f.Unshadowed ∧ arg.Unshadowed

/-- The same for what a job comes to. -/
def Outcome.Unshadowed : Outcome → Prop
  | .value x body => (Term.lam x body).Unshadowed
  | .stopped _ _ => True

theorem Outcome.unshadowed_within {c : Context} {o : Outcome} :
    (o.within c).Unshadowed ↔ o.Unshadowed := by
  cases o <;> exact Iff.rfl

open Term in
/-- A job comes to a function only that shadows no argument, if none does to begin with. -/
theorem Job.Ends.unshadowed {j : Job} {k : Nat} {o : Outcome} (h : j.Ends k o) (hj : j.Unshadowed) :
    o.Unshadowed := by
  induction h with
  | lam x body => exact hj
  | free x | pause x body a | callFree x a => trivial
  | global x _ ih => exact Outcome.unshadowed_within.2 (ih (unshadowed_global.1 hj))
  | passed x _ ih => exact Outcome.unshadowed_within.2 (ih (unshadowed_passed.1 hj))
  | app _ ih => exact Outcome.unshadowed_within.2 (ih (unshadowed_app.1 hj))
  | @beta x body a k o _ ih => exact ih ((unshadowed_lam.1 hj.1).2.subst hj.2 x)
  | callGlobal x _ ih => exact ih ⟨unshadowed_global.1 hj.1, hj.2⟩
  | callPassed x _ ih => exact ih ⟨unshadowed_passed.1 hj.1, hj.2⟩
  | callApp _ _ ihg ihf => exact ihf ⟨ihg (unshadowed_app.1 hj.1), hj.2⟩
  | callAppStopped _ ih => trivial

namespace Evaluator

variable {ev ev' : Evaluator} {j j' : Job}

theorem Works.unshadowed {o : Outcome} (h : ev.Works j o ev') (hj : j.Unshadowed) : o.Unshadowed := by
  obtain ⟨k, -, hends, -⟩ := h.ends
  exact hends.unshadowed hj

open Term in
/-- **What holds of a job holds of the jobs that it is done by.** -/
theorem Inner.unshadowed (h : Inner (ev', j') (ev, j)) (hj : j.Unshadowed) : j'.Unshadowed := by
  cases h with
  | global ev x u => exact unshadowed_global.1 hj
  | passed ev x u => exact unshadowed_passed.1 hj
  | app ev f a => exact unshadowed_app.1 hj
  | beta x body a hs => exact (unshadowed_lam.1 hj.1).2.subst hj.2 x
  | callGlobal ev x u a => exact ⟨unshadowed_global.1 hj.1, hj.2⟩
  | callPassed ev x u a => exact ⟨unshadowed_passed.1 hj.1, hj.2⟩
  | callApp ev g b a => exact unshadowed_app.1 hj.1
  -- the function that is called next is what the inner call came to
  | callValue a hw => exact ⟨hw.unshadowed (unshadowed_app.1 hj.1), hj.2⟩

/-- `Meets p q`: in doing the job of `p`, the evaluator of `p` is at some point set to the job of `q`, and
is then the evaluator of `q`. -/
def Meets (p q : Evaluator × Job) : Prop := Relation.ReflTransGen (fun q p => Inner p q) p q

theorem Meets.unshadowed {p q : Evaluator × Job} (h : Meets p q) (hp : p.2.Unshadowed) :
    q.2.Unshadowed := by
  induction h with
  | refl => exact hp
  | tail _ hstep ih => exact hstep.unshadowed ih

end Evaluator

end LazyLambda
