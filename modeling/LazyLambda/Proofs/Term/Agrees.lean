/-
# LazyLambda.Proofs.Term.Agrees — terms that come to the same functions.

`t.ComesTo x body` says that some number of reductions leads from `t` to the function of `x` with that
body, and `t.Agrees u` that `t` and `u` come to the same functions. An identifier agrees with what it
stands for, and a function applied to an argument with its body in which the parameter is bound.

Reduction by name looks at the front of a term only. So what agrees may be exchanged in front of
arguments (`Term.Agrees.app`), and this is enough to compute: a function of several parameters, applied to
as many arguments, agrees with its body in which all of them are bound (`Term.agrees_applied`). In the
place of an argument nothing may be exchanged, as functions keep their arguments unevaluated.
-/
import LazyLambda.Proofs.Term.BigStep
import LazyLambda.Proofs.Term.Substitution

namespace LazyLambda.Term

/-! ## Coming to a function -/

/-- Whether evaluation leads to a function, in any number of reductions. -/
def ComesTo (t : Term) (x : String) (body : Term) : Prop := ∃ k, (Job.eval t).Ends k (.value x body)

variable {t u f a body : Term} {x : String} {k : Nat}

theorem comesTo_lam (x : String) (body : Term) : (lam x body).ComesTo x body := ⟨0, .lam x body⟩

/-- Seen from further out, only a function is a function. -/
theorem eq_value_of_within {o : Outcome} {c : Context} (h : o.within c = .value x body) :
    o = .value x body := by
  cases o with
  | value y b => exact h
  | stopped trace stop => cases h

theorem ends_eval_global {y : String} :
    (Job.eval (.global y u)).Ends k (.value x body) ↔ (Job.eval u).Ends k (.value x body) := by
  constructor
  · intro h
    generalize ho : Outcome.value x body = o at h
    cases h with
    | global _ h => exact eq_value_of_within ho.symm ▸ h
  · exact .global y

theorem ends_eval_passed {y : String} :
    (Job.eval (.passed y u)).Ends k (.value x body) ↔ (Job.eval u).Ends k (.value x body) := by
  constructor
  · intro h
    generalize ho : Outcome.value x body = o at h
    cases h with
    | passed _ h => exact eq_value_of_within ho.symm ▸ h
  · exact .passed y

theorem ends_eval_app :
    (Job.eval (.app f a)).Ends k (.value x body) ↔ (Job.call f a).Ends k (.value x body) := by
  constructor
  · intro h
    generalize ho : Outcome.value x body = o at h
    cases h with
    | app h => exact eq_value_of_within ho.symm ▸ h
  · exact .app

theorem ends_call_global {y : String} {o : Outcome} :
    (Job.call (.global y u) a).Ends k o ↔ (Job.call u a).Ends k o := by
  constructor
  · intro h
    cases h with
    | callGlobal _ h => exact h
  · exact .callGlobal y

theorem ends_call_passed {y : String} {o : Outcome} :
    (Job.call (.passed y u) a).Ends k o ↔ (Job.call u a).Ends k o := by
  constructor
  · intro h
    cases h with
    | callPassed _ h => exact h
  · exact .callPassed y

/-- **A call finds its function by evaluation.** It comes to what the body of that function comes to. -/
theorem ends_call_iff : (∃ k, (Job.call f a).Ends k (.value x body)) ↔
    ∃ y b, f.ComesTo y b ∧ (b.subst y a).ComesTo x body := by
  induction f with
  | lam z b _ =>
      constructor
      · rintro ⟨_, h⟩
        cases h with
        | beta h => exact ⟨z, b, comesTo_lam z b, _, h⟩
      · rintro ⟨y, b', ⟨_, hf⟩, k, h⟩
        cases hf
        exact ⟨k + 1, .beta h⟩
  | app g b _ _ =>
      constructor
      · rintro ⟨_, h⟩
        cases h with
        | callApp hg hf =>
            cases hf with
            | beta h => exact ⟨_, _, ⟨_, ends_eval_app.2 hg⟩, _, h⟩
      · rintro ⟨y, b', ⟨j, hf⟩, k, h⟩
        exact ⟨j + (k + 1), .callApp (ends_eval_app.1 hf) (.beta h)⟩
  | free z =>
      constructor
      · rintro ⟨_, h⟩
        cases h
      · rintro ⟨y, b', ⟨_, hf⟩, -⟩
        cases hf
  | global z u ih => simpa only [ends_call_global, ComesTo, ends_eval_global] using ih
  | passed z u ih => simpa only [ends_call_passed, ComesTo, ends_eval_passed] using ih

theorem comesTo_app_iff : (app f a).ComesTo x body ↔
    ∃ y b, f.ComesTo y b ∧ (b.subst y a).ComesTo x body := by
  rw [← ends_call_iff]
  exact exists_congr fun k => ends_eval_app

/-! ## Agreement -/

/-- Whether two terms come to the same functions. -/
def Agrees (t u : Term) : Prop := ∀ x body, t.ComesTo x body ↔ u.ComesTo x body

theorem Agrees.refl (t : Term) : t.Agrees t := fun _ _ => Iff.rfl

theorem Agrees.trans {t u v : Term} (h : t.Agrees u) (h' : u.Agrees v) : t.Agrees v :=
  fun x body => (h x body).trans (h' x body)

theorem agrees_global (x : String) (u : Term) : (global x u).Agrees u :=
  fun _ _ => exists_congr fun _ => ends_eval_global

theorem agrees_passed (x : String) (u : Term) : (passed x u).Agrees u :=
  fun _ _ => exists_congr fun _ => ends_eval_passed

/-- What agrees may be exchanged in front of an argument. -/
theorem Agrees.app (h : f.Agrees t) (a : Term) : (app f a).Agrees (app t a) := by
  intro x body
  rw [comesTo_app_iff, comesTo_app_iff]
  exact exists_congr fun y => exists_congr fun b => and_congr_left fun _ => h y b

theorem agrees_beta (x : String) (body a : Term) : (app (lam x body) a).Agrees (body.subst x a) := by
  intro y b
  rw [comesTo_app_iff]
  constructor
  · rintro ⟨z, c, ⟨_, hf⟩, h⟩
    cases hf
    exact h
  · intro h
    exact ⟨x, body, comesTo_lam x body, h⟩

/-! ## Several parameters and arguments -/

/-- A term applied to arguments, one after the other. -/
def applied (f : Term) (args : List Term) : Term := args.foldl .app f

/-- A function of several parameters. -/
def function (params : List String) (body : Term) : Term := params.foldr .lam body

theorem Agrees.applied (h : t.Agrees u) (args : List Term) : (t.applied args).Agrees (u.applied args) := by
  induction args generalizing t u with
  | nil => exact h
  | cons a args ih => exact ih (h.app a)

/-- The parameters are bound from the first on, so the chain grows at its front. It is generalised to
start with bindings of its own. -/
theorem agrees_applied_bind (c : Chain) (params : List String) (args : List Term)
    (hlen : params.length = args.length) (body : Term) :
    (((function params body).bind c).applied args).Agrees
      (body.bind ((params.zip args).reverse ++ c)) := by
  induction params generalizing c args with
  | nil =>
      obtain rfl : args = [] := List.length_eq_zero_iff.1 hlen.symm
      exact .refl _
  | cons x params ih =>
      obtain ⟨a, args, rfl⟩ := List.exists_cons_of_length_eq_add_one hlen.symm
      have hchain : ((function params body).bind (c.without x)).subst x a =
          (function params body).bind ((x, a) :: c) := by
        rw [← bind_cons]
        refine bind_congr (fun y => ?_) _
        by_cases hy : y = x <;> simp [hy]
      have hfirst : (((function (x :: params) body).bind c).applied (a :: args)).Agrees
          (((function params body).bind ((x, a) :: c)).applied args) := by
        rw [← hchain]
        refine Agrees.applied ?_ args
        show (Term.app ((lam x (function params body)).bind c) a).Agrees _
        rw [bind_lam]
        exact agrees_beta x _ a
      have hrest := ih ((x, a) :: c) args (Nat.succ.inj hlen)
      have hzip : ((x :: params).zip (a :: args)).reverse ++ c =
          (params.zip args).reverse ++ (x, a) :: c := by
        simp
      rw [hzip]
      exact hfirst.trans hrest

/-- **A function of several parameters takes its arguments at once.** -/
theorem agrees_applied {params : List String} (hf : f.Agrees (function params body)) (args : List Term)
    (hlen : params.length = args.length) :
    (f.applied args).Agrees (body.bind (params.zip args).reverse) := by
  have h := agrees_applied_bind [] params args hlen body
  rw [bind_nil, List.append_nil] at h
  exact (hf.applied args).trans h

end LazyLambda.Term
