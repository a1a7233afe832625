/-
# LazyLambda.Proofs.Term.BigStep — evaluation as rules, without a budget.

`Term.run` and `Term.apply` are one recursion under a budget. Here they are one relation without any:
`Job.Ends k o` says that the job makes exactly `k` reductions and comes to `o`. A job may also be
looked at while it is still at work: for every reduction that it makes there is an ending in which it
has been stopped right before.

A budget picks one of these endings, the one that fits: it makes no more reductions than the budget
allows, and a stop for want of reductions uses the budget up. There is always such an ending
(`Job.exists_ends`), and it is what is reported (`Job.Ends.report_eq`). So whatever holds of all
derivations holds of all runs, and later modules argue by induction on derivations alone.
-/
import LazyLambda.Term.Evaluation

namespace LazyLambda

/-! ## Jobs and outcomes -/

/-- What an evaluator is asked to do: to evaluate a term, or to apply one to an argument. -/
inductive Job where
  | eval (t : Term)
  | call (f arg : Term)

/-- What a job comes to. -/
inductive Outcome where
  | value (param : String) (body : Term)
  | stopped (trace : List Context) (stop : Stop)
  deriving DecidableEq

namespace Outcome

/-- The same outcome, seen from further out. -/
def within (c : Context) : Outcome → Outcome
  | .value x body => .value x body
  | .stopped trace stop => .stopped (c :: trace) stop

/-- Whether an outcome is a stop for want of reductions. -/
def isSpent : Outcome → Bool
  | .stopped _ .spent => true
  | _ => false

@[simp] theorem isSpent_value (x : String) (body : Term) : (value x body).isSpent = false := rfl

@[simp] theorem isSpent_within (c : Context) (o : Outcome) : (o.within c).isSpent = o.isSpent := by
  cases o with
  | value x body => rfl
  | stopped trace stop => cases stop <;> rfl

@[simp] theorem isSpent_unbound (trace : List Context) (x : String) :
    (stopped trace (.unbound x)).isSpent = false := rfl

/-- Whether an ending after `k` reductions fits into a budget. A stop for want of reductions has to use
the budget up. -/
def Fits (o : Outcome) (k n : Nat) : Prop := k ≤ n ∧ (o.isSpent = true → k = n)

theorem Fits.within {o : Outcome} {k n : Nat} (h : o.Fits k n) (c : Context) :
    (o.within c).Fits k n := by
  rwa [Fits, isSpent_within]

theorem Fits.of_within {o : Outcome} {c : Context} {k n : Nat} (h : (o.within c).Fits k n) :
    o.Fits k n := by
  rwa [Fits, isSpent_within] at h

/-- What was spent beforehand counts neither for the ending nor for the budget. -/
theorem Fits.of_add_left {o : Outcome} {k left : Nat} (j : Nat)
    (h : o.Fits (k + j) (k + j + left)) : o.Fits k (k + left) := by
  refine ⟨by omega, fun ho => ?_⟩
  have := h.2 ho
  omega

end Outcome

namespace Run

variable {n : Nat}

/-- The outcome of a run. -/
def outcome : Run n → Outcome
  | .value x body _ => .value x body
  | .stopped trace stop _ => .stopped trace stop

/-- How many reductions a run leaves. -/
def left : Run n → Nat
  | .value _ _ left => left.val
  | .stopped _ _ left => left

@[simp] theorem outcome_within (c : Context) (r : Run n) :
    (r.within c).outcome = r.outcome.within c := by
  cases r <;> rfl

@[simp] theorem left_within (c : Context) (r : Run n) : (r.within c).left = r.left := by
  cases r <;> rfl

@[simp] theorem outcome_widen {m : Nat} (h : m ≤ n) (r : Run m) :
    (r.widen h).outcome = r.outcome := by
  cases r <;> rfl

@[simp] theorem left_widen {m : Nat} (h : m ≤ n) (r : Run m) : (r.widen h).left = r.left := by
  cases r <;> rfl

/-- A function is only ever reached with fewer reductions left than the run's index. -/
theorem left_lt_of_value {r : Run n} {x : String} {body : Term} (h : r.outcome = .value x body) :
    r.left < n := by
  cases r with
  | value _ _ left => exact left.isLt
  | stopped trace stop left => cases h

end Run

namespace Job

/-- What a job comes to with `n` reductions, and how many of them are left. -/
def answer (n : Nat) : Job → Outcome × Nat
  | .eval t => ((t.run n).outcome, (t.run n).left)
  | .call f arg => ((f.apply n arg).outcome, (f.apply n arg).left)

/-! ## The rules -/

/-- `Ends j k o`: after exactly `k` reductions the job comes to the outcome. A stop for want of
reductions is an ending right before a reduction that could have been made. -/
inductive Ends : Job → Nat → Outcome → Prop
  | lam (x : String) (body : Term) : Ends (.eval (.lam x body)) 0 (.value x body)
  | free (x : String) : Ends (.eval (.free x)) 0 (.stopped [] (.unbound x))
  | global {u : Term} {k : Nat} {o : Outcome} (x : String) :
      Ends (.eval u) k o → Ends (.eval (.global x u)) k (o.within (.executing x))
  | passed {u : Term} {k : Nat} {o : Outcome} (x : String) :
      Ends (.eval u) k o → Ends (.eval (.passed x u)) k (o.within (.executing x))
  | app {f a : Term} {k : Nat} {o : Outcome} :
      Ends (.call f a) k o → Ends (.eval (.app f a)) k (o.within .calling)
  | beta {x : String} {body a : Term} {k : Nat} {o : Outcome} :
      Ends (.eval (body.subst x a)) k o → Ends (.call (.lam x body) a) (k + 1) o
  | pause (x : String) (body a : Term) : Ends (.call (.lam x body) a) 0 (.stopped [] .spent)
  | callFree (x : String) (a : Term) : Ends (.call (.free x) a) 0 (.stopped [] (.unbound x))
  | callGlobal {u a : Term} {k : Nat} {o : Outcome} (x : String) :
      Ends (.call u a) k o → Ends (.call (.global x u) a) k o
  | callPassed {u a : Term} {k : Nat} {o : Outcome} (x : String) :
      Ends (.call u a) k o → Ends (.call (.passed x u) a) k o
  | callApp {g b a : Term} {x : String} {body : Term} {j k : Nat} {o : Outcome} :
      Ends (.call g b) j (.value x body) → Ends (.call (.lam x body) a) k o →
      Ends (.call (.app g b) a) (j + k) o
  | callAppStopped {g b a : Term} {trace : List Context} {stop : Stop} {k : Nat} :
      Ends (.call g b) k (.stopped trace stop) →
      Ends (.call (.app g b) a) k (.stopped trace stop)

/-! ## Equations for answers

One equation for each case of the two recursions, so that nothing below unfolds them again. -/

section Equations

variable (n : Nat) (x : String) (f a u g b body : Term)

theorem answer_eval_lam : answer n (.eval (.lam x body)) = (.value x body, n) := by
  rw [answer, Term.run]
  rfl

theorem answer_eval_free : answer n (.eval (.free x)) = (.stopped [] (.unbound x), n) := by
  rw [answer, Term.run]
  rfl

theorem answer_eval_global : answer n (.eval (.global x u)) =
    ((answer n (.eval u)).1.within (.executing x), (answer n (.eval u)).2) := by
  rw [answer, Term.run]
  simp only [Run.outcome_within, Run.left_within, answer]

theorem answer_eval_passed : answer n (.eval (.passed x u)) =
    ((answer n (.eval u)).1.within (.executing x), (answer n (.eval u)).2) := by
  rw [answer, Term.run]
  simp only [Run.outcome_within, Run.left_within, answer]

theorem answer_eval_app : answer n (.eval (.app f a)) =
    ((answer n (.call f a)).1.within .calling, (answer n (.call f a)).2) := by
  rw [answer, Term.run]
  simp only [Run.outcome_within, Run.left_within, Run.outcome_widen, Run.left_widen, answer]

theorem answer_call_lam_zero :
    answer 0 (.call (.lam x body) a) = (.stopped [] .spent, 0) := by
  rw [answer, Term.apply]
  rfl

theorem answer_call_lam_succ :
    answer (n + 1) (.call (.lam x body) a) = answer n (.eval (body.subst x a)) := by
  simp only [answer, Term.apply]

theorem answer_call_free : answer n (.call (.free x) a) = (.stopped [] (.unbound x), n) := by
  rw [answer, Term.apply]
  rfl

theorem answer_call_global : answer n (.call (.global x u) a) = answer n (.call u a) := by
  rw [answer, Term.apply]
  rfl

theorem answer_call_passed : answer n (.call (.passed x u) a) = answer n (.call u a) := by
  rw [answer, Term.apply]
  rfl

/-- An application in the place of a function is applied first, and its function then has what is
left of the budget. -/
theorem answer_call_app : answer n (.call (.app g b) a) =
    match (answer n (.call g b)).1 with
    | .value x body => answer (answer n (.call g b)).2 (.call (.lam x body) a)
    | .stopped trace stop => (.stopped trace stop, (answer n (.call g b)).2) := by
  have hg : answer n (.call g b) = ((g.apply n b).outcome, (g.apply n b).left) := rfl
  rw [hg, answer, Term.apply]
  cases g.apply n b with
  | value x body left =>
      simp only [Run.outcome_widen, Run.left_widen]
      rfl
  | stopped trace stop left => rfl

end Equations

/-- A call that comes to a function has made a reduction. -/
theorem answer_call_lt {n : Nat} {f a body : Term} {x : String}
    (h : (answer n (.call f a)).1 = .value x body) : (answer n (.call f a)).2 < n :=
  Run.left_lt_of_value h

/-! ## Runs are derivations -/

/-- The answer of a run is an ending that fits into the budget, and what it leaves is the rest. -/
theorem ends_answer (n : Nat) (j : Job) :
    ∃ k, j.Ends k (j.answer n).1 ∧ (j.answer n).1.Fits k n ∧ k + (j.answer n).2 = n := by
  match j with
  | .eval (.lam x body) =>
      rw [answer_eval_lam]
      exact ⟨0, .lam x body, ⟨Nat.zero_le n, by simp⟩, Nat.zero_add n⟩
  | .eval (.free x) =>
      rw [answer_eval_free]
      exact ⟨0, .free x, ⟨Nat.zero_le n, by simp⟩, Nat.zero_add n⟩
  | .eval (.global x u) =>
      rw [answer_eval_global]
      obtain ⟨k, hk, hf, hn⟩ := ends_answer n (.eval u)
      exact ⟨k, .global x hk, hf.within _, hn⟩
  | .eval (.passed x u) =>
      rw [answer_eval_passed]
      obtain ⟨k, hk, hf, hn⟩ := ends_answer n (.eval u)
      exact ⟨k, .passed x hk, hf.within _, hn⟩
  | .eval (.app f a) =>
      rw [answer_eval_app]
      obtain ⟨k, hk, hf, hn⟩ := ends_answer n (.call f a)
      exact ⟨k, .app hk, hf.within _, hn⟩
  | .call (.lam x body) a =>
      cases n with
      | zero =>
          rw [answer_call_lam_zero]
          exact ⟨0, .pause x body a, ⟨Nat.le_refl 0, fun _ => rfl⟩, rfl⟩
      | succ m =>
          rw [answer_call_lam_succ]
          obtain ⟨k, hk, ⟨hle, hs⟩, hn⟩ := ends_answer m (.eval (body.subst x a))
          exact ⟨k + 1, .beta hk, ⟨by omega, fun ho => by rw [hs ho]⟩, by omega⟩
  | .call (.free x) a =>
      rw [answer_call_free]
      exact ⟨0, .callFree x a, ⟨Nat.zero_le n, by simp⟩, Nat.zero_add n⟩
  | .call (.global x u) a =>
      rw [answer_call_global]
      obtain ⟨k, hk, hf, hn⟩ := ends_answer n (.call u a)
      exact ⟨k, .callGlobal x hk, hf, hn⟩
  | .call (.passed x u) a =>
      rw [answer_call_passed]
      obtain ⟨k, hk, hf, hn⟩ := ends_answer n (.call u a)
      exact ⟨k, .callPassed x hk, hf, hn⟩
  | .call (.app g b) a =>
      rw [answer_call_app]
      obtain ⟨j, hj, hf, hn⟩ := ends_answer n (.call g b)
      split
      · next x body hv =>
          -- the function found by the inner call has what that call leaves
          rw [hv] at hj
          have hlt : (answer n (.call g b)).2 < n := answer_call_lt hv
          obtain ⟨k, hk, ⟨hle, hs⟩, hn'⟩ :=
            ends_answer (answer n (.call g b)).2 (.call (.lam x body) a)
          refine ⟨j + k, .callApp hj hk, ⟨by omega, fun ho => ?_⟩, by omega⟩
          have hk' := hs ho
          omega
      · next trace stop hv =>
          rw [hv] at hj hf
          exact ⟨j, .callAppStopped hj, hf, hn⟩
termination_by (n, match j with | .eval t => sizeOf t | .call f _ => sizeOf f)

/-- An ending that fits is the answer. The budget is generalised, since what is left after the first
part of an application is the budget of the second. -/
theorem Ends.answer_eq {j : Job} {k : Nat} {o : Outcome} (h : j.Ends k o) {left : Nat}
    (hf : o.Fits k (k + left)) : j.answer (k + left) = (o, left) := by
  induction h generalizing left with
  | lam x body => rw [answer_eval_lam, Nat.zero_add]
  | free x => rw [answer_eval_free, Nat.zero_add]
  | global x _ ih => rw [answer_eval_global, ih hf.of_within]
  | passed x _ ih => rw [answer_eval_passed, ih hf.of_within]
  | app _ ih => rw [answer_eval_app, ih hf.of_within]
  | @beta x body a k o _ ih =>
      have hk : k + 1 + left = (k + left) + 1 := by omega
      rw [hk, answer_call_lam_succ, ih (hf.of_add_left 1)]
  | pause x body a =>
      have hleft : left = 0 := by
        have := hf.2 rfl
        omega
      rw [hleft, answer_call_lam_zero]
  | callFree x a => rw [answer_call_free, Nat.zero_add]
  | callGlobal x _ ih => rw [answer_call_global, ih hf]
  | callPassed x _ ih => rw [answer_call_passed, ih hf]
  | @callApp g b a x body j k o _ _ ihg ihf =>
      have hjk : j + k + left = j + (k + left) := by omega
      have hg : answer (j + (k + left)) (.call g b) = (.value x body, k + left) :=
        ihg ⟨by omega, by simp⟩
      rw [Nat.add_comm j k] at hf
      rw [hjk, answer_call_app, hg]
      exact ihf (hf.of_add_left j)
  | callAppStopped _ ih => rw [answer_call_app, ih hf]

/-! ## Reports -/

/-- The report on a job under an allowance. -/
def report (a : Allowance) : Job → Report
  | .eval t => t.evaluate a
  | .call f arg => f.call a arg

end Job

/-- The result that an outcome stands for under an allowance. -/
def Outcome.result (a : Allowance) : Outcome → Except Failure Term
  | .value x body => .ok (.lam x body)
  | .stopped trace stop => .error ⟨trace, a.cause stop⟩

theorem Run.report_eq {n : Nat} (a : Allowance) (r : Run n) :
    r.report a = ⟨r.outcome.result a, a.steps - r.left⟩ := by
  cases r <;> rfl

namespace Job

theorem report_eq_answer (a : Allowance) (j : Job) :
    j.report a = ⟨(j.answer a.steps).1.result a, a.steps - (j.answer a.steps).2⟩ := by
  cases j with
  | eval t => exact Run.report_eq a _
  | call f arg => exact Run.report_eq a _

/-- The report on a job gives the ending that fits. -/
theorem Ends.report_eq {j : Job} {k : Nat} {o : Outcome} {a : Allowance} (h : j.Ends k o)
    (hf : o.Fits k a.steps) : j.report a = ⟨o.result a, k⟩ := by
  obtain ⟨left, hleft⟩ := Nat.exists_eq_add_of_le hf.1
  have ha : j.answer a.steps = (o, left) := by
    rw [hleft] at hf ⊢
    exact h.answer_eq hf
  rw [report_eq_answer, ha]
  simp only [Report.mk.injEq, true_and]
  omega

/-- There is always an ending that fits. -/
theorem exists_ends (j : Job) (n : Nat) : ∃ k o, j.Ends k o ∧ o.Fits k n := by
  obtain ⟨k, hk, hf, -⟩ := ends_answer n j
  exact ⟨k, _, hk, hf⟩

end Job

/-! ## Reports under a bound -/

/-- What is reported under a step bound in the end. A positive bound is the budget; without one, it is
what is reported as soon as the fuel is enough, and from then on. -/
def Reports (bound : Int) (report : Allowance → Report) (r : Report) : Prop :=
  if 0 < bound then report (.ofBound bound) = r
  else ∃ fuel, ∀ more, fuel ≤ more → report ⟨none, more⟩ = r

/-- Whether an ending after `k` reductions counts under a step bound: it fits, or there is no bound and
it is no stop for want of reductions. -/
def Outcome.Counts (o : Outcome) (k : Nat) (bound : Int) : Prop :=
  if 0 < bound then o.Fits k bound.toNat else o.isSpent = false

theorem Outcome.counts_iff_of_not_isSpent {o : Outcome} {k : Nat} {bound : Int}
    (h : o.isSpent = false) : o.Counts k bound ↔ (0 < bound → (k : Int) ≤ bound) := by
  unfold Counts Fits
  by_cases hb : 0 < bound
  · simp only [if_pos hb, h, Bool.false_eq_true, false_implies, and_true]
    omega
  · simp [hb, h]

theorem Outcome.counts_spent_iff {trace : List Context} {k : Nat} {bound : Int} :
    (Outcome.stopped trace .spent).Counts k bound ↔ 0 < bound ∧ (k : Int) = bound := by
  unfold Counts Fits
  by_cases hb : 0 < bound
  · simp only [if_pos hb, isSpent, forall_const]
    omega
  · simp [hb, isSpent]

theorem Allowance.steps_ofBound {bound : Int} (h : 0 < bound) :
    (Allowance.ofBound bound).steps = bound.toNat := by
  simp [ofBound, steps, h]

/-- Only a stop for want of reductions is reported differently under another allowance. -/
theorem Outcome.result_eq_of_not_isSpent {o : Outcome} (h : o.isSpent = false) (a a' : Allowance) :
    o.result a = o.result a' := by
  match o with
  | .value x body => rfl
  | .stopped trace (.unbound x) => rfl
  | .stopped trace .spent => cases h

/-- Without a limit, only a stop for want of reductions says that the fuel is out. -/
theorem Outcome.isSpent_eq_of_result_eq {o o' : Outcome} {fuel fuel' : Nat}
    (h : o.result ⟨none, fuel⟩ = o'.result ⟨none, fuel'⟩) : o.isSpent = o'.isSpent := by
  match o, o' with
  | .value _ _, .value _ _ => rfl
  | .value _ _, .stopped _ _ => cases h
  | .stopped _ _, .value _ _ => cases h
  | .stopped _ (.unbound _), .stopped _ (.unbound _) => rfl
  | .stopped _ .spent, .stopped _ .spent => rfl
  | .stopped _ (.unbound _), .stopped _ .spent => cases h
  | .stopped _ .spent, .stopped _ (.unbound _) => cases h

namespace Job

/-- Without a bound a job that is reported on has not been stopped: with one more unit of fuel a stop
for want of reductions would come one reduction later. -/
theorem not_isSpent_of_report {j : Job} {k fuel : Nat} {o : Outcome} {r : Report}
    (hr : ∀ more, fuel ≤ more → j.report ⟨none, more⟩ = r) (h : j.Ends k o) (hf : o.Fits k fuel) :
    o.isSpent = false := by
  obtain ⟨k', o', h', hf'⟩ := j.exists_ends (fuel + 1)
  have e : j.report ⟨none, fuel⟩ = ⟨o.result ⟨none, fuel⟩, k⟩ := h.report_eq hf
  have e' : j.report ⟨none, fuel + 1⟩ = ⟨o'.result ⟨none, fuel + 1⟩, k'⟩ := h'.report_eq hf'
  rw [hr fuel (Nat.le_refl fuel)] at e
  rw [hr (fuel + 1) (Nat.le_succ fuel), e] at e'
  obtain ⟨hres, hk⟩ := Report.mk.inj e'
  cases ho : o.isSpent with
  | false => rfl
  | true =>
      have hk₀ : k = fuel := hf.2 ho
      have hk₁ : k' = fuel + 1 := hf'.2 (Outcome.isSpent_eq_of_result_eq hres ▸ ho)
      omega

/-- What is reported under a bound is the ending that counts under it. -/
theorem reports_iff {bound : Int} {j : Job} {r : Report} :
    Reports bound j.report r ↔
      ∃ k o, j.Ends k o ∧ o.Counts k bound ∧ r = ⟨o.result (.ofBound bound), k⟩ := by
  by_cases hb : 0 < bound
  · simp only [Reports, Outcome.Counts, if_pos hb]
    constructor
    · intro hr
      obtain ⟨k, o, h, hf⟩ := j.exists_ends bound.toNat
      refine ⟨k, o, h, hf, ?_⟩
      rw [← hr, h.report_eq (by rwa [Allowance.steps_ofBound hb])]
    · rintro ⟨k, o, h, hf, rfl⟩
      exact h.report_eq (by rwa [Allowance.steps_ofBound hb])
  · simp only [Reports, Outcome.Counts, if_neg hb]
    constructor
    · rintro ⟨fuel, hr⟩
      obtain ⟨k, o, h, hf⟩ := j.exists_ends fuel
      have hs : o.isSpent = false := not_isSpent_of_report hr h hf
      have e : j.report ⟨none, fuel⟩ = ⟨o.result ⟨none, fuel⟩, k⟩ := h.report_eq hf
      refine ⟨k, o, h, hs, ?_⟩
      rw [← hr fuel (Nat.le_refl fuel), e, Outcome.result_eq_of_not_isSpent hs]
    · rintro ⟨k, o, h, hs, rfl⟩
      refine ⟨k, fun more hk => ?_⟩
      have hf : o.Fits k more := ⟨hk, fun ho => by rw [hs] at ho; cases ho⟩
      have e : j.report ⟨none, more⟩ = ⟨o.result ⟨none, more⟩, k⟩ := h.report_eq hf
      rw [e, Outcome.result_eq_of_not_isSpent hs]

variable {bound : Int} {j : Job} {k : Nat}

theorem reports_value_iff {w : Term} : Reports bound j.report ⟨.ok w, k⟩ ↔
    ∃ x body, w = .lam x body ∧ j.Ends k (.value x body) ∧ (0 < bound → (k : Int) ≤ bound) := by
  rw [reports_iff]
  constructor
  · rintro ⟨k', o, h, hc, hr⟩
    obtain ⟨hres, rfl⟩ := Report.mk.inj hr
    cases o with
    | value x body =>
        cases hres
        exact ⟨x, body, rfl, h, (Outcome.counts_iff_of_not_isSpent rfl).1 hc⟩
    | stopped trace stop => cases hres
  · rintro ⟨x, body, rfl, h, hk⟩
    exact ⟨k, .value x body, h, (Outcome.counts_iff_of_not_isSpent rfl).2 hk, rfl⟩

theorem reports_unbound_iff {trace : List Context} {x : String} :
    Reports bound j.report ⟨.error ⟨trace, .unbound x⟩, k⟩ ↔
      j.Ends k (.stopped trace (.unbound x)) ∧ (0 < bound → (k : Int) ≤ bound) := by
  rw [reports_iff]
  constructor
  · rintro ⟨k', o, h, hc, hr⟩
    obtain ⟨hres, rfl⟩ := Report.mk.inj hr
    match o with
    | .value y body => cases hres
    | .stopped _ (.unbound y) =>
        cases hres
        exact ⟨h, (Outcome.counts_iff_of_not_isSpent rfl).1 hc⟩
    | .stopped _ .spent =>
        obtain ⟨hb, -⟩ := Outcome.counts_spent_iff.1 hc
        simp [Outcome.result, Allowance.cause, Allowance.spentCause, Allowance.ofBound, hb] at hres
  · rintro ⟨h, hk⟩
    exact ⟨k, _, h, (Outcome.counts_iff_of_not_isSpent rfl).2 hk, rfl⟩

theorem reports_limit_iff {trace : List Context} {limit : Nat} :
    Reports bound j.report ⟨.error ⟨trace, .stepLimit limit⟩, k⟩ ↔
      0 < bound ∧ (limit : Int) = bound ∧ k = limit ∧ j.Ends k (.stopped trace .spent) := by
  rw [reports_iff]
  constructor
  · rintro ⟨k', o, h, hc, hr⟩
    obtain ⟨hres, rfl⟩ := Report.mk.inj hr
    match o with
    | .value y body => cases hres
    | .stopped _ (.unbound y) => cases hres
    | .stopped _ .spent =>
        obtain ⟨hb, hk⟩ := Outcome.counts_spent_iff.1 hc
        simp only [Outcome.result, Allowance.cause, Allowance.spentCause, Allowance.ofBound,
          if_pos hb, Except.error.injEq, Failure.mk.injEq, Cause.stepLimit.injEq] at hres
        obtain ⟨rfl, rfl⟩ := hres
        exact ⟨hb, by omega, by omega, h⟩
  · rintro ⟨hb, hl, rfl, h⟩
    refine ⟨k, _, h, Outcome.counts_spent_iff.2 ⟨hb, hl⟩, ?_⟩
    have hk : bound.toNat = k := by omega
    simp only [Outcome.result, Allowance.cause, Allowance.spentCause, Allowance.ofBound, if_pos hb,
      hk]

end Job

end LazyLambda
