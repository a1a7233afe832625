/-
# LazyLambda.Proofs.Evaluator.Threshold — a bound shows only where it is reached.

What is reported under one bound without the limit being hit is reported under every other bound that
leaves room for its reductions, contexts and count included (`Job.reports_rebound`). Where there is no
room for them, the limit is hit after exactly as many reductions as it allows (`Job.report_of_lt`): the
ending that fits there has been stopped, since a budget that is large enough has room for one ending only.

An evaluator that is asked again starts its count anew, so that its earlier jobs make no difference.
-/
import LazyLambda.Proofs.Evaluator.Basic

namespace LazyLambda

/-- Whether a report says that a limit has been hit. -/
def Report.HitsLimit (r : Report) : Prop :=
  ∃ trace limit, r.result = .error ⟨trace, .stepLimit limit⟩

/-- A stop for want of reductions hits the limit that a bound sets. -/
theorem Outcome.result_of_isSpent {o : Outcome} {bound : Int} (hb : 0 < bound)
    (ho : o.isSpent = true) :
    ∃ trace, o.result (.ofBound bound) = .error ⟨trace, .stepLimit bound.toNat⟩ := by
  match o with
  | .stopped trace .spent =>
      refine ⟨trace, ?_⟩
      simp only [result, Allowance.cause, Allowance.spentCause, Allowance.ofBound, if_pos hb]
  | .value x body | .stopped trace (.unbound x) => cases ho

namespace Job

variable {j : Job} {bound bound' : Int} {r : Report}

/-- A report that hits no limit is on an ending without a stop for want of reductions. -/
theorem exists_ends_of_not_hitsLimit (h : Reports bound j.report r) (hr : ¬ r.HitsLimit) :
    ∃ o, j.Ends r.steps o ∧ o.isSpent = false ∧ ∀ a, r = ⟨o.result a, r.steps⟩ := by
  obtain ⟨k, o, hk, hc, rfl⟩ := reports_iff.1 h
  have hs : o.isSpent = false := by
    by_cases hb : 0 < bound
    · cases ho : o.isSpent with
      | false => rfl
      | true =>
          obtain ⟨trace, hres⟩ := Outcome.result_of_isSpent hb ho
          exact (hr ⟨trace, _, hres⟩).elim
    · rwa [Outcome.Counts, if_neg hb] at hc
  refine ⟨o, hk, hs, fun a => ?_⟩
  rw [Outcome.result_eq_of_not_isSpent hs a]

/-- **A limit that is not hit makes no difference**: the same is reported under every bound that has room
for as many reductions. -/
theorem reports_rebound (h : Reports bound j.report r) (hr : ¬ r.HitsLimit)
    (hroom : 0 < bound' → (r.steps : Int) ≤ bound') : Reports bound' j.report r := by
  obtain ⟨o, hk, hs, hres⟩ := exists_ends_of_not_hitsLimit h hr
  exact reports_iff.2 ⟨r.steps, o, hk, (Outcome.counts_iff_of_not_isSpent hs).2 hroom, hres _⟩

/-- The report under a positive bound is on the ending that fits into it. -/
theorem exists_ends_report (hb : 0 < bound) (j : Job) :
    ∃ k o, j.Ends k o ∧ o.Fits k bound.toNat ∧
      j.report (.ofBound bound) = ⟨o.result (.ofBound bound), k⟩ := by
  obtain ⟨k, o, hk, hf⟩ := j.exists_ends bound.toNat
  exact ⟨k, o, hk, hf, hk.report_eq (by rwa [Allowance.steps_ofBound hb])⟩

/-- **Where there is no room the limit is hit**, after as many reductions as it allows. -/
theorem report_of_lt (hb : 0 < bound) (h : Reports bound' j.report r) (hr : ¬ r.HitsLimit)
    (hlt : bound < r.steps) :
    ∃ trace, j.report (.ofBound bound) =
      ⟨.error ⟨trace, .stepLimit bound.toNat⟩, bound.toNat⟩ := by
  obtain ⟨o, hk, hs, -⟩ := exists_ends_of_not_hitsLimit h hr
  obtain ⟨k', o', hk', hf', hreport⟩ := exists_ends_report hb j
  have hle : k' ≤ bound.toNat := hf'.1
  cases ho' : o'.isSpent with
  | true =>
      obtain ⟨trace, hres⟩ := Outcome.result_of_isSpent hb ho'
      obtain rfl : k' = bound.toNat := hf'.2 ho'
      exact ⟨trace, by rw [hreport, hres]⟩
  | false =>
      -- neither ending is a stop, so both would fit into the larger budget
      have hf : o.Fits r.steps r.steps := ⟨Nat.le_refl _, fun _ => rfl⟩
      have hf₁ : o'.Fits k' r.steps := ⟨by omega, by simp [ho']⟩
      have heq : r.steps = k' := (hk.unique hf hk' hf₁).1
      omega

end Job

namespace Evaluator

/-- `History ev js ev'`: asked for the jobs one after the other, the evaluator is `ev'` afterwards,
whatever it answers. -/
inductive History : Evaluator → List Job → Evaluator → Prop
  | nil (ev : Evaluator) : History ev [] ev
  | cons {ev ev₁ ev₂ : Evaluator} {j : Job} {js : List Job} {r : Except Failure Term} :
      ev.Performs j r ev₁ → History ev₁ js ev₂ → History ev (j :: js) ev₂

theorem History.bound_eq {ev ev' : Evaluator} {js : List Job} (h : History ev js ev') :
    ev'.bound = ev.bound := by
  induction h with
  | nil ev => rfl
  | cons hp _ ih => rw [ih, (performs_iff.1 hp).1]

end Evaluator

/-- **The bound is an exact threshold.** Let one bound be positive, and another no smaller, or none. No
more reductions are made than the first allows. What is reported under it without a limit being hit is
reported under the other; what is so reported under the other is reported under it if there is room for
the reductions, and otherwise its limit is hit, after as many reductions as it allows. An evaluator
answers what is reported under its bound after any history. -/
theorem bound_is_exact_threshold (bound bound' : Int) (hb : 0 < bound)
    (hb' : bound ≤ bound' ∨ bound' ≤ 0) (j : Job) :
    ((j.report (.ofBound bound)).steps : Int) ≤ bound ∧
    (¬ (j.report (.ofBound bound)).HitsLimit →
      Reports bound' j.report (j.report (.ofBound bound))) ∧
    (∀ r, Reports bound' j.report r → ¬ r.HitsLimit →
      ((r.steps : Int) ≤ bound → j.report (.ofBound bound) = r) ∧
      (bound < r.steps → ∃ trace, j.report (.ofBound bound) =
        ⟨.error ⟨trace, .stepLimit bound.toNat⟩, bound.toNat⟩)) ∧
    ∀ (b : Int) (js : List Job) (ev : Evaluator), Evaluator.History ⟨b, 0⟩ js ev →
      ∀ r ev', ev.Performs j r ev' ↔ ev'.bound = b ∧ Reports b j.report ⟨r, ev'.count⟩ := by
  have hreports (r : Report) : Reports bound j.report r ↔ j.report (.ofBound bound) = r := by
    rw [Reports, if_pos hb]
  have hle : ((j.report (.ofBound bound)).steps : Int) ≤ bound := by
    obtain ⟨k, o, -, hf, hreport⟩ := j.exists_ends_report hb
    have hk : k ≤ bound.toNat := hf.1
    rw [hreport]
    show (k : Int) ≤ bound
    omega
  refine ⟨hle, fun hr => ?_, fun r h hr => ⟨fun hroom => ?_, fun hlt => ?_⟩, ?_⟩
  · exact Job.reports_rebound ((hreports _).2 rfl) hr (by omega)
  · exact (hreports r).1 (Job.reports_rebound h hr fun _ => hroom)
  · exact Job.report_of_lt hb h hr hlt
  · intro b js ev hist r ev'
    rw [Evaluator.performs_iff, hist.bound_eq]

/-- Two identities on each other take two reductions without a bound. With one allowed the limit is hit
after one, and with two allowed the answer is the same, also where the evaluator has hit its limit
before. -/
theorem bound_is_exact_threshold_two_steps :
    let identity : Term := .lam "x" (.free "x")
    let j : Job := .eval (.app identity (.app identity identity))
    Reports 0 j.report ⟨.ok identity, 2⟩ ∧
      (∃ trace, j.report (.ofBound 1) = ⟨.error ⟨trace, .stepLimit 1⟩, 1⟩) ∧
      j.report (.ofBound 2) = ⟨.ok identity, 2⟩ ∧
      ∀ js ev, Evaluator.History ⟨2, 0⟩ js ev → ev.Performs j (.ok identity) ⟨2, 2⟩ := by
  intro identity j
  have hinner : (Job.eval (.app identity identity)).Ends 1 (.value "x" (.free "x")) := by
    have hbeta : (Job.eval ((Term.free "x").subst "x" identity)).Ends 0 (.value "x" (.free "x")) :=
      .passed "x" (.lam "x" (.free "x"))
    exact .app (.beta hbeta)
  have hends : j.Ends 2 (.value "x" (.free "x")) := by
    have hbeta : (Job.eval ((Term.free "x").subst "x" (.app identity identity))).Ends 1
        (.value "x" (.free "x")) := .passed "x" hinner
    exact .app (.beta hbeta)
  have h0 : Reports 0 j.report ⟨.ok identity, 2⟩ :=
    Job.reports_value_iff.2 ⟨"x", .free "x", rfl, hends, by decide⟩
  have hr : ¬ (⟨.ok identity, 2⟩ : Report).HitsLimit := by
    rintro ⟨trace, limit, h⟩
    cases h
  have one := bound_is_exact_threshold 1 0 (by decide) (by decide) j
  have two := bound_is_exact_threshold 2 0 (by decide) (by decide) j
  have htwo : j.report (.ofBound 2) = ⟨.ok identity, 2⟩ := (two.2.2.1 _ h0 hr).1 (by decide)
  refine ⟨h0, (one.2.2.1 _ h0 hr).2 (by decide), htwo, fun js ev hist => ?_⟩
  refine (two.2.2.2 2 js ev hist _ _).2 ⟨rfl, ?_⟩
  rw [Reports, if_pos (by decide), htwo]

end LazyLambda
