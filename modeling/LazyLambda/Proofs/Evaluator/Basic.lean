/-
# LazyLambda.Proofs.Evaluator.Basic — evaluators that count their reductions.

An evaluator is kept and asked again and again. It has a bound and a count: each reduction is counted,
and once the count has reached the bound the next reduction is refused. `Evaluator.Works` gives its
rules, one for each case, from whatever count it stands at; asked for a job, it first forgets its count
(`Evaluator.Performs`).

Counting up to a bound and spending a budget are the same. From a given count an evaluator comes to the
one ending that what is left of the bound has room for (`Evaluator.works_iff`), and so it answers what is
reported on the job under its bound, whatever it has done before (`Evaluator.performs_iff`).
-/
import LazyLambda.Proofs.Term.BigStep

namespace LazyLambda

/-! ## Endings that fit are unique -/

/-- A budget has room for one ending only. -/
theorem Job.Ends.unique {j : Job} {k k' n : Nat} {o o' : Outcome} (h : j.Ends k o)
    (hf : o.Fits k n) (h' : j.Ends k' o') (hf' : o'.Fits k' n) : k = k' ∧ o = o' := by
  obtain ⟨left, rfl⟩ := Nat.exists_eq_add_of_le hf.1
  obtain ⟨left', hleft⟩ := Nat.exists_eq_add_of_le hf'.1
  have e : j.answer (k + left) = (o, left) := h.answer_eq hf
  have e' : j.answer (k' + left') = (o', left') := h'.answer_eq (hleft ▸ hf')
  rw [← hleft, e] at e'
  obtain ⟨ho, hl⟩ := Prod.mk.inj e'
  exact ⟨by omega, ho⟩

/-- A call only comes to a function by a reduction. -/
theorem Job.Ends.pos_of_call {f a body : Term} {k : Nat} {x : String}
    (h : (Job.call f a).Ends k (.value x body)) : 0 < k := by
  have hfits : (Outcome.value x body).Fits k (k + 0) := ⟨Nat.le_refl k, by simp⟩
  have e : answer k (.call f a) = (.value x body, 0) := h.answer_eq hfits
  have hlt : (answer k (.call f a)).2 < k := answer_call_lt (by rw [e])
  omega

/-! ## Evaluators -/

/-- An evaluator: the bound on its reductions, where one that is not positive is none, and how many it
has counted. -/
structure Evaluator where
  bound : Int
  count : Nat
  deriving DecidableEq

namespace Evaluator

/-- The evaluator once it has counted `k` more reductions. -/
def after (ev : Evaluator) (k : Nat) : Evaluator := { ev with count := ev.count + k }

/-- The evaluator with its count forgotten. -/
def reset (ev : Evaluator) : Evaluator := { ev with count := 0 }

/-- Whether the bound refuses a further reduction. -/
def IsSpent (ev : Evaluator) : Prop := 0 < ev.bound ∧ ev.bound ≤ ev.count

/-- How many reductions a positive bound still allows. -/
def left (ev : Evaluator) : Nat := ev.bound.toNat - ev.count

theorem after_after (ev : Evaluator) (j k : Nat) : (ev.after j).after k = ev.after (j + k) := by
  simp [after, Nat.add_assoc]

@[simp] theorem bound_after (ev : Evaluator) (k : Nat) : (ev.after k).bound = ev.bound := rfl

@[simp] theorem left_after (ev : Evaluator) (k : Nat) : (ev.after k).left = ev.left - k := by
  simp only [left, after]
  omega

theorem isSpent_iff {ev : Evaluator} : ev.IsSpent ↔ 0 < ev.bound ∧ ev.left = 0 := by
  simp only [IsSpent, left]
  omega

/-- `ev.Works j o ev'`: set to a job, with its count as it stands, the evaluator comes to the outcome and
has counted as `ev'` has. -/
inductive Works : Evaluator → Job → Outcome → Evaluator → Prop
  | lam (ev : Evaluator) (x : String) (body : Term) :
      Works ev (.eval (.lam x body)) (.value x body) ev
  | free (ev : Evaluator) (x : String) : Works ev (.eval (.free x)) (.stopped [] (.unbound x)) ev
  | global {ev ev' : Evaluator} {u : Term} {o : Outcome} (x : String) :
      Works ev (.eval u) o ev' → Works ev (.eval (.global x u)) (o.within (.executing x)) ev'
  | passed {ev ev' : Evaluator} {u : Term} {o : Outcome} (x : String) :
      Works ev (.eval u) o ev' → Works ev (.eval (.passed x u)) (o.within (.executing x)) ev'
  | app {ev ev' : Evaluator} {f a : Term} {o : Outcome} :
      Works ev (.call f a) o ev' → Works ev (.eval (.app f a)) (o.within .calling) ev'
  /-- A reduction is counted before its result is evaluated. -/
  | beta {ev ev' : Evaluator} {x : String} {body a : Term} {o : Outcome} :
      ¬ ev.IsSpent → Works (ev.after 1) (.eval (body.subst x a)) o ev' →
      Works ev (.call (.lam x body) a) o ev'
  | refused {ev : Evaluator} (x : String) (body a : Term) :
      ev.IsSpent → Works ev (.call (.lam x body) a) (.stopped [] .spent) ev
  | callFree (ev : Evaluator) (x : String) (a : Term) :
      Works ev (.call (.free x) a) (.stopped [] (.unbound x)) ev
  | callGlobal {ev ev' : Evaluator} {u a : Term} {o : Outcome} (x : String) :
      Works ev (.call u a) o ev' → Works ev (.call (.global x u) a) o ev'
  | callPassed {ev ev' : Evaluator} {u a : Term} {o : Outcome} (x : String) :
      Works ev (.call u a) o ev' → Works ev (.call (.passed x u) a) o ev'
  /-- The function that the inner call comes to is called with the count that this call leaves. -/
  | callApp {ev ev₁ ev₂ : Evaluator} {g b a : Term} {x : String} {body : Term} {o : Outcome} :
      Works ev (.call g b) (.value x body) ev₁ → Works ev₁ (.call (.lam x body) a) o ev₂ →
      Works ev (.call (.app g b) a) o ev₂
  | callAppStopped {ev ev' : Evaluator} {g b a : Term} {trace : List Context} {stop : Stop} :
      Works ev (.call g b) (.stopped trace stop) ev' →
      Works ev (.call (.app g b) a) (.stopped trace stop) ev'

/-! ## What is left of the bound -/

/-- Whether an evaluator can come to an outcome by `k` more reductions: they fit into what is left of its
bound, or it has none and is never refused one. -/
def Allows (ev : Evaluator) (o : Outcome) (k : Nat) : Prop :=
  if 0 < ev.bound then o.Fits k ev.left else o.isSpent = false

variable {ev ev' ev'' : Evaluator} {j : Job} {o o' : Outcome} {k k' : Nat}

theorem allows_within {c : Context} : ev.Allows (o.within c) k ↔ ev.Allows o k := by
  simp only [Allows, Outcome.Fits, Outcome.isSpent_within]

theorem allows_zero (ho : o.isSpent = false) : ev.Allows o 0 := by
  simp [Allows, Outcome.Fits, ho]

/-- A stop right before a reduction is for an evaluator that refuses it. -/
theorem allows_spent_zero {trace : List Context} :
    ev.Allows (.stopped trace .spent) 0 ↔ ev.IsSpent := by
  rw [isSpent_iff, Allows, Outcome.Fits]
  by_cases hb : 0 < ev.bound
  · simp [hb, Outcome.isSpent, eq_comm]
  · simp [hb, Outcome.isSpent]

theorem allows_succ : ev.Allows o (k + 1) ↔ ¬ ev.IsSpent ∧ (ev.after 1).Allows o k := by
  simp only [isSpent_iff, Allows, Outcome.Fits, bound_after, left_after]
  by_cases hb : 0 < ev.bound
  · cases o.isSpent <;> simp [hb] <;> omega
  · simp [hb]

/-- After a call has come to a function, the rest has to fit into what the call leaves. -/
theorem allows_add {x : String} {body : Term} :
    ev.Allows (.value x body) k ∧ (ev.after k).Allows o k' ↔
      ev.Allows o (k + k') := by
  simp only [Allows, Outcome.Fits, bound_after, left_after, Outcome.isSpent_value]
  by_cases hb : 0 < ev.bound
  · cases o.isSpent <;> simp [hb] <;> omega
  · simp [hb]

/-! ## Counting is spending -/

/-- What an evaluator does is an ending that is allowed, and it has counted as many reductions. -/
theorem Works.ends (h : ev.Works j o ev') : ∃ k, ev' = ev.after k ∧ j.Ends k o ∧ ev.Allows o k := by
  induction h with
  | lam ev x body => exact ⟨0, rfl, .lam x body, allows_zero rfl⟩
  | free ev x => exact ⟨0, rfl, .free x, allows_zero rfl⟩
  | global x _ ih =>
      obtain ⟨k, hev, hk, ha⟩ := ih
      exact ⟨k, hev, .global x hk, allows_within.2 ha⟩
  | passed x _ ih =>
      obtain ⟨k, hev, hk, ha⟩ := ih
      exact ⟨k, hev, .passed x hk, allows_within.2 ha⟩
  | app _ ih =>
      obtain ⟨k, hev, hk, ha⟩ := ih
      exact ⟨k, hev, .app hk, allows_within.2 ha⟩
  | @beta ev ev' x body a o hs _ ih =>
      obtain ⟨k, hev, hk, ha⟩ := ih
      rw [after_after, Nat.add_comm] at hev
      exact ⟨k + 1, hev, .beta hk, allows_succ.2 ⟨hs, ha⟩⟩
  | refused x body a hs => exact ⟨0, rfl, .pause x body a, allows_spent_zero.2 hs⟩
  | callFree ev x a => exact ⟨0, rfl, .callFree x a, allows_zero rfl⟩
  | callGlobal x _ ih =>
      obtain ⟨k, hev, hk, ha⟩ := ih
      exact ⟨k, hev, .callGlobal x hk, ha⟩
  | callPassed x _ ih =>
      obtain ⟨k, hev, hk, ha⟩ := ih
      exact ⟨k, hev, .callPassed x hk, ha⟩
  | callApp _ _ ihg ihf =>
      obtain ⟨j, rfl, hj, hja⟩ := ihg
      obtain ⟨k, hev, hk, ha⟩ := ihf
      rw [after_after] at hev
      exact ⟨j + k, hev, .callApp hj hk, allows_add.1 ⟨hja, ha⟩⟩
  | callAppStopped _ ih =>
      obtain ⟨k, hev, hk, ha⟩ := ih
      exact ⟨k, hev, .callAppStopped hk, ha⟩

/-- An ending that is allowed is what the evaluator does. It is generalised, since the second part of an
application starts with the count that the first leaves. -/
theorem works_of_ends (h : j.Ends k o) (ha : ev.Allows o k) : ev.Works j o (ev.after k) := by
  induction h generalizing ev with
  | lam x body => exact .lam ev x body
  | free x => exact .free ev x
  | global x _ ih => exact .global x (ih (allows_within.1 ha))
  | passed x _ ih => exact .passed x (ih (allows_within.1 ha))
  | app _ ih => exact .app (ih (allows_within.1 ha))
  | @beta x body a k o _ ih =>
      obtain ⟨hs, ha⟩ := allows_succ.1 ha
      have hw := ih ha
      rw [after_after, Nat.add_comm] at hw
      exact .beta hs hw
  | pause x body a => exact .refused x body a (allows_spent_zero.1 ha)
  | callFree x a => exact .callFree ev x a
  | callGlobal x _ ih => exact .callGlobal x (ih ha)
  | callPassed x _ ih => exact .callPassed x (ih ha)
  | @callApp g b a x body j k o _ _ ihg ihf =>
      obtain ⟨hj, hk⟩ : ev.Allows (.value x body) j ∧ (ev.after j).Allows o k := allows_add.2 ha
      have hw := ihf hk
      rw [after_after] at hw
      exact .callApp (ihg hj) hw
  | callAppStopped _ ih => exact .callAppStopped (ih ha)

/-- **Counting up to a bound is spending what is left of it.** -/
theorem works_iff : ev.Works j o ev' ↔ ∃ k, ev' = ev.after k ∧ j.Ends k o ∧ ev.Allows o k := by
  constructor
  · exact Works.ends
  · rintro ⟨k, rfl, hk, ha⟩
    exact works_of_ends hk ha

/-- Two endings that an evaluator allows both fit into some budget. -/
theorem Allows.exists_fits (h : ev.Allows o k) (h' : ev.Allows o' k') :
    ∃ n, o.Fits k n ∧ o'.Fits k' n := by
  unfold Allows at h h'
  split at h
  · next hb =>
      rw [if_pos hb] at h'
      exact ⟨ev.left, h, h'⟩
  · next hb =>
      rw [if_neg hb] at h'
      refine ⟨k + k', ⟨by omega, ?_⟩, ⟨by omega, ?_⟩⟩ <;> simp [h, h']

theorem Works.unique (h : ev.Works j o ev') (h' : ev.Works j o' ev'') : o = o' ∧ ev' = ev'' := by
  obtain ⟨k, rfl, hk, ha⟩ := h.ends
  obtain ⟨k', rfl, hk', ha'⟩ := h'.ends
  obtain ⟨n, hf, hf'⟩ := ha.exists_fits ha'
  obtain ⟨rfl, rfl⟩ := hk.unique hf hk' hf'
  exact ⟨rfl, rfl⟩

/-! ## Answers -/

/-- `ev.Performs j r ev'`: asked for a job, the evaluator forgets its count, goes to work and answers
`r`. -/
def Performs (ev : Evaluator) (j : Job) (r : Except Failure Term) (ev' : Evaluator) : Prop :=
  ∃ o, ev.reset.Works j o ev' ∧ r = o.result (.ofBound ev.bound)

/-- **An evaluator answers what is reported under its bound**, and its count is then the number of
reductions. The count that it had before makes no difference. -/
theorem performs_iff {r : Except Failure Term} : ev.Performs j r ev' ↔
    ev'.bound = ev.bound ∧ Reports ev.bound j.report ⟨r, ev'.count⟩ := by
  have hcounts (o : Outcome) (k : Nat) : ev.reset.Allows o k ↔ o.Counts k ev.bound := Iff.rfl
  rw [Job.reports_iff]
  constructor
  · rintro ⟨o, hw, rfl⟩
    obtain ⟨k, rfl, hk, ha⟩ := hw.ends
    have hcount : (ev.reset.after k).count = k := Nat.zero_add k
    exact ⟨rfl, k, o, hk, (hcounts o k).1 ha, by rw [hcount]⟩
  · rintro ⟨hb, k, o, hk, hc, hr⟩
    obtain ⟨rfl, hcount⟩ := Report.mk.inj hr
    have hev : ev' = ev.reset.after k := by
      cases ev'
      simp_all [reset, after]
    exact ⟨o, hev ▸ works_of_ends hk ((hcounts o k).2 hc), rfl⟩

end Evaluator

end LazyLambda
