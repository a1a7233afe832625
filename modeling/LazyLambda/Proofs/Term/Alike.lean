/-
# LazyLambda.Proofs.Term.Alike — terms that differ only in what a parameter hides.

Globals are resolved under functions too, without a look at their parameters. So an identifier under a
function of its name may be free in one term and stand for any global in another, and still both mean
the parameter. `Term.Alike` relates terms that differ at such identifiers only.

The difference is never seen. The call that binds the parameter replaces both identifiers by the
argument (`Term.Alike.subst`), evaluation meets no identifier before that (`Job.Ends.alike`), and
meanwhile both are written as the name (`Term.Alike.inspect_eq`).
-/
import LazyLambda.Proofs.Term.BigStep
import LazyLambda.Proofs.Term.Substitution

namespace LazyLambda

namespace Term

/-- Whether a term is an identifier of the given name that no argument has replaced. -/
def Named (x : String) : Term → Prop
  | .free y => y = x
  | .global y _ => y = x
  | _ => False

/-- `Alike scope t t'`: the terms differ at most in what the identifiers stand for that are named like a
parameter around them. The parameters in scope are those of the functions around the two. -/
inductive Alike : List String → Term → Term → Prop
  | lam {scope : List String} {body body' : Term} (x : String) :
      Alike (x :: scope) body body' → Alike scope (.lam x body) (.lam x body')
  | app {scope : List String} {f f' a a' : Term} :
      Alike scope f f' → Alike scope a a' → Alike scope (.app f a) (.app f' a')
  | free (scope : List String) (x : String) : Alike scope (.free x) (.free x)
  | global {t t' : Term} (scope : List String) (x : String) :
      Alike [] t t' → Alike scope (.global x t) (.global x t')
  | passed {t t' : Term} (scope : List String) (x : String) :
      Alike [] t t' → Alike scope (.passed x t) (.passed x t')
  | hidden {scope : List String} {x : String} {t t' : Term} :
      x ∈ scope → t.Named x → t'.Named x → Alike scope t t'

/-! ## The relation on terms -/

variable {scope scope' : List String} {t t' arg arg' : Term} {x y : String}

theorem Named.inspect_eq (h : t.Named x) : t.inspect = x := by
  cases t with
  | free y | global y u => exact h
  | lam y body | app f a | passed y u => exact h.elim

theorem Named.subst_self (h : t.Named x) (arg : Term) : t.subst x arg = .passed x arg := by
  cases t with
  | free y =>
      obtain rfl : y = x := h
      exact subst_free_self y arg
  | global y u =>
      obtain rfl : y = x := h
      exact subst_global_self y u arg
  | lam y body | app f a | passed y u => exact h.elim

theorem Named.subst_of_ne (h : t.Named y) (hxy : x ≠ y) (arg : Term) : t.subst x arg = t := by
  cases t with
  | free z =>
      obtain rfl : z = y := h
      exact subst_free_of_ne arg hxy
  | global z u =>
      obtain rfl : z = y := h
      exact subst_global_of_ne u arg hxy
  | lam z body | app f a | passed z u => exact h.elim

theorem Alike.refl (scope : List String) (t : Term) : Alike scope t t := by
  induction t generalizing scope with
  | lam x body ih => exact .lam x (ih (x :: scope))
  | app f a ihf iha => exact .app (ihf scope) (iha scope)
  | free x => exact .free scope x
  | global x t ih => exact .global scope x (ih [])
  | passed x t ih => exact .passed scope x (ih [])

/-- More parameters hide more. -/
theorem Alike.mono (h : Alike scope t t') (hs : ∀ x ∈ scope, x ∈ scope') : Alike scope' t t' := by
  induction h generalizing scope' with
  | @lam scope body body' x _ ih =>
      refine .lam x (ih fun y hy => ?_)
      rcases List.mem_cons.1 hy with rfl | hy
      · exact List.mem_cons_self
      · exact List.mem_cons_of_mem x (hs y hy)
  | app _ _ ihf iha => exact .app (ihf hs) (iha hs)
  | free scope x => exact .free scope' x
  | global scope x h _ => exact .global scope' x h
  | passed scope x h _ => exact .passed scope' x h
  | hidden hx ht ht' => exact .hidden (hs _ hx) ht ht'

/-- **A call undoes the difference.** Once the parameter is replaced, only the other parameters hide
anything. -/
theorem Alike.subst (h : Alike scope t t') (harg : Alike [] arg arg')
    (hs : ∀ y ∈ scope, y ≠ x → y ∈ scope') :
    Alike scope' (t.subst x arg) (t'.subst x arg') := by
  induction h generalizing scope' with
  | @lam scope body body' y hb ih =>
      by_cases hy : x = y
      · -- nothing is replaced under a function of the same parameter
        subst hy
        rw [subst_lam_self, subst_lam_self]
        refine .lam x (hb.mono fun z hz => ?_)
        by_cases hzx : z = x
        · rw [hzx]
          exact List.mem_cons_self
        · exact List.mem_cons_of_mem x (hs z ((List.mem_cons.1 hz).resolve_left hzx) hzx)
      · rw [subst_lam_of_ne _ _ hy, subst_lam_of_ne _ _ hy]
        refine .lam y (ih fun z hz hzx => ?_)
        rcases List.mem_cons.1 hz with rfl | hz
        · exact List.mem_cons_self
        · exact List.mem_cons_of_mem y (hs z hz hzx)
  | app _ _ ihf iha => exact .app (ihf hs) (iha hs)
  | free scope y =>
      by_cases hy : x = y
      · subst hy
        rw [subst_free_self, subst_free_self]
        exact .passed scope' x harg
      · rw [subst_free_of_ne _ hy, subst_free_of_ne _ hy]
        exact .free scope' y
  | global scope y hu _ =>
      by_cases hy : x = y
      · subst hy
        rw [subst_global_self, subst_global_self]
        exact .passed scope' x harg
      · rw [subst_global_of_ne _ _ hy, subst_global_of_ne _ _ hy]
        exact .global scope' y hu
  | passed scope y hu _ =>
      by_cases hy : x = y
      · subst hy
        rw [subst_passed_self, subst_passed_self]
        exact .passed scope' x harg
      · rw [subst_passed_of_ne _ _ hy, subst_passed_of_ne _ _ hy]
        exact .passed scope' y hu
  | @hidden scope y t t' hy ht ht' =>
      by_cases hxy : x = y
      · subst hxy
        rw [ht.subst_self, ht'.subst_self]
        exact .passed scope' x harg
      · rw [ht.subst_of_ne hxy, ht'.subst_of_ne hxy]
        exact .hidden (hs y hy (Ne.symm hxy)) ht ht'

/-- What is hidden is written by name, whatever it stands for. -/
theorem Alike.inspect_eq (h : Alike scope t t') : t.inspect = t'.inspect := by
  induction h with
  | lam x _ ih => rw [inspect, inspect, ih]
  | app _ _ ihf iha => rw [inspect, inspect, ihf, iha]
  | free scope x => rfl
  | global scope x _ _ => rfl
  | passed scope x _ ih => exact ih
  | hidden _ ht ht' => rw [ht.inspect_eq, ht'.inspect_eq]

end Term

/-! ## The relation on runs -/

/-- Jobs about terms that are alike. No function stands around them. -/
inductive Job.Alike : Job → Job → Prop
  | eval {t t' : Term} : Term.Alike [] t t' → Alike (.eval t) (.eval t')
  | call {f f' a a' : Term} :
      Term.Alike [] f f' → Term.Alike [] a a' → Alike (.call f a) (.call f' a')

/-- Functions that are alike, or the same stop in the same contexts. -/
inductive Outcome.Alike : Outcome → Outcome → Prop
  | value {body body' : Term} (x : String) :
      Term.Alike [x] body body' → Alike (.value x body) (.value x body')
  | stopped (trace : List Context) (stop : Stop) : Alike (.stopped trace stop) (.stopped trace stop)

theorem Outcome.Alike.within {o o' : Outcome} (h : o.Alike o') (c : Context) :
    (o.within c).Alike (o'.within c) := by
  cases h with
  | value x h => exact .value x h
  | stopped trace stop => exact .stopped (c :: trace) stop

theorem Outcome.Alike.isSpent_eq {o o' : Outcome} (h : o.Alike o') : o.isSpent = o'.isSpent := by
  cases h <;> rfl

/-- **Jobs that are alike end alike**, after as many reductions. With no function around a job nothing
is hidden in it yet, so that both evaluators look at terms of one kind. -/
theorem Job.Ends.alike {j j' : Job} {k : Nat} {o : Outcome} (h : j.Ends k o) (hj : j.Alike j') :
    ∃ o', j'.Ends k o' ∧ o.Alike o' := by
  induction h generalizing j' with
  | lam x body =>
      obtain ⟨ht⟩ | ⟨⟩ := hj
      cases ht with
      | lam _ hb => exact ⟨_, .lam x _, .value x hb⟩
      | hidden hx => cases hx
  | free x =>
      obtain ⟨ht⟩ | ⟨⟩ := hj
      cases ht with
      | free => exact ⟨_, .free x, .stopped [] _⟩
      | hidden hx => cases hx
  | global x _ ih =>
      obtain ⟨ht⟩ | ⟨⟩ := hj
      cases ht with
      | global _ _ hu =>
          obtain ⟨o', he, ho⟩ := ih (.eval hu)
          exact ⟨_, .global x he, ho.within _⟩
      | hidden hx => cases hx
  | passed x _ ih =>
      obtain ⟨ht⟩ | ⟨⟩ := hj
      cases ht with
      | passed _ _ hu =>
          obtain ⟨o', he, ho⟩ := ih (.eval hu)
          exact ⟨_, .passed x he, ho.within _⟩
      | hidden hx => cases hx
  | app _ ih =>
      obtain ⟨ht⟩ | ⟨⟩ := hj
      cases ht with
      | app hf ha =>
          obtain ⟨o', he, ho⟩ := ih (.call hf ha)
          exact ⟨_, .app he, ho.within _⟩
      | hidden hx => cases hx
  | @beta x body a k o _ ih =>
      obtain ⟨⟩ | ⟨hf, ha⟩ := hj
      cases hf with
      | lam _ hb =>
          -- the parameter was the only one in scope
          have hs : ∀ y ∈ [x], y ≠ x → y ∈ ([] : List String) :=
            fun y hy hne => (hne (List.mem_singleton.1 hy)).elim
          obtain ⟨o', he, ho⟩ := ih (.eval (hb.subst ha hs))
          exact ⟨o', .beta he, ho⟩
      | hidden hx => cases hx
  | pause x body a =>
      obtain ⟨⟩ | ⟨hf, ha⟩ := hj
      cases hf with
      | lam _ hb => exact ⟨_, .pause x _ _, .stopped [] _⟩
      | hidden hx => cases hx
  | callFree x a =>
      obtain ⟨⟩ | ⟨hf, ha⟩ := hj
      cases hf with
      | free => exact ⟨_, .callFree x _, .stopped [] _⟩
      | hidden hx => cases hx
  | callGlobal x _ ih =>
      obtain ⟨⟩ | ⟨hf, ha⟩ := hj
      cases hf with
      | global _ _ hu =>
          obtain ⟨o', he, ho⟩ := ih (.call hu ha)
          exact ⟨o', .callGlobal x he, ho⟩
      | hidden hx => cases hx
  | callPassed x _ ih =>
      obtain ⟨⟩ | ⟨hf, ha⟩ := hj
      cases hf with
      | passed _ _ hu =>
          obtain ⟨o', he, ho⟩ := ih (.call hu ha)
          exact ⟨o', .callPassed x he, ho⟩
      | hidden hx => cases hx
  | @callApp g b a x body j k o _ _ ihg ihf =>
      obtain ⟨⟩ | ⟨hf, ha⟩ := hj
      cases hf with
      | app hg hb =>
          obtain ⟨_, heg, ⟨_, hbody⟩⟩ := ihg (.call hg hb)
          obtain ⟨o', hef, ho⟩ := ihf (.call (.lam x hbody) ha)
          exact ⟨o', .callApp heg hef, ho⟩
      | hidden hx => cases hx
  | callAppStopped _ ih =>
      obtain ⟨⟩ | ⟨hf, ha⟩ := hj
      cases hf with
      | app hg hb =>
          obtain ⟨_, heg, ⟨⟩⟩ := ih (.call hg hb)
          exact ⟨_, .callAppStopped heg, .stopped _ _⟩
      | hidden hx => cases hx

/-- Outcomes that are alike are reported with the same text or the same failure. -/
theorem Outcome.Alike.result_eq {o o' : Outcome} (h : o.Alike o') (a : Allowance) :
    (o.result a).map Term.inspect = (o'.result a).map Term.inspect := by
  cases h with
  | value x hb => exact congrArg Except.ok (Term.Alike.inspect_eq (.lam x hb))
  | stopped trace stop => rfl

/-- Jobs that are alike are reported on alike, under every allowance. -/
theorem Job.Alike.report_eq {j j' : Job} (h : j.Alike j') (a : Allowance) :
    (j.report a).steps = (j'.report a).steps ∧
      (j.report a).result.map Term.inspect = (j'.report a).result.map Term.inspect := by
  obtain ⟨k, o, he, hf⟩ := j.exists_ends a.steps
  obtain ⟨o', he', ho⟩ := he.alike h
  have hf' : o'.Fits k a.steps := by rwa [Outcome.Fits, ← ho.isSpent_eq]
  rw [he.report_eq hf, he'.report_eq hf']
  exact ⟨rfl, ho.result_eq a⟩

end LazyLambda
