/-
# LazyLambda.Proofs.Session.Loading — a failure keeps exactly the work done before it.

Modules are loaded one after the other, and the statements of each are executed in turn, all in one session.
Three loops can stop: over the modules, over the statements, and inside an evaluation. Still there is one
account of what remains. Either no statement fails and no module is empty, and then loading comes to executing
all statements in turn, as if they stood in one module; or there is a first failure
(`Session.FailsAt`), and then loading comes to executing the statements before it.
-/
import LazyLambda.Proofs.Session.Turns
import LazyLambda.Proofs.Term.BigStep
import LazyLambda.Proofs.Term.Substitution

namespace LazyLambda

namespace Effect

variable {ε α β : Type} {e : Effect ε α}

theorem andThen_of_ok {a : α} (h : e.result = .ok a) (next : α → Session → Effect ε β) :
    e.andThen next = (next a e.session).after e.events := by
  rw [andThen, h]

theorem andThen_of_error {err : ε} (h : e.result = .error err) (next : α → Session → Effect ε β) :
    e.andThen next = ⟨.error err, e.session, e.events⟩ := by
  rw [andThen, h]

theorem told_after (events : List Event) (e : Effect ε α) :
    (e.after events).told = events.filterMap Event.told? ++ e.told := by
  rw [told, told, after, List.filterMap_append]

end Effect

namespace Session

variable {s s' : Session} {st : Statement} {vs : List Term} {err : RunError}

/-! ## Runs -/

theorem step_of_ok {v : Term} (h : (s.exec st).result = .ok v) : s.step st = s.exec st := by
  simp only [step, h]

theorem step_of_error (h : (s.exec st).result = .error err) :
    s.step st = ⟨.error err, s, [.failed err st]⟩ := by
  simp only [step, exec_of_error h, List.nil_append]

/-- Behind a statement that succeeds a run goes on. -/
theorem runFrom_of_ok {v : Term} (h : (s.exec st).result = .ok v) (next : Statement)
    (rest : List Statement) :
    s.runFrom st (next :: rest) =
      ((s.exec st).session.runFrom next rest).after (s.exec st).events := by
  rw [runFrom, step_of_ok h, Effect.andThen_of_ok h]

/-- A statement that fails ends a run, whatever comes behind it. -/
theorem runFrom_of_error (h : (s.exec st).result = .error err) (rest : List Statement) :
    s.runFrom st rest = ⟨.error err, s, [.failed err st]⟩ := by
  cases rest with
  | nil => exact step_of_error h
  | cons next rest => rw [runFrom, step_of_error h, Effect.andThen_of_error rfl]

/-- Statements that all succeed run to their end. -/
theorem runFrom_of_yields {rest : List Statement} (h : s.Yields (st :: rest) vs s') :
    (∃ v, (s.runFrom st rest).result = .ok v) ∧ (s.runFrom st rest).session = s' ∧
      (s.runFrom st rest).told = s.toldBy (st :: rest) := by
  induction rest generalizing s st vs with
  | nil =>
      cases h with
      | cons hv hnil =>
          cases hnil
          rw [runFrom, step_of_ok hv, toldBy, toldBy, List.append_nil]
          exact ⟨⟨_, hv⟩, rfl, rfl⟩
  | cons next rest ih =>
      cases h with
      | cons hv hrest =>
          obtain ⟨hresult, hsession, htold⟩ := ih hrest
          rw [runFrom_of_ok hv, Effect.told_after, htold, toldBy]
          exact ⟨hresult, hsession, rfl⟩

/-- A run up to a statement that fails keeps what those before it have done. -/
theorem runFrom_of_failure {bad : Statement} {rest done behind : List Statement}
    (heq : st :: rest = done ++ bad :: behind) (hdone : s.Yields done vs s')
    (hbad : (s'.exec bad).result = .error err) :
    (s.runFrom st rest).result = .error err ∧ (s.runFrom st rest).session = s' ∧
      (s.runFrom st rest).told = s.toldBy done := by
  induction done generalizing s st rest vs with
  | nil =>
      cases hdone
      obtain ⟨rfl, rfl⟩ := List.cons.inj heq
      rw [runFrom_of_error hbad]
      exact ⟨rfl, rfl, rfl⟩
  | cons d done ih =>
      rw [List.cons_append] at heq
      obtain ⟨rfl, rfl⟩ := List.cons.inj heq
      cases hdone with
      | cons hv hrest =>
          -- something comes behind the statement, if only the one that fails
          obtain ⟨next, tail, hnext⟩ : ∃ next tail, done ++ bad :: behind = next :: tail :=
            List.exists_cons_of_ne_nil (List.append_ne_nil_of_right_ne_nil done (List.cons_ne_nil bad behind))
          obtain ⟨hresult, hsession, htold⟩ := ih hnext.symm hrest
          rw [hnext, runFrom_of_ok hv, Effect.told_after, htold, toldBy]
          exact ⟨hresult, hsession, rfl⟩

theorem run_of_yields {m : Module} (hm : m.statements ≠ []) (h : s.Yields m.statements vs s') :
    (∃ v, (s.run m).result = .ok v) ∧ (s.run m).session = s' ∧
      (s.run m).told = s.toldBy m.statements := by
  rw [run]
  cases hst : m.statements with
  | nil => exact (hm hst).elim
  | cons st rest => exact runFrom_of_yields (hst ▸ h)

theorem run_of_failure {m : Module} {bad : Statement} {done behind : List Statement}
    (hm : m.statements = done ++ bad :: behind) (hdone : s.Yields done vs s')
    (hbad : (s'.exec bad).result = .error err) :
    (s.run m).result = .error err ∧ (s.run m).session = s' ∧ (s.run m).told = s.toldBy done := by
  rw [run]
  cases hst : m.statements with
  | nil =>
      rw [hst] at hm
      exact (List.append_ne_nil_of_right_ne_nil done (List.cons_ne_nil bad behind) hm.symm).elim
  | cons st rest => exact runFrom_of_failure (hst.symm.trans hm) hdone hbad

theorem run_of_empty {m : Module} (hm : m.statements = []) :
    s.run m = ⟨.error (.noStatements (m.label 0)), s, []⟩ := by
  rw [run, hm]

/-! ## Loads -/

/-- Loading one module does what running it does, and labels its error. -/
theorem loadOne_eq (s : Session) (m : Module) (index : Nat) :
    (s.loadOne m index).result =
        (match (s.run m).result with
          | .ok _ => .ok ()
          | .error err => .error ⟨m.label index, err⟩) ∧
      (s.loadOne m index).session = (s.run m).session ∧ (s.loadOne m index).told = (s.run m).told := by
  cases hr : (s.run m).result with
  | ok v =>
      have hmap : ((s.run m).mapError (LoadError.mk (m.label index))).result = .ok v :=
        congrArg (Except.mapError _) hr
      rw [loadOne, Effect.andThen_of_ok hmap, Effect.told_after]
      exact ⟨rfl, rfl, List.append_nil _⟩
  | error err =>
      have hmap : ((s.run m).mapError (LoadError.mk (m.label index))).result =
          .error ⟨m.label index, err⟩ := congrArg (Except.mapError _) hr
      rw [loadOne, Effect.andThen_of_error hmap]
      exact ⟨rfl, rfl, rfl⟩

/-- Behind a module that runs to its end loading goes on. -/
theorem loadFrom_of_ok {m : Module} {v : Term} (h : (s.run m).result = .ok v) (index : Nat)
    (ms : List Module) :
    (s.loadFrom index (m :: ms)).result = ((s.run m).session.loadFrom (index + 1) ms).result ∧
      (s.loadFrom index (m :: ms)).session = ((s.run m).session.loadFrom (index + 1) ms).session ∧
      (s.loadFrom index (m :: ms)).told =
        (s.run m).told ++ ((s.run m).session.loadFrom (index + 1) ms).told := by
  obtain ⟨hresult, hsession, htold⟩ := s.loadOne_eq m index
  rw [h] at hresult
  rw [loadFrom, Effect.andThen_of_ok hresult, Effect.told_after, hsession, ← htold]
  exact ⟨rfl, rfl, rfl⟩

/-- A module that fails ends loading, whatever comes behind it. -/
theorem loadFrom_of_error {m : Module} (h : (s.run m).result = .error err) (index : Nat)
    (ms : List Module) :
    (s.loadFrom index (m :: ms)).result = .error ⟨m.label index, err⟩ ∧
      (s.loadFrom index (m :: ms)).session = (s.run m).session ∧
      (s.loadFrom index (m :: ms)).told = (s.run m).told := by
  obtain ⟨hresult, hsession, htold⟩ := s.loadOne_eq m index
  rw [h] at hresult
  rw [loadFrom, Effect.andThen_of_error hresult]
  exact ⟨rfl, hsession, htold⟩

/-- Modules whose statements all succeed load to their end. -/
theorem loadFrom_of_yields (index : Nat) {ms : List Module} (hms : ∀ m ∈ ms, m.statements ≠ [])
    (h : s.Yields (ms.flatMap Module.statements) vs s') :
    (s.loadFrom index ms).result = .ok () ∧ (s.loadFrom index ms).session = s' ∧
      (s.loadFrom index ms).told = s.toldBy (ms.flatMap Module.statements) := by
  induction ms generalizing s index vs with
  | nil =>
      cases h
      exact ⟨rfl, rfl, rfl⟩
  | cons m ms ih =>
      rw [List.forall_mem_cons] at hms
      rw [List.flatMap_cons] at h ⊢
      obtain ⟨vs₁, vs₂, s₁, -, h₁, h₂⟩ := h.of_append
      obtain ⟨⟨v, hv⟩, hsession, htold⟩ := run_of_yields hms.1 h₁
      obtain ⟨hresult', hsession', htold'⟩ := loadFrom_of_ok hv index ms
      obtain ⟨hok, hend, htell⟩ := ih (index + 1) hms.2 h₂
      rw [hresult', hsession', htold', hsession, hok, hend, htell, htold, h₁.toldBy_append]
      exact ⟨rfl, rfl, rfl⟩

/-! ## The first failure -/

/-- `FailsAt s ms j k m s' err`: when the modules are loaded, the first failure is at statement `k` of the
module `m`, the one at index `j`. The modules before it have statements, and these and the first `k` of `m`
all succeed, executed in turn; in the session `s'` after them the next statement fails with the error, or
there is none in all of `m`. -/
structure FailsAt (s : Session) (ms : List Module) (j k : Nat) (m : Module) (s' : Session)
    (err : RunError) : Prop where
  module : ms[j]? = some m
  before : ∀ b ∈ ms.take j, b.statements ≠ []
  work : ∃ vs, s.Yields ((ms.take j).flatMap Module.statements ++ m.statements.take k) vs s'
  failure : m.statements = [] ∧ k = 0 ∧ err = .noStatements (m.label 0) ∨
    ∃ st, m.statements[k]? = some st ∧ (s'.exec st).result = .error err

/-- A module in which the first failure is runs up to there. -/
theorem run_of_failsAt {ms : List Module} {k : Nat} {m : Module} (h : s.FailsAt ms 0 k m s' err) :
    (s.run m).result = .error err ∧ (s.run m).session = s' ∧
      (s.run m).told = s.toldBy (m.statements.take k) := by
  obtain ⟨vs, hwork⟩ := h.work
  rw [List.take_zero, List.flatMap_nil, List.nil_append] at hwork
  rcases h.failure with ⟨hm, rfl, rfl⟩ | ⟨st, hst, herr⟩
  · cases hwork
    rw [run_of_empty hm]
    exact ⟨rfl, rfl, rfl⟩
  · obtain ⟨hk, hget⟩ := List.getElem?_eq_some_iff.1 hst
    have hm : m.statements = m.statements.take k ++ st :: m.statements.drop (k + 1) := by
      rw [← hget, ← List.drop_eq_getElem_cons hk, List.take_append_drop]
    exact run_of_failure hm hwork herr

/-- Behind a module that runs to its end, the first failure is among the modules that are left. -/
theorem failsAt_succ {b m : Module} {ms : List Module} {j k : Nat}
    (h : s.FailsAt (b :: ms) (j + 1) k m s' err) :
    ∃ vs s₁, b.statements ≠ [] ∧ s.Yields b.statements vs s₁ ∧ s₁.FailsAt ms j k m s' err := by
  obtain ⟨hm, hbefore, ⟨vs, hwork⟩, hfailure⟩ := h
  rw [List.take_succ_cons] at hbefore hwork
  rw [List.forall_mem_cons] at hbefore
  rw [List.flatMap_cons, List.append_assoc] at hwork
  obtain ⟨vs₁, vs₂, s₁, -, h₁, h₂⟩ := hwork.of_append
  exact ⟨vs₁, s₁, hbefore.1, h₁, hm, hbefore.2, ⟨vs₂, h₂⟩, hfailure⟩

/-- **Loading up to the first failure** keeps what the statements before it have done. -/
theorem loadFrom_of_failsAt (index : Nat) {ms : List Module} {j k : Nat} {m : Module}
    (h : s.FailsAt ms j k m s' err) :
    (s.loadFrom index ms).result = .error ⟨m.label (index + j), err⟩ ∧
      (s.loadFrom index ms).session = s' ∧
      (s.loadFrom index ms).told =
        s.toldBy ((ms.take j).flatMap Module.statements ++ m.statements.take k) := by
  induction j generalizing s index ms with
  | zero =>
      obtain ⟨rest, rfl⟩ : ∃ rest, ms = m :: rest := by
        cases ms with
        | nil => cases h.module
        | cons b rest => exact ⟨rest, congrArg (· :: rest) (Option.some.inj h.module)⟩
      obtain ⟨hresult, hsession, htold⟩ := run_of_failsAt h
      obtain ⟨hresult', hsession', htold'⟩ := loadFrom_of_error hresult index rest
      exact ⟨hresult', hsession'.trans hsession, htold'.trans htold⟩
  | succ j ih =>
      cases ms with
      | nil => cases h.module
      | cons b rest =>
          -- the first module runs to its end, and the failure is as far into the others
          obtain ⟨vs, s₁, hb, hyields, hrest⟩ := failsAt_succ h
          obtain ⟨⟨v, hv⟩, hsession, htold⟩ := run_of_yields hb hyields
          obtain ⟨hresult', hsession', htold'⟩ := loadFrom_of_ok hv index rest
          obtain ⟨herr, hend, htell⟩ := ih (index + 1) hrest
          have hindex : index + 1 + j = index + (j + 1) := by omega
          rw [hresult', hsession', htold', hsession, herr, hend, htell, htold, hindex,
            List.take_succ_cons, List.flatMap_cons, List.append_assoc, hyields.toldBy_append]
          exact ⟨rfl, rfl, rfl⟩

/-- There is a first failure, or none. -/
theorem failsAt_or_yields (s : Session) (ms : List Module) :
    (∃ j k m s' err, s.FailsAt ms j k m s' err) ∨
      (∀ m ∈ ms, m.statements ≠ []) ∧ ∃ vs s', s.Yields (ms.flatMap Module.statements) vs s' := by
  induction ms generalizing s with
  | nil =>
      right
      refine ⟨fun m hm => ?_, [], s, .nil s⟩
      cases hm
  | cons b ms ih =>
      by_cases hb : b.statements = []
      · left
        refine ⟨0, 0, b, s, _, rfl, fun b' hb' => ?_, ⟨[], .nil s⟩, .inl ⟨hb, rfl, rfl⟩⟩
        cases hb'
      · rcases s.yields_or_fails b.statements with ⟨vs, s₁, h₁⟩ | ⟨done, st, rest, vs, s', err, hst, hdone, herr⟩
        · rcases ih s₁ with ⟨j, k, m, s', err, hm, hbefore, ⟨vs', hwork⟩, hfailure⟩ | ⟨hms, vs', s', h₂⟩
          · left
            refine ⟨j + 1, k, m, s', err, hm, ?_, ⟨vs ++ vs', ?_⟩, hfailure⟩
            · rw [List.take_succ_cons, List.forall_mem_cons]
              exact ⟨hb, hbefore⟩
            · rw [List.take_succ_cons, List.flatMap_cons, List.append_assoc]
              exact h₁.append hwork
          · right
            refine ⟨List.forall_mem_cons.2 ⟨hb, hms⟩, vs ++ vs', s', ?_⟩
            rw [List.flatMap_cons]
            exact h₁.append h₂
        · left
          refine ⟨0, done.length, b, s', err, rfl, fun b' hb' => ?_, ⟨vs, ?_⟩, .inr ⟨st, ?_, herr⟩⟩
          · cases hb'
          · rw [hst, List.take_left]
            exact hdone
          · simp [hst]

/-- The names that are told of are those assigned by the statements that succeed. -/
theorem assigned_of_told {ε α : Type} {e : Effect ε α} {ss : List Statement} (h : s.Yields ss vs s')
    (htold : e.told = s.toldBy ss) : e.assigned = ss.filterMap Statement.assigned? := by
  rw [Effect.assigned_eq_map_told, htold, h.map_toldBy]

/-- **Failures keep exactly the work done before them.** If modules are loaded and the first failure is at
some statement of some module, the session and what is told of assignments are those of the statements
before it, executed in turn, and the error is the one that this statement gives there, under the label of
the module. If nothing fails, they are those of all statements run as one module.

A statement that succeeds gives its target a value, if it has one, and leaves every other name as it was.
It tells of the name that it assigns, the last result aside, when the scope already holds the value. -/
theorem load_keeps_work_before_failure (s : Session) (ms : List Module) :
    (∀ j k m s' err, s.FailsAt ms j k m s' err →
      let work := (ms.take j).flatMap Module.statements ++ m.statements.take k
      (s.load ms).result = .error ⟨m.label j, err⟩ ∧ (s.load ms).session = s' ∧
        (s.load ms).told = s.toldBy work ∧ (s.load ms).assigned = work.filterMap Statement.assigned?) ∧
    ((∀ j k m s' err, ¬ s.FailsAt ms j k m s' err) → ∀ name,
      let all : Module := ⟨name, ms.flatMap Module.statements⟩
      (s.load ms).result = .ok () ∧ (s.load ms).session = (s.run all).session ∧
        (s.load ms).told = (s.run all).told ∧
        (s.load ms).assigned = all.statements.filterMap Statement.assigned?) ∧
    ∀ (r : Session) (st : Statement) (v : Term), (r.exec st).result = .ok v →
      (∀ y, st.target? ≠ some y → (r.exec st).session.scope.get? y = r.scope.get? y) ∧
        (∀ x, st.target? = some x → (r.exec st).session.scope.get? x = some v) ∧
        (r.exec st).told = st.assigned?.toList.map fun x => (x, (r.exec st).session.scope) := by
  refine ⟨fun j k m s' err h => ?_, fun h name => ?_, fun r st v hv => ?_⟩
  · obtain ⟨hresult, hsession, htold⟩ := loadFrom_of_failsAt 0 h
    rw [Nat.zero_add] at hresult
    obtain ⟨vs, hwork⟩ := h.work
    exact ⟨hresult, hsession, htold, assigned_of_told hwork htold⟩
  · rcases s.failsAt_or_yields ms with ⟨j, k, m, s', err, hfails⟩ | ⟨hms, vs, s', hyields⟩
    · exact (h j k m s' err hfails).elim
    · obtain ⟨hresult, hsession, htold⟩ := loadFrom_of_yields 0 hms hyields
      -- without any statement at all the one module would fail, but it would change nothing either
      have hrun : (s.run ⟨name, ms.flatMap Module.statements⟩).session = s' ∧
          (s.run ⟨name, ms.flatMap Module.statements⟩).told = s.toldBy (ms.flatMap Module.statements) := by
        by_cases hall : ms.flatMap Module.statements = []
        · rw [run_of_empty hall]
          rw [hall] at hyields ⊢
          cases hyields
          exact ⟨rfl, rfl⟩
        · exact (run_of_yields hall hyields).2
      exact ⟨hresult, hsession.trans hrun.1.symm, htold.trans hrun.2.symm, assigned_of_told hyields htold⟩
  · obtain ⟨hothers, htarget⟩ := get?_exec_of_ok hv
    exact ⟨hothers, htarget, (exec_of_ok hv).2⟩

/-- The last result is assigned to, which is not told, and a name is defined anew. Then an argument turns out
to be unbound when it is used, deep in an evaluation; the module with it has no name of its own, and the one
behind it is empty. -/
theorem load_keeps_work_before_failure_second_module :
    let id : Expr := .lambda "x" (.name "x")
    let first : Module := ⟨"first", [.define "id" id, .bare id]⟩
    let second : Module := ⟨"", [.define "_" (.name "id"), .define "id" (.name "_"),
      .bare (.apply id (.name "missing")), .define "never" id]⟩
    let ms : List Module := [first, second, ⟨"third", []⟩]
    let s := Session.new (.ofBound 5)
    let err : RunError := .evaluation ⟨[.calling, .executing "x"], .unbound "missing"⟩
    ∃ s', s.FailsAt ms 1 2 second s' err ∧ (s.load ms).result = .error ⟨"#1", err⟩ ∧
      (s.load ms).session = s' ∧ (s.load ms).assigned = ["id", "id"] ∧ s'.scope.names = ["_", "id"] := by
  intro id first second ms s err
  -- evaluations are carried out through the equations for answers
  have hreport (t : Term) (a : Allowance) : t.evaluate a = _ := Job.report_eq_answer a (.eval t)
  let s₁ := (s.exec (.define "id" id)).session
  let s₂ : Session := ⟨s₁.scope.set lastResult (.lam "x" (.free "x")), s₁.allowance⟩
  let s₃ := (s₂.exec (.define "_" (.name "id"))).session
  let s₄ := (s₃.exec (.define "id" (.name "_"))).session
  have hbare : s₁.exec (.bare id) = (s₁.store lastResult (.lam "x" (.free "x"))).after [.evaluated 0] := by
    have hx : s₁.scope.get? "x" = none := by decide
    simp [id, exec, resolve, Term.ofExpr, Term.resolve, hx, hreport, Job.answer_eval_lam, Outcome.result]
  have hbad : (s₄.exec (.bare (.apply id (.name "missing")))).result = .error err := by
    have hx : s₄.scope.get? "x" = none := by decide
    have hmissing : s₄.scope.get? "missing" = none := by decide
    have hsteps : s₄.allowance.steps = 5 := rfl
    simp [id, err, exec, resolve, Term.ofExpr, Term.resolve, hx, hmissing, hsteps, hreport,
      Job.answer_eval_app, Job.answer_call_lam_succ, Job.answer_eval_passed, Job.answer_eval_free,
      Outcome.result, Outcome.within, Allowance.cause]
  have hfails : s.FailsAt ms 1 2 second s₄ err := by
    have hvalue : (s₁.exec (.bare id)).result = .ok (.lam "x" (.free "x")) := congrArg Effect.result hbare
    have hsession : (s₁.exec (.bare id)).session = s₂ := congrArg Effect.session hbare
    have hsecond : s₂.Yields (second.statements.take 2) _ s₄ := .cons rfl (.cons rfl (.nil _))
    rw [← hsession] at hsecond
    exact ⟨rfl, by decide, ⟨_, .cons rfl (.cons hvalue hsecond)⟩, .inr ⟨_, rfl, hbad⟩⟩
  obtain ⟨hresult, hsession, -, hassigned⟩ := (load_keeps_work_before_failure s ms).1 1 2 second s₄ err hfails
  exact ⟨s₄, hfails, hresult, hsession, hassigned, by decide⟩

end Session

end LazyLambda
