/-
# LazyLambda.Proofs.Session.Moments — the moments at which statements are executed.

A module is run up to the first statement that fails, and the next module goes on in the session that is
left. `Session.momentsOf` lists the statements that are executed on the way, each with the session at that
moment. What a run comes to is what the last of its moments comes to (`exists_moment_runFrom`), so whatever
executing one statement keeps is kept by all modules in turn (`Session.keeps_momentsOf`).
-/
import LazyLambda.Proofs.Scope
import LazyLambda.Session.Run

namespace LazyLambda

/-- The expression that a statement defines a name as, or asks for. -/
def Statement.expr : Statement → Expr
  | .define _ e => e
  | .bare e => e

namespace Session

theorem allowance_exec (s : Session) (st : Statement) :
    (s.exec st).session.allowance = s.allowance := by
  match st with
  | .define x e => rfl
  | .bare (.name x) =>
      simp only [exec]
      cases s.scope.get? x <;> rfl
  | .bare (.lambda x body) | .bare (.apply f a) =>
      simp only [exec]
      split <;> rfl

/-- What executing an expression other than a name comes to, given what is reported on it. -/
theorem exec_bare {e : Expr} (he : ∀ x, e ≠ .name x) (s : Session) :
    s.exec (.bare e) = match ((s.resolve e).evaluate s.allowance).result with
      | .ok t => (s.store lastResult t).after [.evaluated ((s.resolve e).evaluate s.allowance).steps]
      | .error f => ⟨.error (.evaluation f), s, []⟩ := by
  cases e with
  | name x => exact (he x rfl).elim
  | lambda x body | apply f a => rfl

/-- What holds of everything that is defined holds of it after a statement too, and of what the statement
comes to, if it holds of the term and the value of the statement's expression. -/
theorem exec_all {P : Term → Prop} {s : Session} (hs : s.scope.All P) {st : Statement}
    (hterm : P (s.resolve st.expr))
    (hvalue : ∀ t, ((s.resolve st.expr).evaluate s.allowance).result = .ok t → P t) :
    (s.exec st).session.scope.All P ∧ ∀ t, (s.exec st).result = .ok t → P t := by
  match st with
  | .define x e =>
      refine ⟨hs.set x hterm, fun t ht => ?_⟩
      cases ht
      exact hterm
  | .bare (.name x) =>
      simp only [exec]
      cases hx : s.scope.get? x with
      | none => exact ⟨hs, fun t ht => by cases ht⟩
      | some u =>
          refine ⟨hs, fun t ht => ?_⟩
          cases ht
          exact hs x u hx
  | .bare (.lambda x body) | .bare (.apply f a) =>
      rw [exec_bare fun y => Expr.noConfusion]
      split
      · next u hu =>
          have hP : P u := hvalue u hu
          refine ⟨hs.set lastResult hP, fun t ht => ?_⟩
          cases ht
          exact hP
      · exact ⟨hs, fun t ht => by cases ht⟩

/-- A statement fails if it asks for a name that is not defined, or if its evaluation fails. -/
theorem exec_error {s : Session} {st : Statement} {err : RunError} (h : (s.exec st).result = .error err) :
    (∃ x, st = .bare (.name x) ∧ s.scope.get? x = none) ∨
      ∃ f, ((s.resolve st.expr).evaluate s.allowance).result = .error f ∧ err = .evaluation f := by
  match st with
  | .define x e => cases h
  | .bare (.name x) =>
      simp only [exec] at h
      cases hx : s.scope.get? x with
      | none => exact .inl ⟨x, rfl, hx⟩
      | some u =>
          rw [hx] at h
          cases h
  | .bare (.lambda x body) | .bare (.apply f a) =>
      rw [exec_bare fun y => Expr.noConfusion] at h
      split at h
      · cases h
      · next f hf =>
          cases h
          exact .inr ⟨f, hf, rfl⟩

/-! ## Moments -/

/-- The statements of a list that are executed, each with the session at that moment: all up to the first
that fails. -/
def moments (s : Session) : List Statement → List (Session × Statement)
  | [] => []
  | st :: rest =>
    (s, st) ::
      match (s.exec st).result with
      | .ok _ => (s.exec st).session.moments rest
      | .error _ => []

/-- The same for modules that are run one after the other, each in the session that the one before leaves
behind, whether or not it has run to its end. -/
def momentsOf (s : Session) : List Module → List (Session × Statement)
  | [] => []
  | m :: ms => s.moments m.statements ++ (s.run m).session.momentsOf ms

/-- The effects of modules that are run one after the other. -/
def effects (s : Session) : List Module → List (Effect RunError Term)
  | [] => []
  | m :: ms => s.run m :: (s.run m).session.effects ms

theorem result_step (s : Session) (st : Statement) : (s.step st).result = (s.exec st).result := by
  simp only [step]
  split
  · rfl
  · rfl

theorem session_step (s : Session) (st : Statement) : (s.step st).session = (s.exec st).session := by
  simp only [step]
  split
  · rfl
  · rfl

/-- What a run comes to is what the last of its moments comes to. -/
theorem exists_moment_runFrom (s : Session) (st : Statement) (rest : List Statement) :
    ∃ p ∈ s.moments (st :: rest), (s.runFrom st rest).result = (p.1.exec p.2).result ∧
      (s.runFrom st rest).session = (p.1.exec p.2).session := by
  induction rest generalizing s st with
  | nil => exact ⟨(s, st), List.mem_cons_self, result_step s st, session_step s st⟩
  | cons next rest ih =>
      rw [runFrom, Effect.andThen, result_step, session_step, moments]
      cases hr : (s.exec st).result with
      | error err => exact ⟨(s, st), List.mem_cons_self, hr.symm, rfl⟩
      | ok t =>
          obtain ⟨p, hp, hres, hses⟩ := ih (s.exec st).session next
          exact ⟨p, List.mem_cons_of_mem _ hp, hres, hses⟩

/-! ## What is kept -/

section Keeping

variable {P : Session → Prop} {Q : Session × Statement → Prop} {s : Session}

theorem keeps_moments (hkeep : ∀ p : Session × Statement, P p.1 → Q p → P (p.1.exec p.2).session)
    {sts : List Statement} (hs : P s) (h : ∀ p ∈ s.moments sts, Q p) : ∀ p ∈ s.moments sts, P p.1 := by
  induction sts generalizing s with
  | nil =>
      intro p hp
      cases hp
  | cons st rest ih =>
      rw [moments] at h ⊢
      intro p hp
      rcases List.mem_cons.1 hp with rfl | hp
      · exact hs
      · cases hr : (s.exec st).result with
        | error err =>
            rw [hr] at hp
            cases hp
        | ok t =>
            -- the moments that follow start from the session that the statement leaves
            simp only [hr] at h hp
            have hnext : P (s.exec st).session := hkeep (s, st) hs (h (s, st) List.mem_cons_self)
            exact ih hnext (fun q hq => h q (List.mem_cons_of_mem _ hq)) p hp

theorem keeps_run (hkeep : ∀ p : Session × Statement, P p.1 → Q p → P (p.1.exec p.2).session)
    {m : Module} (hs : P s) (h : ∀ p ∈ s.moments m.statements, Q p) : P (s.run m).session := by
  rw [run]
  cases hm : m.statements with
  | nil => exact hs
  | cons st rest =>
      rw [hm] at h
      obtain ⟨p, hp, -, hsession⟩ := exists_moment_runFrom s st rest
      rw [hsession]
      exact hkeep p (keeps_moments hkeep hs h p hp) (h p hp)

/-- **What each statement keeps is kept along modules**: it holds at every moment and after every module. -/
theorem keeps_momentsOf (hkeep : ∀ p : Session × Statement, P p.1 → Q p → P (p.1.exec p.2).session)
    {ms : List Module} (hs : P s) (h : ∀ p ∈ s.momentsOf ms, Q p) :
    (∀ p ∈ s.momentsOf ms, P p.1) ∧ ∀ e ∈ s.effects ms, P e.session := by
  induction ms generalizing s with
  | nil =>
      constructor
      · intro p hp
        cases hp
      · intro e he
        cases he
  | cons m ms ih =>
      have hm : ∀ p ∈ s.moments m.statements, Q p := fun p hp => h p (List.mem_append_left _ hp)
      have hrun : P (s.run m).session := keeps_run hkeep hs hm
      obtain ⟨hmoments, heffects⟩ := ih hrun fun p hp => h p (List.mem_append_right _ hp)
      constructor
      · intro p hp
        rcases List.mem_append.1 hp with hp | hp
        · exact keeps_moments hkeep hs hm p hp
        · exact hmoments p hp
      · intro e he
        rcases List.mem_cons.1 he with rfl | he
        · exact hrun
        · exact heffects e he

end Keeping

/-- What a module comes to is what one of its moments comes to, unless it has none. -/
theorem exists_moment_of_mem_effects {s : Session} {ms : List Module} {e : Effect RunError Term}
    (he : e ∈ s.effects ms) :
    (∃ label, e.result = .error (.noStatements label)) ∨
      ∃ p ∈ s.momentsOf ms, e.result = (p.1.exec p.2).result := by
  induction ms generalizing s with
  | nil => cases he
  | cons m ms ih =>
      rcases List.mem_cons.1 he with rfl | he
      · rw [run, momentsOf]
        cases m.statements with
        | nil => exact .inl ⟨m.label 0, rfl⟩
        | cons st rest =>
            obtain ⟨p, hp, hresult, -⟩ := exists_moment_runFrom s st rest
            exact .inr ⟨p, List.mem_append_left _ hp, hresult⟩
      · rcases ih he with hlabel | ⟨p, hp, hresult⟩
        · exact .inl hlabel
        · exact .inr ⟨p, List.mem_append_right _ hp, hresult⟩

end Session

end LazyLambda
