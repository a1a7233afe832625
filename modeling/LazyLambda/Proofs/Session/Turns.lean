/-
# LazyLambda.Proofs.Session.Turns — statements in turn, and what is left when one of them fails.

`Session.Yields` says that statements, executed one after the other, all succeed. Running and loading modules
comes down to it: whatever is run or loaded executes some statements with success, in order, and then either
there is no more to do or one more statement fails, which changes nothing and tells nobody
(`Session.exec_of_error`). So a failure keeps exactly the work done before it.

Whoever waits for assignments is told a name, and can look into the scope of that moment; `Effect.told` lists
both.
-/
import LazyLambda.Proofs.Session.Moments

namespace LazyLambda

/-! ## What is told -/

/-- The name that an event assigns, and the scope in which whoever is told will find it. -/
def Event.told? : Event → Option (String × Scope)
  | .stored x scope => if x = Session.lastResult then none else some (x, scope)
  | _ => none

/-- What is told of assignments on the way, in order. -/
def Effect.told {ε α : Type} (e : Effect ε α) : List (String × Scope) := e.events.filterMap Event.told?

/-- The names of what is told are the names assigned. -/
theorem Effect.assigned_eq_map_told {ε α : Type} (e : Effect ε α) : e.assigned = e.told.map Prod.fst := by
  have hevent : Event.assigned? = fun event => event.told?.map Prod.fst := by
    funext event
    cases event with
    | stored x scope =>
        simp only [Event.assigned?, Event.told?]
        split <;> rfl
    | evaluated | failed | loaded => rfl
  rw [Effect.assigned, Effect.told, List.map_filterMap, hevent]

/-- The name that a statement gives a value, if it succeeds. -/
def Statement.target? : Statement → Option String
  | .define x _ => some x
  | .bare (.name _) => none
  | .bare _ => some Session.lastResult

/-- The name that a statement assigns. The last result is no assignment. -/
def Statement.assigned? : Statement → Option String
  | .define x _ => if x = Session.lastResult then none else some x
  | .bare _ => none

namespace Session

/-! ## One statement -/

/-- A statement that fails changes nothing and reports nothing. -/
theorem exec_of_error {s : Session} {st : Statement} {err : RunError}
    (h : (s.exec st).result = .error err) : s.exec st = ⟨.error err, s, []⟩ := by
  match st with
  | .define x e => cases h
  | .bare (.name x) =>
      simp only [exec] at h ⊢
      cases hx : s.scope.get? x with
      | some t =>
          rw [hx] at h
          cases h
      | none =>
          rw [hx] at h
          cases h
          rfl
  | .bare (.lambda x body) | .bare (.apply f a) =>
      rw [exec_bare fun y => Expr.noConfusion] at h ⊢
      split at h
      · cases h
      · cases h
        rfl

/-- A statement that succeeds stores its result under its target, and then tells the name it assigns. -/
theorem exec_of_ok {s : Session} {st : Statement} {v : Term} (h : (s.exec st).result = .ok v) :
    (s.exec st).session.scope = st.target?.elim s.scope (fun x => s.scope.set x v) ∧
      (s.exec st).told = st.assigned?.toList.map fun x => (x, (s.exec st).session.scope) := by
  match st with
  | .define x e =>
      cases h
      refine ⟨rfl, ?_⟩
      by_cases hx : x = lastResult <;> simp [exec, store, Effect.told, Event.told?, Statement.assigned?, hx]
  | .bare (.name x) =>
      simp only [exec] at h ⊢
      cases hx : s.scope.get? x with
      | some t => exact ⟨rfl, rfl⟩
      | none =>
          rw [hx] at h
          cases h
  | .bare (.lambda x body) | .bare (.apply f a) =>
      rw [exec_bare fun y => Expr.noConfusion] at h ⊢
      split at h
      · cases h
        exact ⟨rfl, rfl⟩
      · cases h

/-- A statement that succeeds leaves every name as it was but its target, whose value is its result. -/
theorem get?_exec_of_ok {s : Session} {st : Statement} {v : Term} (h : (s.exec st).result = .ok v) :
    (∀ y, st.target? ≠ some y → (s.exec st).session.scope.get? y = s.scope.get? y) ∧
      ∀ x, st.target? = some x → (s.exec st).session.scope.get? x = some v := by
  rw [(exec_of_ok h).1]
  cases htarget : st.target? with
  | none =>
      refine ⟨fun y _ => rfl, fun x hx => ?_⟩
      cases hx
  | some x =>
      refine ⟨fun y hy => ?_, fun x' hx' => ?_⟩
      · have hne : y ≠ x := fun heq => hy (congrArg some heq.symm)
        exact Scope.get?_set_of_ne v s.scope hne
      · cases hx'
        exact Scope.get?_set_self v s.scope x

/-! ## Statements in turn -/

/-- `Yields s ss vs s'`: the statements, executed in turn from `s` on, all succeed; `vs` are what they
come to, and `s'` is the session after them. -/
inductive Yields : Session → List Statement → List Term → Session → Prop
  | nil (s : Session) : Yields s [] [] s
  | cons {s s' : Session} {st : Statement} {ss : List Statement} {v : Term} {vs : List Term} :
      (s.exec st).result = .ok v → Yields (s.exec st).session ss vs s' → Yields s (st :: ss) (v :: vs) s'

/-- What is told while statements are executed in turn. -/
def toldBy (s : Session) : List Statement → List (String × Scope)
  | [] => []
  | st :: ss => (s.exec st).told ++ (s.exec st).session.toldBy ss

theorem Yields.of_append {s s' : Session} {ss₁ ss₂ : List Statement} {vs : List Term}
    (h : s.Yields (ss₁ ++ ss₂) vs s') :
    ∃ vs₁ vs₂ s₁, vs = vs₁ ++ vs₂ ∧ s.Yields ss₁ vs₁ s₁ ∧ s₁.Yields ss₂ vs₂ s' := by
  induction ss₁ generalizing s vs with
  | nil => exact ⟨[], vs, s, rfl, .nil s, h⟩
  | cons st ss₁ ih =>
      cases h with
      | @cons _ _ _ _ v vs hv hrest =>
          obtain ⟨vs₁, vs₂, s₁, rfl, h₁, h₂⟩ := ih hrest
          exact ⟨v :: vs₁, vs₂, s₁, rfl, .cons hv h₁, h₂⟩

theorem Yields.append {s s₁ s' : Session} {ss₁ ss₂ : List Statement} {vs₁ vs₂ : List Term}
    (h₁ : s.Yields ss₁ vs₁ s₁) (h₂ : s₁.Yields ss₂ vs₂ s') : s.Yields (ss₁ ++ ss₂) (vs₁ ++ vs₂) s' := by
  induction h₁ with
  | nil s => exact h₂
  | cons hv _ ih => exact .cons hv (ih h₂)

theorem Yields.toldBy_append {s s₁ : Session} {ss₁ : List Statement} {vs : List Term}
    (h : s.Yields ss₁ vs s₁) (ss₂ : List Statement) :
    s.toldBy (ss₁ ++ ss₂) = s.toldBy ss₁ ++ s₁.toldBy ss₂ := by
  induction h with
  | nil s => rfl
  | cons hv _ ih =>
      rw [List.cons_append, toldBy, toldBy, ih, List.append_assoc]

/-- Of statements that succeed the names are told that they assign. -/
theorem Yields.map_toldBy {s s' : Session} {ss : List Statement} {vs : List Term}
    (h : s.Yields ss vs s') : (s.toldBy ss).map Prod.fst = ss.filterMap Statement.assigned? := by
  induction h with
  | nil s => rfl
  | @cons s _ st ss v _ hv _ ih =>
      rw [toldBy, List.map_append, ih, (exec_of_ok hv).2, List.map_map]
      cases hassigned : st.assigned? <;> simp [hassigned]

/-- Statements in turn all succeed, or a first one fails. -/
theorem yields_or_fails (s : Session) (ss : List Statement) :
    (∃ vs s', s.Yields ss vs s') ∨
      ∃ done st rest vs s' err,
        ss = done ++ st :: rest ∧ s.Yields done vs s' ∧ (s'.exec st).result = .error err := by
  induction ss generalizing s with
  | nil => exact .inl ⟨[], s, .nil s⟩
  | cons st ss ih =>
      cases hr : (s.exec st).result with
      | error err => exact .inr ⟨[], st, ss, [], s, err, rfl, .nil s, hr⟩
      | ok v =>
          rcases ih (s.exec st).session with ⟨vs, s', hss⟩ | ⟨done, st', rest, vs, s', err, rfl, hdone, herr⟩
          · exact .inl ⟨v :: vs, s', .cons hr hss⟩
          · exact .inr ⟨st :: done, st', rest, v :: vs, s', err, rfl, .cons hr hdone, herr⟩

/-! ## Runs -/

/-- A run that succeeds has executed all its statements, and returns what the last of them comes to. -/
theorem yields_of_runFrom {s : Session} {st : Statement} {rest : List Statement} {v : Term}
    (h : (s.runFrom st rest).result = .ok v) :
    ∃ vs, s.Yields (st :: rest) vs (s.runFrom st rest).session ∧ vs.getLast? = some v := by
  induction rest generalizing s st with
  | nil =>
      rw [runFrom, result_step] at h
      rw [runFrom, session_step]
      exact ⟨[v], .cons h (.nil _), rfl⟩
  | cons next rest ih =>
      rw [runFrom, Effect.andThen, result_step, session_step] at h ⊢
      cases hr : (s.exec st).result with
      | error err =>
          rw [hr] at h
          cases h
      | ok u =>
          rw [hr] at h
          obtain ⟨vs, hvs, hlast⟩ := ih h
          refine ⟨u :: vs, .cons hr hvs, ?_⟩
          cases hvs with
          | cons hv hrest => exact hlast

theorem yields_of_run {s : Session} {m : Module} {v : Term} (h : (s.run m).result = .ok v) :
    ∃ vs, s.Yields m.statements vs (s.run m).session ∧ vs.getLast? = some v := by
  rw [run] at h ⊢
  cases hm : m.statements with
  | nil =>
      rw [hm] at h
      cases h
  | cons st rest =>
      rw [hm] at h
      exact yields_of_runFrom h

end Session

end LazyLambda
