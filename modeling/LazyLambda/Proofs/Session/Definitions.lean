/-
# LazyLambda.Proofs.Session.Definitions — modules that only define names.

A definition evaluates nothing, so modules of definitions run to their end under every allowance. What
they make of a scope can be computed from the statements alone: `Scope.load?`.
-/
import LazyLambda.Session.Run

namespace LazyLambda

namespace Scope

/-- The scope after some definitions; nothing where a statement is none. -/
def define? (s : Scope) : List Statement → Option Scope
  | [] => some s
  | .define x e :: rest => (s.set x ((Term.ofExpr e).resolve s.get?)).define? rest
  | .bare _ :: _ => none

/-- The scope after modules of definitions; nothing where there is another statement, or a module without
any. -/
def load? (s : Scope) : List Module → Option Scope
  | [] => some s
  | m :: ms => if m.statements.isEmpty then none else (s.define? m.statements).bind (·.load? ms)

end Scope

namespace Session

variable {s : Session} {scope : Scope}

/-- Definitions run to their end. -/
theorem runFrom_of_define? {st : Statement} {rest : List Statement}
    (h : s.scope.define? (st :: rest) = some scope) :
    (∃ t, (s.runFrom st rest).result = .ok t) ∧ (s.runFrom st rest).session = ⟨scope, s.allowance⟩ := by
  induction rest generalizing s st with
  | nil =>
      cases st with
      | bare e => cases h
      | define x e =>
          cases h
          exact ⟨⟨_, rfl⟩, rfl⟩
  | cons next rest ih =>
      cases st with
      | bare e => cases h
      | define x e =>
          obtain ⟨⟨t, ht⟩, hs⟩ := ih (s := (s.exec (.define x e)).session) h
          exact ⟨⟨t, ht⟩, hs⟩

theorem run_of_define? {m : Module} (hm : m.statements.isEmpty = false)
    (h : s.scope.define? m.statements = some scope) :
    (∃ t, (s.run m).result = .ok t) ∧ (s.run m).session = ⟨scope, s.allowance⟩ := by
  rw [run]
  cases hst : m.statements with
  | nil =>
      rw [hst] at hm
      cases hm
  | cons st rest => exact runFrom_of_define? (hst ▸ h)

/-- A module that runs to its end is loaded. -/
theorem loadOne_of_run {m : Module} {t : Term} (index : Nat) (h : (s.run m).result = .ok t) :
    (s.loadOne m index).result = .ok () ∧ (s.loadOne m index).session = (s.run m).session := by
  have hmap : ((s.run m).mapError (LoadError.mk (m.label index))).result = .ok t :=
    congrArg (Except.mapError _) h
  rw [loadOne, Effect.andThen, hmap]
  exact ⟨rfl, rfl⟩

/-- Modules of definitions load under every allowance. -/
theorem loadFrom_of_load? (index : Nat) {ms : List Module} (h : s.scope.load? ms = some scope) :
    (s.loadFrom index ms).result = .ok () ∧ (s.loadFrom index ms).session = ⟨scope, s.allowance⟩ := by
  induction ms generalizing s index with
  | nil =>
      cases h
      exact ⟨rfl, rfl⟩
  | cons m ms ih =>
      rw [Scope.load?] at h
      cases hm : m.statements.isEmpty with
      | true =>
          rw [hm] at h
          cases h
      | false =>
          rw [hm] at h
          obtain ⟨scope₁, h₁, h₂⟩ := Option.bind_eq_some_iff.1 h
          obtain ⟨⟨t, ht⟩, hs⟩ := run_of_define? hm h₁
          obtain ⟨hres, hses⟩ := ih (s := ⟨scope₁, s.allowance⟩) (index + 1) h₂
          obtain ⟨hone, hsession⟩ := loadOne_of_run index ht
          rw [loadFrom, Effect.andThen, hone, hsession, hs]
          exact ⟨hres, hses⟩

end Session

end LazyLambda
