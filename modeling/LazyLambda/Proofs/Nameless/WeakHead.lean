/-
# LazyLambda.Proofs.Nameless.WeakHead — reduction by name to weak head form.

A step contracts the redex at the head of a term, under no function and in no argument. There is at
most one, so a term goes through one sequence of terms, and `Reduces k` names the one after exactly
`k` steps. The sequence ends at an abstraction or at a term with a name at its head.
-/
import LazyLambda.Proofs.Nameless.Basic

namespace LazyLambda.Nameless

/-! ## Steps -/

/-- One step of weak head reduction. -/
inductive Step : Nameless → Nameless → Prop
  | beta (body a : Nameless) : Step (app (abs body) a) (body.instantiate 0 a)
  | head {f f' : Nameless} (a : Nameless) : Step f f' → Step (app f a) (app f' a)

/-- `Reduces k t u`: exactly `k` steps lead from `t` to `u`. -/
inductive Reduces : Nat → Nameless → Nameless → Prop
  | refl (t : Nameless) : Reduces 0 t t
  | head {t u v : Nameless} {k : Nat} : Step t u → Reduces k u v → Reduces (k + 1) t v

/-- Whether a term is an abstraction. -/
def IsAbs : Nameless → Prop
  | abs _ => True
  | _ => False

/-- Whether a term is a given name, applied to any number of arguments. -/
def HeadedBy (x : String) : Nameless → Prop
  | name y => y = x
  | app f _ => f.HeadedBy x
  | _ => False

variable {t u v w f : Nameless} {k j : Nat} {x y : String}

theorem IsAbs.not_step (h : t.IsAbs) : ¬ Step t u := by
  intro hs
  cases hs <;> exact h

theorem HeadedBy.not_step (h : t.HeadedBy x) : ¬ Step t u := by
  intro hs
  induction hs with
  | beta body a => exact h
  | head a _ ih => exact ih h

theorem HeadedBy.not_isAbs (h : t.HeadedBy x) : ¬ t.IsAbs := by
  intro ha
  cases t with
  | abs body => exact h
  | _ => exact ha

theorem HeadedBy.unique (h : t.HeadedBy x) (h' : t.HeadedBy y) : x = y := by
  induction t with
  | bound i => exact h.elim
  | name z => exact Eq.trans (Eq.symm h) h'
  | abs body _ => exact h.elim
  | app f a ih _ => exact ih h h'

theorem Step.deterministic (h : Step t u) (h' : Step t v) : u = v := by
  induction h generalizing v with
  | beta body a =>
      cases h' with
      | beta => rfl
      | head _ hs => exact ((IsAbs.not_step (t := abs body) trivial) hs).elim
  | @head f f' a hs ih =>
      cases h' with
      | beta body => exact ((IsAbs.not_step (t := abs body) trivial) hs).elim
      | head _ hs' => rw [ih hs']

/-! ## Counted reductions -/

theorem Reduces.trans (h : Reduces j t u) (h' : Reduces k u v) : Reduces (j + k) t v := by
  induction h with
  | refl t => rwa [Nat.zero_add]
  | @head t u w j hs _ ih =>
      have hk : j + 1 + k = j + k + 1 := by omega
      rw [hk]
      exact .head hs (ih h')

/-- What reduces at the head of an application reduces the application. -/
theorem Reduces.app (h : Reduces k t u) (a : Nameless) : Reduces k (t.app a) (u.app a) := by
  induction h with
  | refl t => exact .refl _
  | head hs _ ih => exact .head (.head a hs) ih

theorem Reduces.deterministic (h : Reduces k t u) (h' : Reduces k t v) : u = v := by
  induction h with
  | refl t =>
      cases h' with
      | refl => rfl
  | head hs _ ih =>
      cases h' with
      | head hs' hr' =>
          cases hs.deterministic hs'
          exact ih hr'

/-- Nothing comes after the end of the sequence. -/
theorem Reduces.eq_of_le (h : Reduces j t u) (hu : ∀ u', ¬ Step u u') (h' : Reduces k t v)
    (hjk : j ≤ k) : j = k ∧ u = v := by
  induction h generalizing k with
  | refl t =>
      cases h' with
      | refl => exact ⟨rfl, rfl⟩
      | head hs => exact (hu _ hs).elim
  | head hs _ ih =>
      cases h' with
      | refl => exact absurd hjk (Nat.not_succ_le_zero _)
      | head hs' hr' =>
          cases hs.deterministic hs'
          obtain ⟨rfl, rfl⟩ := ih hu hr' (Nat.le_of_succ_le_succ hjk)
          exact ⟨rfl, rfl⟩

end LazyLambda.Nameless
