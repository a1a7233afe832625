/-
# LazyLambda.Proofs.Term.Chain — what a chain of bindings does to a term.

One equation for each kind of term says what is replaced. The chain is used only to look names up in it,
and a function takes its parameter out of it (`Chain.find?_without`); so chains with the same look-ups
replace the same (`Term.bind_congr`).
-/
import LazyLambda.Term.Binding

namespace LazyLambda

namespace Chain

variable {c : Chain} {x y : String} {arg : Term}

@[simp] theorem find?_nil (x : String) : find? [] x = none := rfl

@[simp] theorem find?_cons (c : Chain) (x y : String) (arg : Term) :
    find? ((x, arg) :: c) y = if y = x then some arg else c.find? y := by
  unfold find?
  rw [List.lookup_cons]
  by_cases h : y = x
  · rw [if_pos h, beq_iff_eq.2 h]
  · rw [if_neg h, beq_eq_false_iff_ne.2 h]

@[simp] theorem without_nil (x : String) : without [] x = [] := rfl

@[simp] theorem without_cons_self (c : Chain) (x : String) (arg : Term) :
    without ((x, arg) :: c) x = c.without x := by
  simp [without]

theorem without_cons_of_ne (c : Chain) (arg : Term) (h : x ≠ y) :
    without ((x, arg) :: c) y = (x, arg) :: c.without y := by
  simp [without, h]

@[simp] theorem find?_without (c : Chain) (x y : String) :
    (c.without x).find? y = if y = x then none else c.find? y := by
  induction c with
  | nil => simp
  | cons b c ih =>
      obtain ⟨z, arg⟩ := b
      by_cases hz : z = x
      · subst hz
        rw [without_cons_self, ih, find?_cons]
        by_cases hy : y = z <;> simp [hy]
      · rw [without_cons_of_ne c arg hz, find?_cons, find?_cons, ih]
        by_cases hy : y = z
        · subst hy
          simp [hz]
        · simp [hy]

end Chain

namespace Term

variable (c : Chain) (x : String) (f a u body arg : Term)

/-! ## One equation for each kind of term -/

@[simp] theorem bind_app : (app f a).bind c = app (f.bind c) (a.bind c) := rfl

@[simp] theorem bind_free :
    (free x).bind c = ((c.find? x).map (passed x)).getD (free x) := rfl

@[simp] theorem bind_global :
    (global x u).bind c = ((c.find? x).map (passed x)).getD (global x u) := rfl

@[simp] theorem bind_passed :
    (passed x u).bind c = ((c.find? x).map (passed x)).getD (passed x u) := rfl

/-- With nothing left to replace, a function stays as it is. -/
theorem bind_lam_ite : (lam x body).bind c =
    if (c.without x).isEmpty then lam x body else lam x (body.bind (c.without x)) := rfl

@[simp] theorem bind_nil (t : Term) : t.bind [] = t := by
  induction t with
  | lam x body _ => rw [bind_lam_ite, Chain.without_nil, List.isEmpty_nil, if_pos rfl]
  | app f a ihf iha => rw [bind_app, ihf, iha]
  | free x | global x u _ | passed x u _ => rfl

/-- A function takes its parameter out of the chain, whether or not anything is left. -/
@[simp] theorem bind_lam : (lam x body).bind c = lam x (body.bind (c.without x)) := by
  rw [bind_lam_ite]
  split
  · next h => rw [List.isEmpty_iff.1 h, bind_nil]
  · rfl

/-! ## Chains as look-ups -/

variable {c x}

/-- What a chain replaces depends on its look-ups only. -/
theorem bind_congr {c' : Chain} (h : ∀ y, c.find? y = c'.find? y) (t : Term) :
    t.bind c = t.bind c' := by
  induction t generalizing c c' with
  | lam x body ih =>
      have hwithout : ∀ y, (c.without x).find? y = (c'.without x).find? y := by
        intro y
        rw [Chain.find?_without, Chain.find?_without, h y]
      rw [bind_lam, bind_lam, ih hwithout]
  | app f a ihf iha => rw [bind_app, bind_app, ihf h, iha h]
  | free x => rw [bind_free, bind_free, h x]
  | global x u _ => rw [bind_global, bind_global, h x]
  | passed x u _ => rw [bind_passed, bind_passed, h x]

end Term

end LazyLambda
