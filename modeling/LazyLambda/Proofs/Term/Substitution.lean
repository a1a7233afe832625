/-
# LazyLambda.Proofs.Term.Substitution — what replacing one parameter does to each kind of term.

`Term.subst` is `Term.bind` with a chain of one binding. Under the parameter's own name it stops at
once; everywhere else the chain goes down unchanged. These equations are all that later modules know
of it.

A binding in front of a chain replaces after the rest of the chain has (`Term.bind_cons`), which is why a
function of several parameters may take its arguments all at once.
-/
import LazyLambda.Proofs.Term.Chain

namespace LazyLambda.Term

variable (x y : String) (f a u body arg : Term)

/-- A function hides its own parameter. -/
@[simp] theorem subst_lam_self : (lam x body).subst x arg = lam x body := by
  simp [subst]

theorem subst_lam_of_ne {x y : String} (h : x ≠ y) :
    (lam y body).subst x arg = lam y (body.subst x arg) := by
  simp [subst, Chain.without_cons_of_ne [] arg h]

@[simp] theorem subst_app : (app f a).subst x arg = app (f.subst x arg) (a.subst x arg) := rfl

@[simp] theorem subst_free_self : (free x).subst x arg = passed x arg := by
  simp [subst]

@[simp] theorem subst_global_self : (global x u).subst x arg = passed x arg := by
  simp [subst]

@[simp] theorem subst_passed_self : (passed x u).subst x arg = passed x arg := by
  simp [subst]

variable {x y}

theorem subst_free_of_ne (h : x ≠ y) : (free y).subst x arg = free y := by
  simp [subst, h.symm]

theorem subst_global_of_ne (h : x ≠ y) : (global y u).subst x arg = global y u := by
  simp [subst, h.symm]

theorem subst_passed_of_ne (h : x ≠ y) : (passed y u).subst x arg = passed y u := by
  simp [subst, h.symm]

/-- The name of an identifier. -/
def name? : Term → Option String
  | lam _ _ => none
  | app _ _ => none
  | free z => some z
  | global z _ => some z
  | passed z _ => some z

/-- An identifier is replaced for its name alone, whatever it has stood for. -/
theorem subst_of_name? {t : Term} (ht : t.name? = some y) :
    t.subst x arg = if x = y then passed y arg else t := by
  cases t <;> cases ht
  case free =>
    split
    · next h => rw [h, subst_free_self]
    · next h => exact subst_free_of_ne arg h
  case global u =>
    split
    · next h => rw [h, subst_global_self]
    · next h => exact subst_global_of_ne u arg h
  case passed u =>
    split
    · next h => rw [h, subst_passed_self]
    · next h => exact subst_passed_of_ne u arg h

/-! ## Several bindings -/

variable {c : Chain}

/-- An identifier that the chain replaces is replaced again by a binding in front. -/
theorem bind_identifier_cons {t : Term} {y : String}
    (ht : ∀ c : Chain, t.bind c = ((c.find? y).map (passed y)).getD t) :
    t.bind ((x, arg) :: c) = (t.bind c).subst x arg := by
  have hsubst : t.subst x arg = if y = x then passed y arg else t := by
    rw [subst, ht, Chain.find?_cons, Chain.find?_nil]
    split <;> rfl
  rw [ht, ht c, Chain.find?_cons]
  by_cases hy : y = x
  · subst hy
    cases c.find? y with
    | none => simpa using hsubst.symm
    | some u => simp
  · cases c.find? y with
    | none => simpa [hy] using hsubst.symm
    | some u => simp [hy, subst_passed_of_ne u arg (Ne.symm hy)]

/-- **A binding in front of a chain replaces after the chain.** -/
theorem bind_cons (c : Chain) (x : String) (arg t : Term) :
    t.bind ((x, arg) :: c) = (t.bind c).subst x arg := by
  induction t generalizing c with
  | lam y body ih =>
      rw [bind_lam, bind_lam]
      by_cases hy : x = y
      · subst hy
        rw [Chain.without_cons_self, subst_lam_self]
      · rw [Chain.without_cons_of_ne c arg hy, subst_lam_of_ne _ _ hy, ih]
  | app f a ihf iha => rw [bind_app, bind_app, subst_app, ihf, iha]
  | free y => exact bind_identifier_cons arg fun c => rfl
  | global y u _ => exact bind_identifier_cons arg fun c => rfl
  | passed y u _ => exact bind_identifier_cons arg fun c => rfl

end LazyLambda.Term
