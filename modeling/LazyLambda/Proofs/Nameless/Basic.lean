/-
# LazyLambda.Proofs.Nameless.Basic — λ-terms in which nothing bound has a name.

A bound variable is the number of functions between it and the one that binds it, so that there are no
names to capture: `instantiate` lifts what it puts in over the functions that it passes. Names only
stand for what no function binds.

`Closed n` says that a term points out of itself by fewer than `n` functions. Lifting and instantiating
beyond that leave it alone.
-/

namespace LazyLambda

/-- A λ-term. -/
inductive Nameless where
  /-- The parameter of the function that is reached by passing `i` others on the way out. -/
  | bound (i : Nat)
  /-- A name that no function binds. -/
  | name (x : String)
  | abs (body : Nameless)
  | app (target argument : Nameless)
  deriving DecidableEq, Inhabited

namespace Nameless

/-- The term with whatever points out of it by `c` functions or more pointing `d` further. -/
def lift (d : Nat) : Nat → Nameless → Nameless
  | c, bound i => if i < c then bound i else bound (i + d)
  | _, name x => name x
  | c, abs body => abs (body.lift d (c + 1))
  | c, app f a => app (f.lift d c) (a.lift d c)

/-- The body of a function with its parameter, which is `k` functions out, replaced. Whatever points
further out loses the function. -/
def instantiate : Nat → Nameless → Nameless → Nameless
  | k, bound i, u => if i < k then bound i else if i = k then u.lift k 0 else bound (i - 1)
  | _, name x, _ => name x
  | k, abs body, u => abs (body.instantiate (k + 1) u)
  | k, app f a, u => app (f.instantiate k u) (a.instantiate k u)

/-! ## Closed terms -/

/-- Whether a term points out of itself by fewer than `n` functions. -/
def Closed : Nat → Nameless → Prop
  | n, bound i => i < n
  | _, name _ => True
  | n, abs body => body.Closed (n + 1)
  | n, app f a => f.Closed n ∧ a.Closed n

theorem Closed.mono {n m : Nat} {t : Nameless} (h : t.Closed n) (hm : n ≤ m) : t.Closed m := by
  induction t generalizing n m with
  | bound i => exact Nat.lt_of_lt_of_le h hm
  | name x => trivial
  | abs body ih => exact ih h (Nat.succ_le_succ hm)
  | app f a ihf iha => exact ⟨ihf h.1 hm, iha h.2 hm⟩

theorem Closed.lift_eq {c : Nat} {t : Nameless} (h : t.Closed c) (d : Nat) : t.lift d c = t := by
  induction t generalizing c with
  | bound i => exact if_pos h
  | name x => rfl
  | abs body ih => exact congrArg abs (ih h)
  | app f a ihf iha => rw [lift, ihf h.1, iha h.2]

theorem Closed.instantiate_eq {k : Nat} {t : Nameless} (h : t.Closed k) (u : Nameless) :
    t.instantiate k u = t := by
  induction t generalizing k with
  | bound i => exact if_pos h
  | name x => rfl
  | abs body ih => exact congrArg abs (ih h)
  | app f a ihf iha => rw [instantiate, ihf h.1, iha h.2]

/-! ## Names in a scope -/

/-- What an identifier denotes among the parameters in scope, the innermost first: the innermost of its
name, or else what it denotes otherwise. -/
def ofName (scope : List String) (x : String) (otherwise : Nameless) : Nameless :=
  if x ∈ scope then bound (scope.idxOf x) else otherwise

theorem closed_ofName {scope : List String} {otherwise : Nameless} (h : otherwise.Closed 0)
    (x : String) : (ofName scope x otherwise).Closed scope.length := by
  unfold ofName
  split
  · next hx => exact List.idxOf_lt_length_of_mem hx
  · exact h.mono (Nat.zero_le _)

/-- A parameter further out is not seen where one of the same name is in scope. -/
theorem ofName_append_of_mem {scope : List String} {x : String} (h : x ∈ scope) (y : String)
    (otherwise : Nameless) :
    ofName (scope ++ [x]) y otherwise = ofName scope y otherwise := by
  unfold ofName
  by_cases hy : y ∈ scope
  · rw [if_pos (List.mem_append_left _ hy), if_pos hy, List.idxOf_append, if_pos hy]
  · have hyx : y ≠ x := fun e => hy (e ▸ h)
    rw [if_neg hy, if_neg (by simp [hy, hyx])]

/-- Instantiating the outermost parameter in scope replaces the identifiers of its name that no inner
parameter takes. -/
theorem instantiate_ofName_append {scope : List String} {x : String} (h : x ∉ scope) (y : String)
    {u otherwise : Nameless} (hu : u.Closed 0) (ho : otherwise.Closed 0) :
    (ofName (scope ++ [x]) y otherwise).instantiate scope.length u =
      ofName scope y (if y = x then u else otherwise) := by
  unfold ofName
  by_cases hy : y ∈ scope
  · have hlt : scope.idxOf y < scope.length := List.idxOf_lt_length_of_mem hy
    rw [if_pos (List.mem_append_left _ hy), if_pos hy, List.idxOf_append, if_pos hy]
    exact if_pos hlt
  · by_cases hyx : y = x
    · subst hyx
      have hidx : (scope ++ [y]).idxOf y = scope.length := by simp [List.idxOf_append, hy]
      rw [if_pos (by simp), if_neg hy, if_pos rfl, hidx]
      simp only [instantiate, Nat.lt_irrefl, if_false, if_true]
      exact hu.lift_eq scope.length
    · rw [if_neg (by simp [hy, hyx]), if_neg hy, if_neg hyx]
      exact (ho.mono (Nat.zero_le _)).instantiate_eq u

end Nameless

end LazyLambda
