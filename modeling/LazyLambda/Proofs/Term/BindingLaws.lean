/-
# LazyLambda.Proofs.Term.BindingLaws — how replacement and resolution go together.

A chain of bindings replaces its identifiers all at once, and gets smaller under every function that binds one
of its names. Replacing one binding after the other, from the outermost on, comes to the same, although a later
one then overwrites what an earlier one has put there (`Term.bind_eq_foldr`). Only the look-ups of a chain
matter: chains replace the same in every term exactly if they look up the same (`Term.bind_eq_iff`).

Resolution asks whether an identifier is free and takes no notice of functions. Replacement takes notice of
functions and does not ask. Neither looks inside what an identifier stands for. So resolutions compose to one
in which the first scope goes first (`Term.resolve_resolve`), and it makes no difference whether a term is
resolved before or after a replacement (`Term.bind_resolve`).
-/
import LazyLambda.Proofs.Scope
import LazyLambda.Proofs.Term.Substitution

namespace LazyLambda

/-! ## Look-ups of chains -/

namespace Chain

variable {c : Chain} {x y : String}

theorem find?_append (c d : Chain) (x : String) : find? (c ++ d) x = (c.find? x).or (d.find? x) :=
  List.lookup_append

/-- Neighbours of different names may change places. -/
theorem find?_swap (h : x ≠ y) (c d : Chain) (a b : Term) (z : String) :
    find? (c ++ (x, a) :: (y, b) :: d) z = find? (c ++ (y, b) :: (x, a) :: d) z := by
  rw [find?_append, find?_append]
  congr 1
  by_cases hx : z = x
  · simp [hx, h]
  · simp [hx]

/-- Behind a binding of the same name nobody looks. -/
theorem find?_hidden (hx : (c.find? x).isSome) (d : Chain) (b : Term) (y : String) :
    find? (c ++ (x, b) :: d) y = find? (c ++ d) y := by
  rw [find?_append, find?_append, find?_cons]
  by_cases hy : y = x
  · subst hy
    obtain ⟨u, hu⟩ := Option.isSome_iff_exists.1 hx
    rw [hu]
    rfl
  · rw [if_neg hy]

end Chain

namespace Term

variable {c c' : Chain}

/-! ## Bindings one at a time -/

/-- **A chain replaces like its bindings one after the other**, the outermost first. -/
theorem bind_eq_foldr (c : Chain) (t : Term) : t.bind c = c.foldr (fun b u => u.subst b.1 b.2) t := by
  induction c with
  | nil => exact bind_nil t
  | cons b c ih => rw [bind_cons, ih, List.foldr_cons]

/-- What becomes of a free identifier tells what its name is bound to. -/
theorem find?_eq_of_bind_free {x : String} (h : (free x).bind c = (free x).bind c') :
    c.find? x = c'.find? x := by
  rw [bind_free, bind_free] at h
  cases hc : c.find? x with
  | none =>
      rw [hc] at h
      cases hc' : c'.find? x with
      | none => rfl
      | some u =>
          rw [hc'] at h
          cases h
  | some u =>
      rw [hc] at h
      cases hc' : c'.find? x with
      | none =>
          rw [hc'] at h
          cases h
      | some u' =>
          rw [hc'] at h
          cases h
          rfl

/-- **Chains replace the same exactly if they look up the same.** -/
theorem bind_eq_iff : (∀ t : Term, t.bind c = t.bind c') ↔ ∀ x, c.find? x = c'.find? x :=
  ⟨fun h x => find?_eq_of_bind_free (h (free x)), fun h t => bind_congr h t⟩

/-- **A chain replaces frame by frame, and counts for its look-ups alone.** So neighbours of different names
may change places anywhere in it, and a binding further out of a name that is already bound is not seen. -/
theorem bind_frame_by_frame (c c' : Chain) :
    (∀ t x arg, bind ((x, arg) :: c) t = (t.bind c).subst x arg) ∧
    (∀ t : Term, t.bind c = c.foldr (fun b u => u.subst b.1 b.2) t) ∧
    ((∀ t : Term, t.bind c = t.bind c') ↔ ∀ x, c.find? x = c'.find? x) ∧
    (∀ t x y a b, x ≠ y →
      bind (c ++ (x, a) :: (y, b) :: c') t = bind (c ++ (y, b) :: (x, a) :: c') t) ∧
    ∀ t x b, (c.find? x).isSome → bind (c ++ (x, b) :: c') t = bind (c ++ c') t := by
  refine ⟨fun t x arg => bind_cons c x arg t, bind_eq_foldr c, bind_eq_iff, ?_, ?_⟩
  · intro t x y a b hxy
    exact bind_congr (Chain.find?_swap hxy c c' a b) t
  · intro t x b hx
    exact bind_congr (Chain.find?_hidden hx c' b) t

/-- Two bindings of `x` and one of `y`, in a term where a function hides `x` and both are used beside it. -/
theorem bind_frame_by_frame_repeated :
    let t : Term := app (lam "x" (app (free "x") (free "y"))) (app (free "x") (passed "y" (free "z")))
    let c : Chain := [("x", free "p")]
    let c' : Chain := [("x", free "q")]
    t.bind c ≠ t.bind c' ∧
      bind (c ++ ("x", free "p") :: ("y", free "r") :: c') t =
        bind (c ++ ("y", free "r") :: ("x", free "p") :: c') t ∧
      bind (c ++ ("x", free "q") :: c') t = bind (c ++ c') t ∧
      bind (c ++ c') t = bind c t := by
  intro t c c'
  obtain ⟨-, -, -, hswap, hhidden⟩ := bind_frame_by_frame c c'
  obtain ⟨-, -, -, -, hall⟩ := bind_frame_by_frame c []
  refine ⟨by decide, hswap t "x" "y" _ _ (by decide), hhidden t "x" _ (by decide), ?_⟩
  exact hall t "x" (free "q") (by decide)

/-! ## Resolution -/

variable (d d' : String → Option Term) (x : String) (f a u body : Term)

@[simp] theorem resolve_lam : (lam x body).resolve d = lam x (body.resolve d) := rfl

@[simp] theorem resolve_app : (app f a).resolve d = app (f.resolve d) (a.resolve d) := rfl

@[simp] theorem resolve_free : (free x).resolve d = ((d x).map (global x)).getD (free x) := rfl

@[simp] theorem resolve_global : (global x u).resolve d = global x u := rfl

@[simp] theorem resolve_passed : (passed x u).resolve d = passed x u := rfl

/-- **Two resolutions are one**, in which the second is asked where the first has no answer. -/
theorem resolve_resolve (t : Term) :
    (t.resolve d).resolve d' = t.resolve fun x => (d x).or (d' x) := by
  induction t with
  | lam x body ih => rw [resolve_lam, resolve_lam, resolve_lam, ih]
  | app f a ihf iha => rw [resolve_app, resolve_app, resolve_app, ihf, iha]
  | free x =>
      rw [resolve_free, resolve_free]
      cases d x <;> rfl
  | global x u _ | passed x u _ => rfl

/-- Resolving once more changes nothing. -/
theorem resolve_again (t : Term) : (t.resolve d).resolve d = t.resolve d := by
  rw [resolve_resolve]
  congr 1
  funext x
  exact Option.or_self

/-- What comes later counts for the names that have no answer so far. -/
theorem resolve_later {d e e' : String → Option Term} (h : ∀ x, d x = none → e x = e' x) (t : Term) :
    (t.resolve d).resolve e = (t.resolve d).resolve e' := by
  rw [resolve_resolve, resolve_resolve]
  congr 1
  funext x
  cases hx : d x with
  | none => rw [h x hx]
  | some u => rfl

/-- **Resolution and replacement commute.** -/
theorem bind_resolve (c : Chain) (t : Term) : (t.resolve d).bind c = (t.bind c).resolve d := by
  induction t generalizing c with
  | lam x body ih => rw [resolve_lam, bind_lam, bind_lam, resolve_lam, ih]
  | app f a ihf iha => rw [resolve_app, bind_app, bind_app, resolve_app, ihf, iha]
  | free x =>
      -- a bound name is replaced in either order, and an unbound one is resolved in either order
      rw [resolve_free, bind_free]
      cases hc : c.find? x with
      | none => cases hd : d x <;> simp [hc, hd]
      | some arg => cases d x <;> simp [hc]
  | global x u _ =>
      rw [resolve_global, bind_global]
      cases c.find? x <;> rfl
  | passed x u _ =>
      rw [resolve_passed, bind_passed]
      cases c.find? x <;> rfl

end Term

/-! ## Scopes -/

namespace Scope

/-- What either scope defines; what both define, as the first one does. -/
def orElse (s s' : Scope) : Scope := s.entries.foldr (fun e r => r.set e.1 e.2) s'

/-- Entries that are set from the last to the first are found before those that were there. -/
theorem get?_foldr_set (entries : List (String × Term)) (s : Scope) (x : String) :
    (entries.foldr (fun e r => r.set e.1 e.2) s).get? x = (entries.lookup x).or (s.get? x) := by
  induction entries with
  | nil => rfl
  | cons e rest ih =>
      obtain ⟨y, t⟩ := e
      rw [List.foldr_cons, List.lookup_cons]
      by_cases hx : x = y
      · subst hx
        rw [get?_set_self, beq_self_eq_true]
        rfl
      · rw [get?_set_of_ne t _ hx, beq_eq_false_iff_ne.2 hx, ih]

theorem get?_orElse (s s' : Scope) (x : String) : (s.orElse s').get? x = (s.get? x).or (s'.get? x) :=
  get?_foldr_set s.entries s' x

end Scope

namespace Term

/-- **Resolution composes and commutes with replacement.** Resolving in one scope and then in another is
resolving in both at once, where the first one wins. So resolving twice changes nothing, and a later scope counts
for the names that are missing in the first one only: a name that has been captured keeps its meaning when it is
defined anew. And it makes no difference whether a chain replaces before or after. -/
theorem resolution_composes (g₁ g₂ : Scope) (c : Chain) (t : Term) :
    ((∀ x, (g₁.orElse g₂).get? x = (g₁.get? x).or (g₂.get? x)) ∧
      (t.resolve g₁.get?).resolve g₂.get? = t.resolve (g₁.orElse g₂).get?) ∧
    (t.resolve g₁.get?).resolve g₁.get? = t.resolve g₁.get? ∧
    (∀ g : Scope, (∀ x, g₁.get? x = none → g.get? x = g₂.get? x) →
      (t.resolve g₁.get?).resolve g.get? = (t.resolve g₁.get?).resolve g₂.get?) ∧
    (∀ x u, (g₁.get? x).isSome →
      (t.resolve g₁.get?).resolve (g₁.set x u).get? = t.resolve g₁.get?) ∧
    (t.resolve g₁.get?).bind c = (t.bind c).resolve g₁.get? := by
  refine ⟨⟨Scope.get?_orElse g₁ g₂, ?_⟩, resolve_again _ t, fun g h => resolve_later h t, ?_,
    bind_resolve _ c t⟩
  · have hboth : (g₁.orElse g₂).get? = fun x => (g₁.get? x).or (g₂.get? x) :=
      funext (Scope.get?_orElse g₁ g₂)
    rw [resolve_resolve, hboth]
  · intro x u hx
    have hlacks : ∀ y, g₁.get? y = none → (g₁.set x u).get? y = g₁.get? y := by
      intro y hy
      have hne : y ≠ x := by
        rintro rfl
        rw [hy] at hx
        cases hx
      exact Scope.get?_set_of_ne u g₁ hne
    rw [resolve_later hlacks, resolve_again]

/-- `x` is captured first and then bound by a function, defined anew and replaced; `y` is found later. -/
theorem resolution_composes_redefined :
    let t : Term := app (lam "x" (app (free "x") (free "y"))) (free "x")
    let g₁ := Scope.empty.set "x" (free "p")
    let g₂ := (Scope.empty.set "x" (free "q")).set "y" (free "r")
    let g := Scope.empty.set "y" (free "r")
    (t.resolve g₁.get?).resolve g.get? = (t.resolve g₁.get?).resolve g₂.get? ∧
      (t.resolve g₁.get?).resolve (g₁.set "x" (free "q")).get? = t.resolve g₁.get? ∧
      t.resolve (g₁.set "x" (free "q")).get? ≠ t.resolve g₁.get? ∧
      (t.resolve g₁.get?).bind [("x", free "s")] = (t.bind [("x", free "s")]).resolve g₁.get? := by
  intro t g₁ g₂ g
  obtain ⟨-, -, hlater, hanew, hbind⟩ := resolution_composes g₁ g₂ [("x", free "s")] t
  refine ⟨hlater g ?_, hanew "x" (free "q") (by decide), by decide, hbind⟩
  intro x hx
  have hne : x ≠ "x" := by
    rintro rfl
    cases hx
  have hadd : g₂ = g.set "x" (free "q") := by decide
  rw [hadd, Scope.get?_set_of_ne _ g hne]

end Term

end LazyLambda
