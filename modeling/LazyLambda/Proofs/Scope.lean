/-
# LazyLambda.Proofs.Scope — what looking up a name finds after a definition.

The entries are a list in the order of their names, and defining a name puts its entry in its place.
Seen through `Scope.get?` this is the update of a function at one name.
-/
import LazyLambda.Scope

namespace LazyLambda.Scope

variable {x y : String} (t : Term) (s : Scope)

theorem lookup_insertEntry_self (x : String) (entries : List (String × Term)) :
    (insertEntry x t entries).lookup x = some t := by
  induction entries with
  | nil => simp [insertEntry]
  | cons e rest ih =>
      obtain ⟨y, u⟩ := e
      rw [insertEntry]
      split
      · simp
      · split
        · simp
        · next hne =>
            rw [List.lookup_cons, beq_eq_false_iff_ne.2 hne]
            exact ih

theorem lookup_insertEntry_of_ne (h : x ≠ y) (entries : List (String × Term)) :
    (insertEntry y t entries).lookup x = entries.lookup x := by
  have hxy : (x == y) = false := beq_eq_false_iff_ne.2 h
  induction entries with
  | nil => simp [insertEntry, List.lookup_cons, hxy]
  | cons e rest ih =>
      obtain ⟨z, u⟩ := e
      rw [insertEntry]
      split
      · rw [List.lookup_cons, hxy]
      · split
        · next hyz =>
            -- the entry that gives way had the defined name
            subst hyz
            rw [List.lookup_cons, List.lookup_cons, hxy]
        · rw [List.lookup_cons, List.lookup_cons, ih]

@[simp] theorem get?_empty (x : String) : Scope.empty.get? x = none := rfl

@[simp] theorem get?_set_self (x : String) : (s.set x t).get? x = some t :=
  lookup_insertEntry_self t x s.entries

theorem get?_set_of_ne (h : x ≠ y) : (s.set y t).get? x = s.get? x :=
  lookup_insertEntry_of_ne t h s.entries

/-- Whether everything that is defined has a property. -/
def All (P : Term → Prop) (s : Scope) : Prop := ∀ x t, s.get? x = some t → P t

variable {P : Term → Prop} {t s}

theorem all_empty : Scope.empty.All P := by
  intro x t h
  simp at h

theorem All.set (hs : s.All P) (x : String) (ht : P t) : (s.set x t).All P := by
  intro y u hu
  by_cases hy : y = x
  · subst hy
    rw [get?_set_self] at hu
    cases hu
    exact ht
  · rw [get?_set_of_ne t s hy] at hu
    exact hs y u hu

end LazyLambda.Scope
