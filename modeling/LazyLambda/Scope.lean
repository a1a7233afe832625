/-
# LazyLambda.Scope — the global names of a session and what they are defined as.
-/
import LazyLambda.Names
import LazyLambda.Term.Basic

namespace LazyLambda

/-- Global definitions: entries in increasing order of their names, one for each name. -/
structure Scope where
  entries : List (String × Term)
  sorted : (entries.map Prod.fst).Pairwise (· < ·)
  deriving DecidableEq

namespace Scope

/-- No definitions. -/
def empty : Scope := ⟨[], .nil⟩

instance : Inhabited Scope := ⟨.empty⟩

/-- What a name is defined as. -/
def get? (s : Scope) (x : String) : Option Term := s.entries.lookup x

/-- The entries with one more, at its place in the order; an entry of the same name gives way. -/
def insertEntry (x : String) (t : Term) : List (String × Term) → List (String × Term)
  | [] => [(x, t)]
  | (y, u) :: rest =>
    if x < y then (x, t) :: (y, u) :: rest
    else if x = y then (x, t) :: rest
    else (y, u) :: insertEntry x t rest

/-- An entry goes where its name goes. -/
theorem map_fst_insertEntry (x : String) (t : Term) (entries : List (String × Term)) :
    (insertEntry x t entries).map Prod.fst = insertName x (entries.map Prod.fst) := by
  induction entries with
  | nil => rfl
  | cons e rest ih =>
      obtain ⟨y, u⟩ := e
      rw [insertEntry, List.map_cons, insertName]
      split
      · rfl
      · split
        · next heq => rw [List.map_cons, heq]
        · rw [List.map_cons, ih]

/-- The scope with a name defined, or defined anew. -/
def set (s : Scope) (x : String) (t : Term) : Scope where
  entries := insertEntry x t s.entries
  sorted := map_fst_insertEntry x t s.entries ▸ pairwise_insertName x s.sorted

/-- The defined names, in increasing order. -/
def names (s : Scope) : List String := s.entries.map Prod.fst

theorem pairwise_names (s : Scope) : s.names.Pairwise (· < ·) := s.sorted

/-- How many names are defined. -/
def size (s : Scope) : Nat := s.entries.length

end Scope

end LazyLambda
