/-
# LazyLambda.Names — names in increasing order, each once.

Scopes and hints keep their names in this way. A new name is put in its place, which keeps the order
(`pairwise_insertName`), and so both can carry the proof that they are in order.
-/

namespace LazyLambda

variable {Name : Type} [LT Name] [DecidableLT Name] [DecidableEq Name]

/-- The names with one more at its place in the order, unless it is there already. -/
def insertName (x : Name) : List Name → List Name
  | [] => [x]
  | y :: rest => if x < y then x :: y :: rest else if x = y then y :: rest else y :: insertName x rest

theorem mem_insertName {x y : Name} {names : List Name} :
    y ∈ insertName x names ↔ y = x ∨ y ∈ names := by
  induction names with
  | nil => simp [insertName]
  | cons z rest ih =>
      rw [insertName]
      split
      · exact List.mem_cons
      · split
        · next hxz =>
            subst hxz
            simp
        · rw [List.mem_cons, List.mem_cons, ih]
          exact or_left_comm

/-- Names in increasing order stay so when one is put in its place. -/
theorem pairwise_insertName [LE Name] [Std.LawfulOrderLT Name] [Std.IsLinearOrder Name] (x : Name)
    {names : List Name} (h : names.Pairwise (· < ·)) : (insertName x names).Pairwise (· < ·) := by
  induction names with
  | nil => exact List.pairwise_singleton _ x
  | cons y rest ih =>
      obtain ⟨hy, hrest⟩ := List.pairwise_cons.1 h
      rw [insertName]
      split
      · next hxy =>
          refine List.pairwise_cons.2 ⟨fun z hz => ?_, h⟩
          rcases List.mem_cons.1 hz with rfl | hz
          · exact hxy
          · exact Std.lt_trans hxy (hy z hz)
      · split
        · exact h
        · next hxy hne =>
            refine List.pairwise_cons.2 ⟨fun z hz => ?_, ih hrest⟩
            rcases mem_insertName.1 hz with rfl | hz
            · exact Std.lt_of_le_of_ne (Std.not_lt.1 hxy) (Ne.symm hne)
            · exact hy z hz

end LazyLambda
