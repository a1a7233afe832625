/-
# LazyLambda.Proofs.Files.Path — paths of what lies in a directory.

Joining a directory and a name settles the components of both. A name that is a component by itself, and
neither `.` nor `..`, comes out as it is, and what stands in front of it depends on the directory alone
(`Path.join_eq`): nothing, or some components with a slash behind each.
-/
import LazyLambda.Files.Path

namespace LazyLambda.Path

/-! ## Components -/

theorem pieces_ne_nil (cs : List Char) : pieces cs ≠ [] := by
  fun_cases pieces cs <;> simp

theorem pieces_of_no_slash {cs : List Char} (h : '/' ∉ cs) : pieces cs = [cs] := by
  fun_induction pieces cs with
  | case1 => rfl
  | case2 cs ih => simp at h
  | case3 c cs hc hnil ih => exact (pieces_ne_nil cs hnil).elim
  | case4 c cs hc p ps hps ih =>
      rw [ih (fun hmem => h (List.mem_cons_of_mem _ hmem))] at hps
      obtain ⟨rfl, rfl⟩ : cs = p ∧ [] = ps := by simpa using hps
      rfl

/-- Pieces end at a slash. -/
theorem pieces_append (as bs : List Char) : pieces (as ++ '/' :: bs) = pieces as ++ pieces bs := by
  fun_induction pieces as with
  | case1 => rfl
  | case2 as ih => rw [List.cons_append, pieces, ih, List.cons_append]
  | case3 c as hc hnil ih => exact (pieces_ne_nil as hnil).elim
  | case4 c as hc p ps hps ih =>
      rw [List.cons_append, pieces, ih, hps]
      · rfl
      · exact hc

/-- A name that stands for itself in a directory. -/
structure Plain (name : String) : Prop where
  no_slash : '/' ∉ name.toList
  proper : name ≠ "" ∧ name ≠ "." ∧ name ≠ ".."

theorem Plain.push_eq {name : String} (h : Plain name) (absolute : Bool) (stack : List String) :
    push absolute stack name = name :: stack := by
  simp [push, h.proper]

theorem Plain.components_eq {name : String} (h : Plain name) : components name = [name] := by
  rw [components, pieces_of_no_slash h.no_slash]
  simp

theorem components_append (p q : String) : components (p ++ "/" ++ q) = components p ++ components q := by
  have hlist : (p ++ "/" ++ q).toList = p.toList ++ '/' :: q.toList := by simp
  rw [components, hlist, pieces_append, List.map_append]
  rfl

theorem isAbsolute_append {p : String} (hp : p ≠ "") (q : String) : isAbsolute (p ++ q) = isAbsolute p := by
  have hne : p.toList ≠ [] := by simpa using hp
  obtain ⟨c, cs, hcs⟩ := List.exists_cons_of_ne_nil hne
  rw [isAbsolute, isAbsolute, String.toList_append, hcs, List.cons_append, List.head?_cons, List.head?_cons]

theorem Plain.not_isAbsolute {name : String} (h : Plain name) : isAbsolute name = false := by
  rw [isAbsolute, decide_eq_false_iff_not]
  intro hhead
  exact h.no_slash (List.mem_of_mem_head? hhead)

/-! ## Joining -/

/-- What the paths in a directory start with. -/
def stem (dir : String) : String :=
  (if isAbsolute dir then "/" else "") ++
    if settled dir = [] then "" else String.intercalate "/" (settled dir) ++ "/"

/-- One component more, behind those of a directory. -/
theorem intercalate_append_singleton (cs : List String) (name : String) :
    String.intercalate "/" (cs ++ [name]) =
      (if cs = [] then "" else String.intercalate "/" cs ++ "/") ++ name := by
  split
  · next hnil => simp [hnil]
  · next hne => rw [String.intercalate_append_of_ne_nil hne (by simp), String.intercalate_singleton]

theorem clean_of_settled {p dir name : String} (habsolute : isAbsolute p = isAbsolute dir)
    (hsettled : settled p = settled dir ++ [name]) (hname : name ≠ "") : clean p = stem dir ++ name := by
  have hbody : String.intercalate "/" (settled p) ≠ "" := by
    rw [hsettled, intercalate_append_singleton]
    simp [hname]
  rw [clean, habsolute, stem, String.append_assoc, ← intercalate_append_singleton, ← hsettled]
  simp only [hbody, if_false]
  split
  · rfl
  · rw [String.empty_append]

/-- **Paths in a directory are the names there behind the same start.** -/
theorem join_eq (dir : String) {name : String} (h : Plain name) : join dir name = stem dir ++ name := by
  have hname : name ≠ "" := h.proper.1
  by_cases hdir : dir = ""
  · subst hdir
    rw [join, if_pos rfl, if_neg hname]
    refine clean_of_settled h.not_isAbsolute ?_ hname
    rw [settled, h.components_eq, List.foldl_cons, List.foldl_nil, h.push_eq]
    rfl
  · rw [join, if_neg hdir]
    refine clean_of_settled ?_ ?_ hname
    · rw [String.append_assoc, isAbsolute_append hdir]
    · rw [settled, components_append, h.components_eq, String.append_assoc, isAbsolute_append hdir,
        List.foldl_append, List.foldl_cons, List.foldl_nil, h.push_eq, List.reverse_cons, ← settled]

/-- What paths start with ends in a slash, if it is anything. -/
theorem getLast?_stem {dir : String} {c : Char} (h : c ∈ (stem dir).toList.getLast?) : c = '/' := by
  have hslash {s : String} (hs : c ∈ (s ++ "/").toList.getLast?) : c = '/' := by
    simpa using hs.symm
  rw [stem] at h
  split at h
  · split at h
    · exact hslash (s := "") h
    · rw [← String.append_assoc] at h
      exact hslash h
  · split at h
    · cases h
    · rw [String.empty_append] at h
      exact hslash h

end LazyLambda.Path
