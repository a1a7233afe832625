/-
# LazyLambda.Proofs.Library.Directory — a directory is read whole and in natural order.

The modules of a directory are sorted by their paths, and the natural order of paths is no order in general.
It is one here: names of modules end in no digit, and paths in one directory start alike, so that numbers in
the path of the directory come out equal or count by their characters in all of them. What remains to be
asked is that the numbers in the names fit in a word.
-/
import LazyLambda.Library.Directory
import LazyLambda.Proofs.Files.Path
import LazyLambda.Proofs.Text.Natural

namespace LazyLambda.Library

/-! ## Names of modules -/

theorem isModule_iff (e : String × Bool) :
    isModule e = true ↔ e.2 = false ∧ extension.toList <:+ e.1.toList := by
  rw [isModule, Bool.and_eq_true, Bool.not_eq_true', List.isSuffixOf_iff_suffix]

theorem plain_of_isModule {e : String × Bool} (h : isModule e = true) (hslash : '/' ∉ e.1.toList) :
    Path.Plain e.1 := by
  obtain ⟨-, hsuffix⟩ := (isModule_iff e).1 h
  have hne {s : String} (hs : ¬ extension.toList <:+ s.toList) : e.1 ≠ s := by
    rintro rfl
    exact hs hsuffix
  exact ⟨hslash, hne (by decide), hne (by decide), hne (by decide)⟩

theorem numbered_of_isModule {e : String × Bool} (h : isModule e = true)
    (hfits : ∀ n ∈ Text.numbers e.1.toList, n < Nat.pow 2 64) : Text.Numbered e.1.toList := by
  obtain ⟨-, front, hfront⟩ := (isModule_iff e).1 h
  refine ⟨hfits, fun c hc => ?_⟩
  rw [← hfront, List.getLast?_append] at hc
  obtain rfl : 'c' = c := by simpa [extension] using hc
  decide

/-! ## Order of sources -/

/-- A source in a directory, under a name whose numbers are compared as such. -/
def Lies (dir : String) (s : Source) : Prop :=
  ∃ name : String, s.name = Path.stem dir ++ name ∧ Text.Numbered name.toList

/-- Sources in a directory are told apart by keys. -/
theorem pairwise_sortBy_before (dir : String) {sources : List Source} (h : ∀ s ∈ sources, Lies dir s) :
    (Text.sortBy Source.before sources).Pairwise fun s t => t.before s = false := by
  have hstem : ∀ c ∈ (Path.stem dir).toList.getLast?, c.isDigit = false := by
    intro c hc
    obtain rfl := Path.getLast?_stem hc
    decide
  -- what a source is called within the directory
  let rest (s : Source) : List Char := s.name.toList.drop (Path.stem dir).toList.length
  have hrest {s : Source} {name : String} (hs : s.name = Path.stem dir ++ name) : rest s = name.toList := by
    show s.name.toList.drop _ = _
    rw [hs, String.toList_append, List.drop_left]
  rcases Text.naturalLess_append (Path.stem dir).toList hstem with hnumbers | hplain
  · refine Text.pairwise_sortBy (k := fun s => Text.key (rest s)) (p := Lies dir) ?_ h
    rintro s t ⟨x, hs, hx⟩ ⟨y, ht, hy⟩
    rw [Source.before, hs, ht, String.toList_append, String.toList_append, hnumbers, hrest hs, hrest ht]
    exact Text.naturalLess_iff_key_lt hx hy
  · refine Text.pairwise_sortBy (k := rest) (p := Lies dir) ?_ h
    rintro s t ⟨x, hs, -⟩ ⟨y, ht, -⟩
    rw [Source.before, hs, ht, String.toList_append, String.toList_append, hplain, hrest hs, hrest ht,
      decide_eq_true_eq]

/-! ## Reading -/

theorem readAll_eq {v : Files.View} {dir : String} (text : String → Text) {names : List String}
    (h : ∀ x ∈ names, v.read (Path.join dir x) = .ok (text x)) :
    readAll v dir names = .ok (names.map fun x => ⟨Path.join dir x, text x⟩) := by
  induction names with
  | nil => rfl
  | cons x names ih =>
      obtain ⟨hx, hrest⟩ := List.forall_mem_cons.1 h
      rw [readAll, hx, ih hrest]
      rfl

theorem readDirectory_eq {v : Files.View} {dir : String} {entries : List (String × Bool)}
    (hdir : v.isDirectory dir = .ok true) (hlist : v.list dir = .ok entries) {sources : List Source}
    (hall : readAll v dir ((entries.filter isModule).map Prod.fst) = .ok sources) :
    readDirectory v dir = .ok (Text.sortBy Source.before sources) := by
  rw [readDirectory, hdir, hlist]
  show (readAll v dir ((entries.filter isModule).map Prod.fst) >>= fun sources =>
    pure (Text.sortBy Source.before sources)) = _
  rw [hall]
  rfl

/-- **A directory is read whole and in natural order.** Take a directory that can be listed, and the texts of
the modules in it: the files whose names end in `.lc`. A name in a directory has no slash. If the numbers in
the names of modules fit in an unsigned word of 64 bits, reading the directory gives one source for each
module, under the joined path and with its own text, and nothing else. No source comes before an earlier one
in the natural order of their paths, whatever the path of the directory. -/
theorem readDirectory_whole_in_order (v : Files.View) (dir : String) (entries : List (String × Bool))
    (text : String → Text) (hdir : v.isDirectory dir = .ok true) (hlist : v.list dir = .ok entries)
    (hslash : ∀ e ∈ entries, '/' ∉ e.1.toList)
    (hread : ∀ e ∈ entries, isModule e = true → v.read (Path.join dir e.1) = .ok (text e.1))
    (hnumbers : ∀ e ∈ entries, isModule e = true → ∀ n ∈ Text.numbers e.1.toList, n < Nat.pow 2 64) :
    ∃ sources, readDirectory v dir = .ok sources ∧
      sources.Perm ((entries.filter isModule).map fun e => ⟨Path.join dir e.1, text e.1⟩) ∧
      sources.Pairwise fun s t => t.before s = false := by
  have hall : readAll v dir ((entries.filter isModule).map Prod.fst) =
      .ok ((entries.filter isModule).map fun e => ⟨Path.join dir e.1, text e.1⟩) := by
    rw [readAll_eq text, List.map_map]
    · rfl
    · intro x hx
      obtain ⟨e, he, rfl⟩ := List.mem_map.1 hx
      exact hread e (List.mem_filter.1 he).1 (List.mem_filter.1 he).2
  refine ⟨_, readDirectory_eq hdir hlist hall, Text.perm_sortBy _, pairwise_sortBy_before dir ?_⟩
  intro s hs
  obtain ⟨e, he, rfl⟩ := List.mem_map.1 hs
  obtain ⟨hmem, hmodule⟩ := List.mem_filter.1 he
  exact ⟨e.1, Path.join_eq dir (plain_of_isModule hmodule (hslash e hmem)),
    numbered_of_isModule hmodule (hnumbers e hmem hmodule)⟩

/-- Names of equal numbers tie and stay as they were listed; directories and other files are left out. -/
theorem readDirectory_whole_in_order_tied :
    let dir := "lib7"
    let entries := [("02_x.lc", false), ("10_y.lc", false), ("2_x.lc", false), ("3.lc", true), ("notes", false)]
    let v : Files.View := {
      isDirectory := fun _ => .ok true
      list := fun _ => .ok entries
      read := fun path => .ok (.ofString path) }
    let text (name : String) : Text := .ofString (Path.join dir name)
    let sources : List Source := ["02_x.lc", "2_x.lc", "10_y.lc"].map fun x => ⟨Path.join dir x, text x⟩
    (∀ e ∈ entries, '/' ∉ e.1.toList) ∧
      (∀ e ∈ entries, isModule e = true → v.read (Path.join dir e.1) = .ok (text e.1)) ∧
      (∀ e ∈ entries, isModule e = true → ∀ n ∈ Text.numbers e.1.toList, n < Nat.pow 2 64) ∧
      readDirectory v dir = .ok sources ∧
      sources.Perm ((entries.filter isModule).map fun e => ⟨Path.join dir e.1, text e.1⟩) ∧
      sources.Pairwise fun s t => t.before s = false := by
  intro dir entries v text sources
  have hslash : ∀ e ∈ entries, '/' ∉ e.1.toList := by decide
  have hnumbers : ∀ e ∈ entries, isModule e = true → ∀ n ∈ Text.numbers e.1.toList, n < Nat.pow 2 64 := by
    decide +kernel
  have hsources : (readDirectory v dir).toOption = some sources := by decide +kernel
  obtain ⟨sources', hread, hwhole, horder⟩ :=
    readDirectory_whole_in_order v dir entries text rfl rfl hslash (fun e _ _ => rfl) hnumbers
  obtain rfl : sources' = sources := by
    rw [hread] at hsources
    exact Option.some.inj hsources
  exact ⟨hslash, fun e _ _ => rfl, hnumbers, hread, hwhole, horder⟩

end LazyLambda.Library
