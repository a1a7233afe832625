/-
# LazyLambda.Proofs.Shell.Completion — completing a line only ever extends it by known names.

A line is whatever bytes were typed. A word break is a character, and a character is read wherever it is
spelled (`Text.char_mem_ofBytes_iff`), from whichever end the line is read and whatever stray bytes are around
it. So there is one way to cut a line in front of its last word, and it can be told from the bytes alone:
no word break is spelled in the word, and what precedes the word is empty or ends in one (`Hints.LastWord`).

Names are kept in order and each once, however often they are added. What remains of them for a word is a
part of that list, and so the completions are in order too.
-/
import LazyLambda.Proofs.Shell.Hints
import Mathlib.Data.List.DropRight

namespace LazyLambda

/-! ## Ends of texts -/

namespace Text

theorem dropEndWhile_eq (p : Symbol → Bool) (t : Text) : t.dropEndWhile p = t.rdropWhile p := rfl

theorem takeEndWhile_eq (p : Symbol → Bool) (t : Text) : t.takeEndWhile p = t.rtakeWhile p := rfl

variable {p : Symbol → Bool}

theorem takeEndWhile_append_cons {s : Symbol} {t u : Text} (hs : p s = false)
    (hu : ∀ x ∈ u, p x = true) : takeEndWhile p (t ++ s :: u) = u := by
  have hall : ∀ x ∈ u.reverse, p x = true := fun x hx => hu x (List.mem_reverse.1 hx)
  rw [takeEndWhile, List.reverse_append, List.reverse_cons, List.append_assoc,
    List.takeWhile_append_of_pos hall]
  simp [hs]

/-- The end that is taken of a text is the longest. -/
theorem suffix_takeEndWhile {t u : Text} (h : u <:+ t) (hu : ∀ s ∈ u, p s = true) :
    u <:+ t.takeEndWhile p := by
  obtain ⟨r, rfl⟩ := h
  have hall : ∀ s ∈ u.reverse, p s = true := fun s hs => hu s (List.mem_reverse.1 hs)
  rw [takeEndWhile, List.reverse_append, List.takeWhile_append_of_pos hall, List.reverse_append,
    List.reverse_reverse]
  exact List.suffix_append _ _

end Text

/-! ## The last word -/

/-- Every word break is a character, and no stray byte. -/
theorem Symbol.exists_of_isWordBreak {s : Symbol} (h : s.isWordBreak = true) : ∃ c, s = .char c := by
  match s with
  | .char c => exact ⟨c, rfl⟩
  | .stray b =>
      have hbreak : (Symbol.stray b).isWordBreak = false := rfl
      rw [hbreak] at h
      cases h

namespace Hints

/-- `LastWord line before word`: the line is the word with what precedes it. No word break is spelled in the
word, and the word goes back to the end of one, or else to the start of the line. -/
structure LastWord (line before word : List UInt8) : Prop where
  line_eq : before ++ word = line
  unbroken : ∀ c, (Symbol.char c).isWordBreak = true → ¬ String.utf8EncodeChar c <:+: word
  reaches_back : before = [] ∨
    ∃ c, (Symbol.char c).isWordBreak = true ∧ String.utf8EncodeChar c <:+ before

/-- No word break is spelled in bytes exactly if none is read there. -/
theorem unbroken_iff {word : List UInt8} :
    (∀ c, (Symbol.char c).isWordBreak = true → ¬ String.utf8EncodeChar c <:+: word) ↔
      ∀ s ∈ Text.ofBytes word, (!s.isWordBreak) = true := by
  constructor
  · intro h s hs
    rw [Bool.not_eq_true', Bool.eq_false_iff]
    intro hbreak
    obtain ⟨c, rfl⟩ := Symbol.exists_of_isWordBreak hbreak
    exact h c hbreak (Text.char_mem_ofBytes_iff.1 hs)
  · intro h c hbreak hspelled
    have hc := h _ (Text.char_mem_ofBytes_iff.2 hspelled)
    rw [hbreak] at hc
    cases hc

/-- A last word by its bytes is the last word of the text that is read. -/
theorem LastWord.ofBytes_word {line before word : List UInt8} (h : LastWord line before word) :
    lastWord (.ofBytes line) = Text.ofBytes word := by
  have hword := unbroken_iff.1 h.unbroken
  rw [lastWord, ← h.line_eq]
  rcases h.reaches_back with rfl | ⟨c, hbreak, front, rfl⟩
  · rw [List.nil_append, Text.takeEndWhile_eq]
    exact List.rtakeWhile_eq_self_iff.2 hword
  · rw [List.append_assoc, Text.ofBytes_append_char]
    exact Text.takeEndWhile_append_cons (by rw [hbreak]; rfl) hword

/-- The line is cut where the last word of the text begins. -/
theorem lastWord_ofBytes (line : List UInt8) :
    LastWord line (beforeWord (.ofBytes line)).bytes (lastWord (.ofBytes line)).bytes := by
  have hsplit : beforeWord (.ofBytes line) ++ lastWord (.ofBytes line) = Text.ofBytes line := by
    rw [beforeWord, lastWord, Text.dropEndWhile_eq, Text.takeEndWhile_eq]
    exact List.rdropWhile_append_rtakeWhile
  have hsuffix : lastWord (.ofBytes line) <:+ Text.ofBytes line := ⟨_, hsplit⟩
  refine ⟨?_, ?_, ?_⟩
  · rw [← Text.bytes_append, hsplit, Text.bytes_ofBytes]
  · rw [unbroken_iff, Text.ofBytes_bytes_of_suffix hsuffix]
    exact fun s => List.mem_rtakeWhile_imp
  · by_cases hnil : beforeWord (.ofBytes line) = []
    · exact .inl (by rw [hnil]; rfl)
    · -- the symbol in front of the word is one that a word cannot go on over
      have hlast : ((beforeWord (.ofBytes line)).getLast hnil).isWordBreak = true := by
        have hstop := List.rdropWhile_last_not _ _ hnil
        simp only [Bool.not_eq_true', Bool.not_eq_false] at hstop
        exact hstop
      obtain ⟨c, hc⟩ := Symbol.exists_of_isWordBreak hlast
      refine .inr ⟨c, hc ▸ hlast, Text.bytes (beforeWord (.ofBytes line)).dropLast, ?_⟩
      have hbefore := List.dropLast_append_getLast hnil
      rw [hc] at hbefore
      conv => rhs; rw [← hbefore, Text.bytes_append]
      simp [Text.bytes, Symbol.bytes]

/-- There is one last word. -/
theorem LastWord.eq {line before word : List UInt8} (h : LastWord line before word) :
    before = (beforeWord (.ofBytes line)).bytes ∧ word = (lastWord (.ofBytes line)).bytes := by
  have hword : word = (lastWord (.ofBytes line)).bytes := by
    rw [h.ofBytes_word, Text.bytes_ofBytes]
  have hline : before ++ word = (beforeWord (.ofBytes line)).bytes ++ word := by
    rw [h.line_eq, hword, (lastWord_ofBytes line).line_eq]
  exact ⟨List.append_cancel_right hline, hword⟩

/-- No end of the line that can be read without a word break is longer than the last word. -/
theorem LastWord.longest {line before word : List UInt8} (h : LastWord line before word) {t : Text}
    (ht : t <:+ Text.ofBytes line) (hunbroken : ∀ s ∈ t, s.isWordBreak = false) :
    t <:+ Text.ofBytes word := by
  rw [← h.ofBytes_word]
  exact Text.suffix_takeEndWhile ht fun s hs => by rw [hunbroken s hs]; rfl

/-! ## Added names -/

/-- One addition after the other, no name comes in that was not added. -/
theorem mem_names_addAll {Name : Type} [LT Name] [LE Name] [DecidableLT Name] [DecidableEq Name]
    [Std.LawfulOrderLT Name] [Std.IsLinearOrder Name] (h : Hints Name) (xs : List Name) (x : Name) :
    x ∈ (h.addAll xs).names ↔ x ∈ h.names ∨ x ∈ xs := by
  induction xs generalizing h with
  | nil => simp [addAll]
  | cons y xs ih =>
      rw [addAll, List.foldl_cons, ← addAll, ih, names_add, mem_insertName, List.mem_cons]
      exact or_assoc.trans or_left_comm

/-! ## Completions -/

/-- What a line of bytes is completed to by names that were added in turn, as bytes. -/
def completions (names : List (List UInt8)) (line : List UInt8) : List (List UInt8) :=
  ((empty.addAll names).complete (.ofBytes line)).map Text.bytes

/-- Completing is choosing from the names in order, and putting what precedes the word in front of them. -/
theorem LastWord.completions_eq {line before word : List UInt8} (h : LastWord line before word)
    (names : List (List UInt8)) :
    completions names line = if word = [] then [] else
      ((empty.addAll names).names.filter fun x => word.isPrefixOf x && x != word).map (before ++ ·) := by
  obtain ⟨hbefore, hword⟩ := h.eq
  have hempty : (lastWord (.ofBytes line)).isEmpty = true ↔ word = [] := by
    rw [h.ofBytes_word, List.isEmpty_iff]
    constructor
    · intro hnil
      rw [← Text.bytes_ofBytes word, hnil]
      rfl
    · rintro rfl
      rw [Text.ofBytes]
  rw [completions, complete]
  by_cases hnil : word = []
  · rw [if_pos hnil, if_pos (hempty.2 hnil)]
    rfl
  · have hchosen : completes (lastWord (.ofBytes line)) ∘ Spelling.text =
        fun x : List UInt8 => word.isPrefixOf x && x != word := by
      funext x
      simp only [Function.comp_apply, completes, Spelling.text, Text.bytes_ofBytes, ← hword]
    have hextended : (Text.bytes ∘ fun name => beforeWord (.ofBytes line) ++ name) ∘ Spelling.text =
        fun x : List UInt8 => before ++ x := by
      funext x
      simp only [Function.comp_apply, Spelling.text, Text.bytes_append, Text.bytes_ofBytes, ← hbefore]
    rw [if_neg hnil, if_neg (fun he => hnil (hempty.1 he)), List.filter_map, List.map_map, List.map_map,
      hchosen, hextended]

/-- The names that complete a word are those that were added and go on from it. -/
theorem LastWord.mem_completions {line before word : List UInt8} (h : LastWord line before word)
    (hne : word ≠ []) (names : List (List UInt8)) (c : List UInt8) :
    c ∈ completions names line ↔ ∃ x ∈ names, word <+: x ∧ x ≠ word ∧ c = before ++ x := by
  have hmem := mem_names_addAll empty names
  rw [h.completions_eq, if_neg hne, List.mem_map]
  constructor
  · rintro ⟨x, hx, rfl⟩
    obtain ⟨hx, hgoes⟩ := List.mem_filter.1 hx
    rw [Bool.and_eq_true, List.isPrefixOf_iff_prefix, bne_iff_ne] at hgoes
    exact ⟨x, ((hmem x).1 hx).resolve_left List.not_mem_nil, hgoes.1, hgoes.2, rfl⟩
  · rintro ⟨x, hx, hstart, hproper, rfl⟩
    refine ⟨x, List.mem_filter.2 ⟨(hmem x).2 (.inr hx), ?_⟩, rfl⟩
    rw [Bool.and_eq_true, List.isPrefixOf_iff_prefix, bne_iff_ne]
    exact ⟨hstart, hproper⟩

theorem LastWord.pairwise_completions {line before word : List UInt8} (h : LastWord line before word)
    (names : List (List UInt8)) : (completions names line).Pairwise (· < ·) := by
  rw [h.completions_eq]
  split
  · exact .nil
  · have hchosen := (empty.addAll names).sorted.filter fun x => word.isPrefixOf x && x != word
    exact List.pairwise_map.2 (hchosen.imp fun hlt => List.append_left_lt hlt)

/-- A name that goes on from the word makes the line go on. -/
theorem LastWord.line_prefix {line before word x : List UInt8} (h : LastWord line before word)
    (hstart : word <+: x) (hproper : x ≠ word) : line <+: before ++ x ∧ before ++ x ≠ line := by
  rw [← h.line_eq]
  refine ⟨(List.prefix_append_right_inj before).2 hstart, fun heq => ?_⟩
  exact hproper (List.append_cancel_left heq)

/-! ## Strings -/

/-- The bytes that spell a string. -/
def spelling (x : String) : List UInt8 := (Text.ofString x).bytes

/-- Strings are in the order of the bytes that spell them, and so they are put in the same place. -/
theorem map_insertName (x : String) (names : List String) :
    (insertName x names).map spelling = insertName (spelling x) (names.map spelling) := by
  induction names with
  | nil => rfl
  | cons y rest ih =>
      rw [insertName, List.map_cons, insertName]
      rcases Std.lt_trichotomy x y with hlt | rfl | hgt
      · have hbytes : spelling x < spelling y := Text.bytes_ofString_lt hlt
        rw [if_pos hlt, if_pos hbytes]
        rfl
      · rw [if_neg Std.lt_irrefl, if_pos rfl, if_neg Std.lt_irrefl, if_pos rfl]
        rfl
      · have hbytes : spelling y < spelling x := Text.bytes_ofString_lt hgt
        rw [if_neg (Std.not_gt_of_lt hgt), if_neg (Std.ne_of_lt hgt).symm, if_neg (Std.not_gt_of_lt hbytes),
          if_neg (Std.ne_of_lt hbytes).symm, List.map_cons, ih]

theorem names_addAll_spelling {h : Hints} {k : Hints (List UInt8)} (hk : k.names = h.names.map spelling)
    (xs : List String) : (k.addAll (xs.map spelling)).names = (h.addAll xs).names.map spelling := by
  induction xs generalizing h k with
  | nil => exact hk
  | cons x xs ih =>
      refine ih ?_
      rw [names_add, names_add, map_insertName, hk]

/-- Strings complete a line as the bytes that spell them do. -/
theorem complete_addAll_spelling (names : List String) (line : Text) :
    (empty.addAll names).complete line = (empty.addAll (names.map spelling)).complete line := by
  have hnames : (empty.addAll (names.map spelling)).names = (empty.addAll names).names.map spelling :=
    names_addAll_spelling rfl names
  have htext : Spelling.text ∘ spelling = Spelling.text := funext Text.ofBytes_bytes_ofString
  rw [complete, complete, hnames, List.map_map, htext]

/-! ## Exactness -/

/-- **Completion only ever extends the line by known names.** Every line comes apart in one way into its last
word, which is the longest end that can be read without a word break, and what precedes it. Without a last
word there are no completions. Otherwise these are what precedes the word followed by a name, for each name
that was added and goes on from the word; they are in increasing order, so that each comes once. So every
completion goes on from the whole line.

This holds of names of any bytes, and strings complete a line as their bytes do. -/
theorem completions_extend_last_word (line : List UInt8) :
    ∃ before word, LastWord line before word ∧
      (∀ before' word', LastWord line before' word' → before' = before ∧ word' = word) ∧
      (∀ t, t <:+ Text.ofBytes line → (∀ s ∈ t, s.isWordBreak = false) → t <:+ Text.ofBytes word) ∧
      (∀ names : List (List UInt8),
        (word = [] → completions names line = []) ∧
        (word ≠ [] → ∀ c, c ∈ completions names line ↔
          ∃ x ∈ names, word <+: x ∧ x ≠ word ∧ c = before ++ x) ∧
        (completions names line).Pairwise (· < ·) ∧
        ∀ c ∈ completions names line, line <+: c ∧ c ≠ line) ∧
      ∀ names : List String, ((empty.addAll names).complete (.ofBytes line)).map Text.bytes =
        completions (names.map spelling) line := by
  have hword := lastWord_ofBytes line
  have hnone (names : List (List UInt8)) (hnil : (lastWord (.ofBytes line)).bytes = []) :
      completions names line = [] := by
    rw [hword.completions_eq, if_pos hnil]
  refine ⟨_, _, hword, fun _ _ h => h.eq, fun t => hword.longest, fun names => ?_, fun names => ?_⟩
  · refine ⟨hnone names, fun hne => hword.mem_completions hne names, hword.pairwise_completions names, ?_⟩
    intro c hc
    have hne : (lastWord (.ofBytes line)).bytes ≠ [] := by
      intro hnil
      rw [hnone names hnil] at hc
      cases hc
    obtain ⟨x, -, hstart, hproper, rfl⟩ := (hword.mem_completions hne names c).1 hc
    exact hword.line_prefix hstart hproper
  · rw [complete_addAll_spelling]
    rfl

end Hints

end LazyLambda
