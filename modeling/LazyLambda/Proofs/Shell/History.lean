/-
# LazyLambda.Proofs.Shell.History — inputs on one line.

An input of several lines goes into the history on one, with a space for every line feed. Every line of it but
the last was left with parentheses open, and inside parentheses the end of a line means nothing. So the item
holds the same statements as the input, with one exception: a line feed also ends a comment, and a space does
not. Where an item cuts out the end of a comment (`cutsComment`), the comment runs on through the lines behind
it. Most often it hides all of them, and the parentheses that were open there are never closed. Another
character that ends a line, such as a carriage return, also ends the comment. Then the item may be read, but
without what stands between the two.
-/
import LazyLambda.Proofs.Module.Words
import LazyLambda.Proofs.Shell.Inputs

namespace LazyLambda.Shell

open Text (commentAfter endsInComment)

/-! ## Items -/

theorem historyItem_append (a b : Text) : historyItem (a ++ b) = historyItem a ++ historyItem b :=
  List.map_append

theorem historyItem_append_lineFeed (a b : Text) :
    historyItem (a ++ .char '\n' :: b) = historyItem a ++ .char ' ' :: historyItem b := by
  rw [historyItem_append]
  rfl

/-- A single line is its own item. -/
theorem historyItem_of_line {line : Text} (h : .char '\n' ∉ line) : historyItem line = line := by
  have hsame : ∀ s ∈ line, (if s = .char '\n' then .char ' ' else s) = id s := by
    intro s hs
    refine if_neg fun heq => ?_
    subst heq
    exact h hs
  rw [historyItem, List.map_congr_left hsame, List.map_id]

theorem not_isLineEnd_of_mem_historyItem {t : Text}
    (h : ∀ c ∈ t, c.isLineEnd = true → c = .char '\n') : ∀ c ∈ historyItem t, c.isLineEnd = false := by
  intro c hc
  obtain ⟨s, hs, rfl⟩ := List.mem_map.1 hc
  split
  · decide
  · next hne => exact Bool.eq_false_iff.2 fun hend => hne (h s hs hend)

/-- Blank inputs and comments aside, inputs go into the history on one line. -/
theorem history_respond (s : Session) (input : Text) :
    (respond s input).history =
      if input.trim = [] ∨ input.trim.head? = some (.char '#') then none
      else some (historyItem input) := by
  unfold respond
  split
  · next h => rw [if_pos (.inl h)]
  · next h => rw [if_pos (.inr (by rw [h]; rfl))]
  · next h => rw [if_neg (by simp [h])]
  · next hnil hcomment _ =>
      rw [if_neg]
      rintro (h | h)
      · exact hnil h
      · obtain ⟨rest, hrest⟩ := List.head?_eq_some_iff.1 h
        exact hcomment rest hrest

/-! ## Comments that are cut -/

/-- Whether a line feed ends a comment, given whether one is open in front of the text. -/
def cutsFrom (inside : Bool) : Text → Bool
  | [] => false
  | s :: t => inside && s = .char '\n' || cutsFrom (commentAfter inside s) t

/-- Whether a line feed in the text ends a comment, which a space in its place would not do. -/
def cutsComment (t : Text) : Bool := cutsFrom false t

theorem cutsFrom_append (inside : Bool) (a b : Text) :
    cutsFrom inside (a ++ b) = (cutsFrom inside a || cutsFrom (a.foldl commentAfter inside) b) := by
  induction a generalizing inside with
  | nil => rfl
  | cons s a ih => rw [List.cons_append, cutsFrom, cutsFrom, ih, List.foldl_cons, Bool.or_assoc]

theorem cutsFrom_of_line {line : Text} (h : .char '\n' ∉ line) (inside : Bool) :
    cutsFrom inside line = false := by
  induction line generalizing inside with
  | nil => rfl
  | cons s line ih =>
      rw [List.mem_cons, not_or] at h
      rw [cutsFrom, ih h.2, decide_eq_false (Ne.symm h.1), Bool.and_false, Bool.or_false]

theorem cutsComment_append_lineFeed (a b : Text) :
    cutsComment (a ++ .char '\n' :: b) = (cutsComment a || (endsInComment a || cutsComment b)) := by
  have hstop : commentAfter (endsInComment a) (.char '\n') = false :=
    Text.commentAfter_of_stop _ (by decide)
  rw [cutsComment, cutsFrom_append]
  show (_ || cutsFrom (endsInComment a) (.char '\n' :: b)) = _
  rw [cutsFrom, hstop, decide_eq_true rfl, Bool.and_true, cutsComment, cutsComment]

/-! ## One line for several -/

/-- `Retyped t u`: the second text says on one line what the first says on several. -/
structure Retyped (t u : Text) : Prop where
  words : SameWords (Grammar.joined 0 (Lexed.ofText t).tokens) (Grammar.joined 0 (Lexed.ofText u).tokens)
  unread : (Lexed.ofText u).unread = (Lexed.ofText t).unread
  comment : endsInComment u = endsInComment t

theorem retyped_of_line {line : Text} (h : .char '\n' ∉ line) : Retyped line (historyItem line) := by
  rw [historyItem_of_line h]
  exact ⟨.refl _, rfl, rfl⟩

theorem Retyped.openParens_eq {t u : Text} (h : Retyped t u) : openParens u = openParens t :=
  calc openParens u = Parser.balance (Grammar.joined 0 (Lexed.ofText u).tokens) :=
        (Parser.balance_joined 0 _).symm
    _ = Parser.balance (Grammar.joined 0 (Lexed.ofText t).tokens) :=
        (Parser.balance_of_sameWords h.words).symm
    _ = openParens t := Parser.balance_joined 0 _

/-- Texts that say the same still do so when the same words come after them. -/
theorem Retyped.joined_append {t u : Text} (h : Retyped t u) {ts us : List Token} (hwords : SameWords ts us) :
    SameWords (Grammar.joined 0 ((Lexed.ofText t).tokens ++ ts))
      (Grammar.joined 0 ((Lexed.ofText u).tokens ++ us)) := by
  have hsame : Parser.openAfter 0 (Lexed.ofText u).tokens = Parser.openAfter 0 (Lexed.ofText t).tokens := by
    rw [← Parser.openAfter_joined, ← Parser.openAfter_of_sameWords 0 h.words, Parser.openAfter_joined]
  rw [Parser.joined_append, Parser.joined_append, hsame]
  exact h.words.append (Parser.joined_sameWords _ hwords)

/-- **One more line.** While parentheses are open the end of a line is as good as a space, provided that no
comment is open. -/
theorem Retyped.append_line {a u : Text} (h : Retyped a u) (hread : (Lexed.ofText a).unread = [])
    (hopen : 0 < openParens a) (hcomment : endsInComment a = false) (b : Text) :
    Retyped (a ++ .char '\n' :: b) (u ++ .char ' ' :: b) := by
  have hreadu : (Lexed.ofText u).unread = [] := h.unread.trans hread
  have hcommentu : endsInComment u = false := h.comment.trans hcomment
  have ha := Lexed.ofTextAt_append_lineFeed b hread
  have hu := Lexed.ofTextAt_append_space b hreadu hcommentu
  obtain ⟨hwords, hunread⟩ := Lexed.words_ofTextAt ((Lexed.ofText a).stop.after (.char '\n'))
    ((Lexed.ofText u).stop.after (.char ' ')) b
  refine ⟨?_, ?_, ?_⟩
  · -- the line feed is inside parentheses, and joining takes it away
    have hdepth : 0 < Parser.openAfter 0 (Lexed.ofText a).tokens := by
      have hle := Parser.add_balance_le_openAfter 0 (Lexed.ofText a).tokens
      have hbalance : 0 < Parser.balance (Lexed.ofText a).tokens := hopen
      omega
    rw [Lexed.ofText, Lexed.ofText, ha, hu]
    show SameWords (Grammar.joined 0 (((Lexed.ofText a).tokens ++ [_]) ++ _))
      (Grammar.joined 0 ((Lexed.ofText u).tokens ++ _))
    rw [List.append_assoc, List.singleton_append, Parser.joined_append_newline hdepth rfl]
    exact h.joined_append hwords
  · rw [Lexed.ofText, Lexed.ofText, ha, hu]
    exact hunread.symm
  · rw [Text.endsInComment_append_stop u b (by rw [hcommentu]; decide),
      Text.endsInComment_append_stop a b (Text.commentAfter_of_stop _ (by decide))]

/-- Where line feeds inside parentheses are left out, texts of the same words hold the same module. -/
theorem parse_of_sameWords {t u : Text}
    (h : SameWords (Grammar.joined 0 (Lexed.ofText t).tokens) (Grammar.joined 0 (Lexed.ofText u).tokens))
    {name : String} {m : Module} (hparse : Parser.parse name t = .ok m) : Parser.parse name u = .ok m := by
  have hread : Parser.read u = Parser.read t :=
    Parser.readTokens_of_sameWords h (Parser.faults_of_parse hparse)
  rw [Parser.parse, hread]
  exact hparse

/-! ## Lines that end in a comment -/

/-- `CutsAt input text`: the input goes on from the text on another line, while parentheses and a comment
are open. Up to there no comment is cut, and the input can be said on one line. -/
structure CutsAt (input text : Text) : Prop where
  goesOn : ∃ more, input = text ++ .char '\n' :: more
  first : cutsComment text = false
  comment : endsInComment text = true
  isOpen : 0 < openParens text
  unread : (Lexed.ofText text).unread = []
  retyped : Retyped text (historyItem text)

/-- Where a comment is cut, it hides what follows up to the next end of a line that is left. -/
theorem CutsAt.words_historyItem {text more : Text} (h : CutsAt (text ++ .char '\n' :: more) text) :
    SameWords
      (Grammar.joined 0
        (Lexed.ofText (text ++ .char ' ' :: (historyItem more).dropWhile Symbol.inComment)).tokens)
      (Grammar.joined 0 (Lexed.ofText (historyItem (text ++ .char '\n' :: more))).tokens) := by
  have hread : (Lexed.ofText (historyItem text)).unread = [] := h.retyped.unread.trans h.unread
  have hcomment : endsInComment (historyItem text) = true := h.retyped.comment.trans h.comment
  have hitem := Lexed.ofTextAt_append_in_comment (historyItem more) hread hcomment
  have hshort := Lexed.ofTextAt_append_in_comment ((historyItem more).dropWhile Symbol.inComment)
    h.unread h.comment
  rw [List.dropWhile_idempotent] at hshort
  rw [historyItem_append_lineFeed, Lexed.ofText, Lexed.ofText, hitem, hshort]
  exact h.retyped.joined_append (Lexed.words_ofTextAt _ _ _).1

-- a carriage return ends the comment in the item, and the second name is lost
example :
    let input : Text := "(a # c\nb\r)".toList.map .char
    Parser.read input = ⟨[.bare (.apply (.name "a") (.name "b"))], []⟩ ∧
      Parser.read (historyItem input) = ⟨[.bare (.name "a")], []⟩ := by
  rw [String.toList_ofList]
  decide +kernel

/-- Where no end of a line is left, it also hides what closes the parentheses. -/
theorem CutsAt.openParens_historyItem {input text : Text} (h : CutsAt input text)
    (hinput : ∀ c ∈ input, c.isLineEnd = true → c = .char '\n') : 0 < openParens (historyItem input) := by
  obtain ⟨more, rfl⟩ := h.goesOn
  have hmore : ∀ c ∈ historyItem more, c.isLineEnd = false :=
    not_isLineEnd_of_mem_historyItem fun c hc =>
      hinput c (List.mem_append_right text (List.mem_cons_of_mem _ hc))
  have hread : (Lexed.ofText (historyItem text)).unread = [] := h.retyped.unread.trans h.unread
  have hcomment : endsInComment (historyItem text) = true := h.retyped.comment.trans h.comment
  rw [historyItem_append_lineFeed, openParens, Lexed.ofText,
    Lexed.tokens_append_in_comment hread hcomment hmore]
  show 0 < openParens (historyItem text)
  rw [h.retyped.openParens_eq]
  exact h.isOpen

theorem CutsAt.cutsComment_eq {input text : Text} (h : CutsAt input text) : cutsComment input = true := by
  obtain ⟨more, rfl⟩ := h.goesOn
  rw [cutsComment_append_lineFeed, h.comment, Bool.true_or, Bool.or_true]

/-! ## Reading inputs -/

namespace State

variable {st : State} {line input : Text} {lines rest : List Text}

/-- An input goes on from what has been typed of it, on another line. -/
theorem prefix_of_readInput {text : Text} (hpending : st.pending = some text)
    (h : st.readInput lines = some (input, rest)) : ∃ more, input = text ++ .char '\n' :: more := by
  induction lines generalizing st text with
  | nil => cases h
  | cons line lines ih =>
      have htyped : st.typed line = text ++ .char '\n' :: line := by rw [typed, hpending]
      by_cases hopen : 0 < openParens (st.typed line)
      · rw [readInput_of_open lines hopen] at h
        obtain ⟨more, rfl⟩ := ih rfl h
        exact ⟨line ++ .char '\n' :: more, by rw [htyped, List.append_assoc, List.cons_append]⟩
      · rw [readInput_of_closed lines hopen] at h
        cases h
        exact ⟨line, htyped⟩

/-- What ends early with parentheses open never becomes an input. -/
theorem readInput_of_unread {text : Text} (hpending : st.pending = some text)
    (hopen : 0 < openParens text) (hunread : (Lexed.ofText text).unread ≠ []) :
    st.readInput lines = none := by
  induction lines generalizing st text with
  | nil => rfl
  | cons line lines ih =>
      have htyped : st.typed line = text ++ .char '\n' :: line := by rw [typed, hpending]
      obtain ⟨htokens, hrest⟩ := Lexed.ofTextAt_append_of_unread line hunread
      have hopen' : 0 < openParens (st.typed line) := by
        rw [htyped, openParens, Lexed.ofText, htokens]
        exact hopen
      rw [readInput_of_open lines hopen']
      exact ih rfl hopen' (htyped ▸ hrest)

/-- What has been typed of an input has parentheses open, cuts no comment, and can be said on one line. -/
def OneLine (st : State) : Prop :=
  ∀ text ∈ st.pending, 0 < openParens text ∧ cutsComment text = false ∧ Retyped text (historyItem text)

/-- One more line: the input cuts a comment right in front of it, or all that has been typed can still be
said on one line. -/
theorem OneLine.typed (h : st.OneLine) (hline : .char '\n' ∉ line)
    (hread : st.readInput (line :: lines) = some (input, rest)) :
    (∃ text, CutsAt input text) ∨
      cutsComment (st.typed line) = false ∧ Retyped (st.typed line) (historyItem (st.typed line)) := by
  cases hpending : st.pending with
  | none =>
      have htyped : st.typed line = line := by rw [State.typed, hpending]
      rw [htyped]
      exact .inr ⟨cutsFrom_of_line hline false, retyped_of_line hline⟩
  | some text =>
      have htyped : st.typed line = text ++ .char '\n' :: line := by rw [State.typed, hpending]
      obtain ⟨hopen, hcuts, hretyped⟩ := h text hpending
      have hunread : (Lexed.ofText text).unread = [] := by
        refine Decidable.byContradiction fun hne => ?_
        rw [readInput_of_unread hpending hopen hne] at hread
        cases hread
      cases hcomment : endsInComment text with
      | true => exact .inl ⟨text, prefix_of_readInput hpending hread, hcuts, hcomment, hopen, hunread, hretyped⟩
      | false =>
          rw [htyped, cutsComment_append_lineFeed, hcuts, hcomment, historyItem_append_lineFeed,
            historyItem_of_line hline]
          exact .inr ⟨cutsFrom_of_line hline false, hretyped.append_line hunread hopen hcomment line⟩

/-- **An input can be said on one line, unless that cuts a comment.** -/
theorem OneLine.readInput (h : st.OneLine) (hlines : ∀ line ∈ lines, .char '\n' ∉ line)
    (hread : st.readInput lines = some (input, rest)) :
    (∃ text, CutsAt input text) ∨ cutsComment input = false ∧ Retyped input (historyItem input) := by
  induction lines generalizing st with
  | nil => cases hread
  | cons line lines ih =>
      rw [List.forall_mem_cons] at hlines
      rcases h.typed hlines.1 hread with hcuts | ⟨hcuts, hretyped⟩
      · exact .inl hcuts
      · by_cases hopen : 0 < openParens (st.typed line)
        · rw [readInput_of_open lines hopen] at hread
          refine ih (fun text htext => ?_) hlines.2 hread
          cases htext
          exact ⟨hopen, hcuts, hretyped⟩
        · rw [readInput_of_closed lines hopen] at hread
          cases hread
          exact .inr ⟨hcuts, hretyped⟩

end State

/-- **A history item holds what the input held, unless it cuts a comment.** Take an input that is read from
lines, goes into the history and parses. If none of its line feeds ends a comment, the item that goes into the
history parses to the same module. If one does, and no other character ends a line, the item never parses:
parentheses are left open in it. In general the item is read as the text in front of the first such line feed
and, after it, only what stands there from the next end of a line on that is not a line feed. -/
theorem history_item_parses_alike (s : Session) (lines rest : List Text) (input item : Text)
    (name : String) (m : Module) (hlines : ∀ line ∈ lines, .char '\n' ∉ line)
    (hread : State.readInput ⟨s, none⟩ lines = some (input, rest))
    (hhistory : (respond s input).history = some item) (hparse : Parser.parse name input = .ok m) :
    item = historyItem input ∧
      (cutsComment input = false → Parser.parse name item = .ok m) ∧
      (cutsComment input = true → (∀ c ∈ input, c.isLineEnd = true → c = .char '\n') →
        0 < openParens item ∧ ∀ m', Parser.parse name item ≠ .ok m') ∧
      (cutsComment input = true → ∃ text more, input = text ++ .char '\n' :: more ∧
        cutsComment text = false ∧ endsInComment text = true ∧ 0 < openParens text ∧
        ∀ m', Parser.parse name item = .ok m' ↔
          Parser.parse name (text ++ .char ' ' :: (historyItem more).dropWhile Symbol.inComment) =
            .ok m') := by
  have hitem : item = historyItem input := by
    rw [history_respond] at hhistory
    split at hhistory
    · cases hhistory
    · cases hhistory
      rfl
  have hready : State.OneLine ⟨s, none⟩ := by
    intro text htext
    cases htext
  subst hitem
  refine ⟨rfl, fun hcuts => ?_, fun hcuts hinput => ?_, fun hcuts => ?_⟩
  · rcases hready.readInput hlines hread with ⟨text, hat⟩ | ⟨-, hretyped⟩
    · rw [hat.cutsComment_eq] at hcuts
      cases hcuts
    · exact parse_of_sameWords hretyped.words hparse
  · rcases hready.readInput hlines hread with ⟨text, hat⟩ | ⟨hnone, -⟩
    · have hopen : 0 < openParens (historyItem input) := hat.openParens_historyItem hinput
      refine ⟨hopen, fun m' hm' => ?_⟩
      have hbalance : openParens (historyItem input) = 0 := Parser.balance_of_parse hm'
      omega
    · rw [hnone] at hcuts
      cases hcuts
  · rcases hready.readInput hlines hread with ⟨text, hat⟩ | ⟨hnone, -⟩
    · obtain ⟨more, rfl⟩ := hat.goesOn
      have hwords := hat.words_historyItem
      exact ⟨text, more, rfl, hat.first, hat.comment, hat.isOpen,
        fun m' => ⟨parse_of_sameWords hwords.symm, parse_of_sameWords hwords⟩⟩
    · rw [hnone] at hcuts
      cases hcuts

/-- A comment at the end of the last line is not cut. -/
theorem history_item_parses_alike_last_comment :
    let lines : List Text := ["K = (\\a", "  \\b a) # first"].map fun l => l.toList.map .char
    let input := "K = (\\a\n  \\b a) # first".toList.map .char
    let item := "K = (\\a   \\b a) # first".toList.map .char
    let m : Module := ⟨moduleName, [.define "K" (.lambda "a" (.lambda "b" (.name "a")))]⟩
    let s := Session.new (.ofBound 5)
    (∀ line ∈ lines, .char '\n' ∉ line) ∧ State.readInput ⟨s, none⟩ lines = some (input, []) ∧
      (respond s input).history = some item ∧ Parser.parse moduleName input = .ok m ∧
      cutsComment input = false ∧ Parser.parse moduleName item = .ok m := by
  -- a literal is the string of its characters, which saves decoding it
  simp -zeta only [List.map_cons, List.map_nil]
  repeat rw [String.toList_ofList]
  intro lines input item m s
  have hlines : ∀ line ∈ lines, .char '\n' ∉ line := by decide +kernel
  have hread : State.readInput ⟨s, none⟩ lines = some (input, []) := by decide +kernel
  have hhistory : (respond s input).history = some item := by
    rw [history_respond]
    decide +kernel
  have hparse : Parser.parse moduleName input = .ok m := by
    have hinput : Parser.read input = ⟨m.statements, []⟩ := by decide +kernel
    rw [Parser.parse, hinput]
    rfl
  have hcuts : cutsComment input = false := by decide +kernel
  exact ⟨hlines, hread, hhistory, hparse, hcuts,
    (history_item_parses_alike s lines [] input item moduleName m hlines hread hhistory hparse).2.1 hcuts⟩

/-- Behind a comment on the first line the parenthesis is not closed in the item. -/
theorem history_item_cuts_comment :
    let lines : List Text := ["(\\x x # id", ")"].map fun l => l.toList.map .char
    let input := "(\\x x # id\n)".toList.map .char
    let item := "(\\x x # id )".toList.map .char
    let m : Module := ⟨moduleName, [.bare (.lambda "x" (.name "x"))]⟩
    let s := Session.new (.ofBound 5)
    (∀ line ∈ lines, .char '\n' ∉ line) ∧ State.readInput ⟨s, none⟩ lines = some (input, []) ∧
      (respond s input).history = some item ∧ Parser.parse moduleName input = .ok m ∧
      ∀ m', Parser.parse moduleName item ≠ .ok m' := by
  simp -zeta only [List.map_cons, List.map_nil]
  repeat rw [String.toList_ofList]
  intro lines input item m s
  refine ⟨by decide +kernel, by decide +kernel, ?_, ?_, fun m' hm' => ?_⟩
  · rw [history_respond]
    decide +kernel
  · have hinput : Parser.read input = ⟨m.statements, []⟩ := by decide +kernel
    rw [Parser.parse, hinput]
    rfl
  · have hopen : openParens item = 1 := by decide +kernel
    have hbalance : openParens item = 0 := Parser.balance_of_parse hm'
    omega

end LazyLambda.Shell
