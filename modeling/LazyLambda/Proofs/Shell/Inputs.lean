/-
# LazyLambda.Proofs.Shell.Inputs — which lines make up one input.

The shell asks for another line while more parentheses have been opened than closed in what has been
typed. That is one count over all of it, and a parenthesis too many in one statement makes up for one that
is missing in another. The reader counts for each statement anew.

They agree nevertheless. Every line of an input but the last was left with parentheses open
(`State.LeftOpen`), so an input whose last statement leaves one open is not complete yet; and what parses
has no parenthesis left to wait for.
-/
import LazyLambda.Proofs.Module.Parentheses
import LazyLambda.Shell.Basic

namespace LazyLambda.Shell

namespace State

/-- The input that the next lines make up, and the lines behind it; none if they end in the middle of
it. -/
def readInput (st : State) : List Text → Option (Text × List Text)
  | [] => none
  | line :: rest =>
    match st.enter line with
    | (st', none) => st'.readInput rest
    | (_, some _) => some (st.typed line, rest)

variable {st : State} {line : Text}

theorem enter_of_open (h : 0 < openParens (st.typed line)) :
    st.enter line = (⟨st.session, some (st.typed line)⟩, none) :=
  if_pos h

theorem enter_of_closed (h : ¬ 0 < openParens (st.typed line)) :
    st.enter line =
      (⟨(respond st.session (st.typed line)).session, none⟩, some (respond st.session (st.typed line))) :=
  if_neg h

theorem readInput_of_open (rest : List Text) (h : 0 < openParens (st.typed line)) :
    st.readInput (line :: rest) = readInput ⟨st.session, some (st.typed line)⟩ rest := by
  rw [readInput, enter_of_open h]

theorem readInput_of_closed (rest : List Text) (h : ¬ 0 < openParens (st.typed line)) :
    st.readInput (line :: rest) = some (st.typed line, rest) := by
  rw [readInput, enter_of_closed h]

/-! ## Lines that are left open -/

/-- What has been typed of an input has parentheses open, at its end and at the end of each line. -/
def LeftOpen (st : State) : Prop :=
  ∀ text ∈ st.pending, 0 < openParens text ∧ Parser.LinesOpen (Lexed.ofText text).tokens

theorem leftOpen_of_ready (s : Session) : LeftOpen ⟨s, none⟩ := by
  intro text htext
  cases htext

/-- With another line, all lines but this one are left open. -/
theorem LeftOpen.typed (h : st.LeftOpen) (hline : ∀ c ∈ line, c.isLineEnd = false) :
    Parser.LinesOpen (Lexed.ofText (st.typed line)).tokens := by
  unfold State.typed
  split
  · exact Parser.linesOpen_of_line (Lexed.not_isNewline_of_line hline)
  · next text hpending =>
      obtain ⟨hopen, hlines⟩ := h text hpending
      by_cases hend : (Lexed.ofText text).unread = []
      · -- the only new end of a line is the one in front of this line
        rw [Lexed.ofText, Lexed.ofTextAt_append_lineFeed line hend]
        show Parser.LinesOpen ((_ ++ [_]) ++ _)
        rw [List.append_assoc]
        exact hlines.append_line hopen _ (Lexed.not_isNewline_of_line hline)
      · -- a NUL character ends the text early, and the line adds nothing
        rw [Lexed.ofText, Lexed.tokens_append_of_unread line hend]
        exact hlines

/-- Asking for more keeps every line left open. -/
theorem LeftOpen.enter (h : st.LeftOpen) (hline : ∀ c ∈ line, c.isLineEnd = false)
    (hopen : 0 < openParens (st.typed line)) : LeftOpen ⟨st.session, some (st.typed line)⟩ := by
  intro text htext
  cases htext
  exact ⟨hopen, h.typed hline⟩

/-- What the shell responds to does not break off. -/
theorem LeftOpen.breaksOff_typed (h : st.LeftOpen) (hline : ∀ c ∈ line, c.isLineEnd = false)
    (hclosed : ¬ 0 < openParens (st.typed line)) :
    Parser.breaksOff (Lexed.ofText (st.typed line)) = false :=
  Parser.breaksOff_of_linesOpen Lexed.kind_ne_eof (h.typed hline) (Int.not_lt.1 hclosed)

/-- **No input breaks off.** -/
theorem LeftOpen.breaksOff_readInput (h : st.LeftOpen) {lines rest : List Text} {input : Text}
    (hlines : ∀ line ∈ lines, ∀ c ∈ line, c.isLineEnd = false)
    (hread : st.readInput lines = some (input, rest)) :
    Parser.breaksOff (Lexed.ofText input) = false := by
  induction lines generalizing st with
  | nil => cases hread
  | cons line lines ih =>
      have hline : ∀ c ∈ line, c.isLineEnd = false := hlines line List.mem_cons_self
      by_cases hopen : 0 < openParens (st.typed line)
      · rw [readInput_of_open lines hopen] at hread
        exact ih (h.enter hline hopen) (fun l hl => hlines l (List.mem_cons_of_mem line hl)) hread
      · rw [readInput_of_closed lines hopen] at hread
        cases hread
        exact h.breaksOff_typed hline hopen

end State

/-- **The shell asks for more just as the reader needs it.** When it takes an input from lines, reading the
input does not fail at its end with a parenthesis of the statement there still open. And a text that parses
has no parenthesis open, so that the shell responds to it as soon as it has been typed. -/
theorem asks_for_more_as_needed :
    (∀ (s : Session) (lines rest : List Text) (input : Text),
      (∀ line ∈ lines, ∀ c ∈ line, c.isLineEnd = false) →
        State.readInput ⟨s, none⟩ lines = some (input, rest) →
          Parser.breaksOff (Lexed.ofText input) = false) ∧
    ∀ (name : String) (t : Text) (m : Module), Parser.parse name t = .ok m →
      openParens t = 0 ∧ ∀ (st : State) (line : Text), st.typed line = t →
        (st.enter line).2 = some (respond st.session t) := by
  constructor
  · intro s lines rest input hlines hread
    exact (State.leftOpen_of_ready s).breaksOff_readInput hlines hread
  · intro name t m hparse
    have hbalance : openParens t = 0 := Parser.balance_of_parse hparse
    refine ⟨hbalance, fun st line htyped => ?_⟩
    subst htyped
    have hclosed : ¬ 0 < openParens (st.typed line) := by omega
    rw [State.enter_of_closed hclosed]

/-- The first line leaves open what only the last makes up for, and each of the statements is broken. The
line behind them parses, and is an input of its own. -/
theorem asks_for_more_as_needed_broken :
    let lines : List Text := ["(a # (", "= (b", ")) (", ") \\x x)", "\\x (x y)"].map
      fun l => l.toList.map .char
    let input := "(a # (\n= (b\n)) (\n) \\x x)".toList.map .char
    let last := "\\x (x y)".toList.map .char
    let s := Session.new (.ofBound 5)
    (∀ line ∈ lines, ∀ c ∈ line, c.isLineEnd = false) ∧
      State.readInput ⟨s, none⟩ lines = some (input, [last]) ∧ (Parser.read input).faults.length = 3 ∧
      Parser.breaksOff (Lexed.ofText input) = false ∧
      Parser.parse "" last = .ok ⟨"", [.bare (.lambda "x" (.apply (.name "x") (.name "y")))]⟩ ∧
      openParens last = 0 ∧ (State.enter ⟨s, none⟩ last).2 = some (respond s last) := by
  -- a literal is the string of its characters, which saves decoding it
  simp -zeta only [List.map_cons, List.map_nil]
  repeat rw [String.toList_ofList]
  intro lines input last s
  have hlines : ∀ line ∈ lines, ∀ c ∈ line, c.isLineEnd = false := by decide +kernel
  have hread : State.readInput ⟨s, none⟩ lines = some (input, [last]) := by decide +kernel
  have hparse : Parser.parse "" last =
      .ok ⟨"", [.bare (.lambda "x" (.apply (.name "x") (.name "y")))]⟩ := by
    have hlast : (Parser.read last).faults = [] ∧
        (Parser.read last).statements = [.bare (.lambda "x" (.apply (.name "x") (.name "y")))] := by
      decide +kernel
    simp [Parser.parse, hlast]
  obtain ⟨hinput, hparsed⟩ := asks_for_more_as_needed
  obtain ⟨hopen, henter⟩ := hparsed "" last _ hparse
  exact ⟨hlines, hread, by decide +kernel, hinput s lines [last] input hlines hread, hparse, hopen,
    henter ⟨s, none⟩ last rfl⟩

end LazyLambda.Shell
