/-
# LazyLambda.Proofs.Shell.Batch — a shell and a module that hold the same lines.

A module is read and run as a whole. The shell cuts the same lines into inputs by counting parentheses,
passes over blank inputs and comments, takes what starts with a colon for a command, and reads and runs
each of the others as a module of its own.

Where the module parses and runs, the two come to the same. Every input then reads as one statement or has
no tokens at all (`respond_of_attempts`), and the statements of the inputs are, one after the other, those
of the module.
-/
import LazyLambda.Proofs.Module.Concatenation
import LazyLambda.Proofs.Scope
import LazyLambda.Proofs.Session.Turns
import LazyLambda.Proofs.Shell.Inputs
import LazyLambda.Proofs.Term.BigStep
import LazyLambda.Proofs.Term.Substitution
import LazyLambda.Proofs.Token.Trim

namespace LazyLambda

/-! ## What statements begin with -/

namespace Parser

theorem Reads.kind_of_ok {inside : Bool} {t : Token} {r rest : List Token} {o : Except Complaint Expr}
    (h : Reads inside none (t :: r) o rest) {e : Expr} (ho : o = .ok e) :
    t.kind = .ident ∨ t.kind = .lambda ∨ t.kind = .lparen := by
  cases h with
  | noExpression hc | noParameter hk hn | groupFault hk hg | unclosed hk hg hn => cases ho
  | name hk _ => exact .inl hk
  | lambda hk _ _ _ => exact .inr (.inl hk)
  | group hk _ _ _ => exact .inr (.inr hk)

/-- A statement begins with a name, the sign of a function or a parenthesis. -/
theorem kind_of_statement {t : Token} {r : List Token} {st : Statement}
    (h : (statement (t :: r)).toExcept = .ok st) :
    t.kind = .ident ∨ t.kind = .lambda ∨ t.kind = .lparen := by
  by_cases hd : StartsDefinition (t :: r)
  · obtain ⟨x, eq, r', heq, hx, -⟩ := hd
    cases heq
    exact .inl hx
  · rw [(statement_bare hd).1] at h
    obtain ⟨e, he, -⟩ := ok_of_map_eq_ok h
    exact (reads_expr false none (t :: r)).kind_of_ok he

end Parser

namespace Shell

/-! ## One input -/

/-- The results of statements as they are shown. -/
def results (vs : List Term) : List Output := vs.map fun v => .result v.inspect

theorem respond_of_no_tokens (s : Session) {t : Text} (hnul : ∀ c ∈ t, c.isNul = false)
    (h : (Lexed.ofText t).tokens = []) : respond s t = ⟨s, [], [], none, false⟩ := by
  unfold respond
  rcases Text.trim_of_no_tokens hnul h with htrim | ⟨r, htrim⟩
  · rw [htrim]
  · rw [htrim]
    rfl

/-- What reads as a statement begins, in its first line, with neither a comment nor a colon. -/
theorem trim_of_statement {t : Text} {st : Statement} (hlines : Parser.LinesOpen (Lexed.ofText t).tokens)
    (h : Parser.attemptsOf t = [.ok st]) :
    ∃ c u, t.trim = c :: u ∧ c ≠ .char '#' ∧ c ≠ .char ':' := by
  rw [Parser.attemptsOf] at h
  cases htokens : (Lexed.ofText t).tokens with
  | nil =>
      rw [htokens, Parser.attempts] at h
      cases h
  | cons tok r =>
      rw [htokens] at h hlines
      rw [Parser.attempts_statement _ r hlines.first] at h
      have hst := ((Parser.attempt_eq_ok_iff _).1 (List.cons.inj h).1).1
      refine Text.trim_of_token htokens ?_
      rcases Parser.kind_of_statement hst with hk | hk | hk <;> simp [hk]

/-- An input is taken for a module if it begins with neither a comment nor a colon. -/
theorem respond_of_trim (s : Session) {t u : Text} {c : Symbol} (h : t.trim = c :: u)
    (hcomment : c ≠ .char '#') (hcommand : c ≠ .char ':') :
    respond s t =
      ⟨(evaluate s t).1, (evaluate s t).2.1, [(evaluate s t).2.2], some (historyItem t), false⟩ := by
  unfold respond
  rw [h]
  split
  · next heq => cases heq
  · next heq =>
      cases heq
      exact (hcomment rfl).elim
  · next heq =>
      cases heq
      exact (hcommand rfl).elim
  · rfl

theorem evaluate_of_statement {s : Session} {t : Text} {st : Statement} {v : Term}
    (h : Parser.attemptsOf t = [.ok st]) (hv : (s.exec st).result = .ok v) :
    (evaluate s t).1 = (s.exec st).session ∧ (evaluate s t).2.2 = .result v.inspect := by
  have hparse : Parser.parse moduleName t = .ok ⟨moduleName, [st]⟩ :=
    Parser.parse_eq_ok_iff.2 ⟨List.cons_ne_nil _ _, h⟩
  have hresult : (s.run ⟨moduleName, [st]⟩).result = .ok v := (s.result_step st).trans hv
  rw [evaluate, hparse]
  simp only [hresult]
  exact ⟨s.session_step st, trivial⟩

/-- **An input all of whose statements succeed** shows their results and leaves the session as they do. -/
theorem respond_of_attempts {s s' : Session} {t : Text} {ss : List Statement} {vs : List Term}
    (hlines : Parser.LinesOpen (Lexed.ofText t).tokens) (hnul : ∀ c ∈ t, c.isNul = false)
    (hattempts : Parser.attemptsOf t = ss.map .ok) (hyields : s.Yields ss vs s') :
    (respond s t).session = s' ∧ (respond s t).output = results vs ∧ (respond s t).quit = false := by
  rcases Parser.attempts_of_linesOpen hlines hattempts with ⟨htokens, rfl⟩ | ⟨st, rfl⟩
  · cases hyields
    rw [respond_of_no_tokens s hnul htokens]
    exact ⟨rfl, rfl, rfl⟩
  · cases hyields with
    | @cons _ _ _ _ v vs hv hrest =>
        cases hrest
        obtain ⟨c, u, htrim, hcomment, hcommand⟩ := trim_of_statement hlines hattempts
        obtain ⟨hsession, houtput⟩ := evaluate_of_statement hattempts hv
        rw [respond_of_trim s htrim hcomment hcommand, hsession, houtput]
        exact ⟨rfl, rfl, rfl⟩

/-! ## Conversations -/

/-- Lines as one text. -/
def joined (lines : List Text) : Text := [Symbol.char '\n'].intercalate lines

/-- All that is shown in a conversation. -/
def Transcript.shown (t : Transcript) : List Output := t.turns.flatMap Turn.output

/-- `Completes t vs s`: the conversation reads every line, ends without an error at the end of the lines in
the session `s`, and shows the results `vs` and then the notice that the lines have ended. -/
structure Transcript.Completes (t : Transcript) (vs : List Term) (s : Session) : Prop where
  error : t.error = none
  left : t.left = 0
  session : t.session = s
  shown : t.shown = results vs ++ [Ending.closed.output]

theorem joined_singleton (t : Text) : joined [t] = t := List.intercalate_singleton

theorem joined_cons_cons (t line : Text) (rest : List Text) :
    joined (t :: line :: rest) = t ++ .char '\n' :: joined (line :: rest) := by
  rw [joined, List.intercalate_cons_cons, List.append_assoc]
  rfl

theorem joined_typed (st : State) (line : Text) (rest : List Text) :
    joined (st.pending.toList ++ line :: rest) = joined (st.typed line :: rest) := by
  unfold State.typed
  split
  · next h =>
      rw [h]
      rfl
  · next text h =>
      rw [h]
      show joined (text :: line :: rest) = _
      cases rest with
      | nil => rw [joined_cons_cons, joined_singleton, joined_singleton]
      | cons next rest =>
          rw [joined_cons_cons, joined_cons_cons, joined_cons_cons, List.append_assoc]
          rfl

theorem of_mem_joined {c : Symbol} {lines : List Text} (h : c ∈ joined lines) :
    c = .char '\n' ∨ ∃ line ∈ lines, c ∈ line := by
  induction lines with
  | nil => cases h
  | cons t rest ih =>
      cases rest with
      | nil =>
          rw [joined_singleton] at h
          exact .inr ⟨t, List.mem_cons_self, h⟩
      | cons line rest =>
          rw [joined_cons_cons] at h
          rcases List.mem_append.1 h with h | h
          · exact .inr ⟨t, List.mem_cons_self, h⟩
          · rcases List.mem_cons.1 h with h | h
            · exact .inl h
            · rcases ih h with h | ⟨l, hl, hc⟩
              · exact .inl h
              · exact .inr ⟨l, List.mem_cons_of_mem t hl, hc⟩

theorem attemptsOf_joined_nil : Parser.attemptsOf (joined []) = [] := by
  show Parser.attempts _ (Lexed.ofTextAt _ []).tokens = []
  rw [Lexed.tokens_ofTextAt_nil, Parser.attempts]

/-- Lines whose first holds a complete input read as this and the lines behind it. -/
theorem attemptsOf_joined {t : Text} {rest : List Text} {ss : List Statement}
    (hnul : ∀ c ∈ joined (t :: rest), c.isNul = false)
    (hopen : Parser.breaksOff (.ofText t) = false)
    (h : Parser.attemptsOf (joined (t :: rest)) = ss.map .ok) :
    (∀ c ∈ t, c.isNul = false) ∧ (∀ c ∈ joined rest, c.isNul = false) ∧
      ∃ ss₁ ss₂, ss = ss₁ ++ ss₂ ∧ Parser.attemptsOf t = ss₁.map .ok ∧
        Parser.attemptsOf (joined rest) = ss₂.map .ok := by
  cases rest with
  | nil =>
      rw [joined_singleton] at hnul h
      refine ⟨hnul, fun c hc => ?_, ss, [], (List.append_nil ss).symm, h, attemptsOf_joined_nil⟩
      cases hc
  | cons line rest =>
      rw [joined_cons_cons] at hnul h
      have hfirst : ∀ c ∈ t, c.isNul = false := fun c hc => hnul c (List.mem_append_left _ hc)
      refine ⟨hfirst, fun c hc => ?_, Parser.attemptsOf_append_ok hfirst hopen h⟩
      exact hnul c (List.mem_append_right _ (List.mem_cons_of_mem _ hc))

/-! ## Turns of a conversation -/

theorem Transcript.Completes.more {st : State} {line : Text} {rest : List Text} {vs : List Term}
    {s : Session} (hopen : 0 < openParens (st.typed line))
    (h : (converse ⟨st.session, some (st.typed line)⟩ .closed rest).Completes vs s) :
    (converse st .closed (line :: rest)).Completes vs s := by
  rw [converse, State.enter_of_open hopen]
  exact ⟨h.error, h.left, h.session, h.shown⟩

theorem Transcript.Completes.response {st : State} {line : Text} {rest : List Text} {vs₁ vs₂ : List Term}
    {s : Session} (hclosed : ¬ 0 < openParens (st.typed line))
    (houtput : (respond st.session (st.typed line)).output = results vs₁)
    (hquit : (respond st.session (st.typed line)).quit = false)
    (h : (converse ⟨(respond st.session (st.typed line)).session, none⟩ .closed rest).Completes vs₂ s) :
    (converse st .closed (line :: rest)).Completes (vs₁ ++ vs₂) s := by
  rw [converse, State.enter_of_closed hclosed]
  simp only [hquit]
  refine ⟨h.error, h.left, h.session, ?_⟩
  have hshown : (respond st.session (st.typed line)).output ++ _ = _ :=
    congr (congrArg _ houtput) h.shown
  rw [results, List.map_append, List.append_assoc]
  exact hshown

/-- **Lines that all read and run as one text do so in the shell**, from any state in the middle of an
input on. -/
theorem converse_completes {st : State} {lines : List Text} {ss : List Statement} {vs : List Term}
    {s : Session} (hst : st.LeftOpen) (hlines : ∀ line ∈ lines, ∀ c ∈ line, c.isLineEnd = false)
    (hnul : ∀ c ∈ joined (st.pending.toList ++ lines), c.isNul = false)
    (hattempts : Parser.attemptsOf (joined (st.pending.toList ++ lines)) = ss.map .ok)
    (hyields : st.session.Yields ss vs s) : (converse st .closed lines).Completes vs s := by
  induction lines generalizing st ss vs with
  | nil =>
      rw [List.append_nil] at hattempts
      cases hpending : st.pending with
      | none =>
          rw [hpending] at hattempts
          rw [List.map_eq_nil_iff.1 (hattempts.symm.trans attemptsOf_joined_nil)] at hyields
          cases hyields
          exact ⟨rfl, rfl, rfl, rfl⟩
      | some text =>
          -- the lines cannot end in the middle of an input
          have hbalance : openParens text = 0 := by
            rw [hpending, Option.toList_some, joined_singleton] at hattempts
            exact Parser.balance_of_attempts hattempts
          have hopen := (hst text hpending).1
          omega
  | cons line rest ih =>
      have hline : ∀ c ∈ line, c.isLineEnd = false := hlines line List.mem_cons_self
      have hrest : ∀ l ∈ rest, ∀ c ∈ l, c.isLineEnd = false :=
        fun l hl => hlines l (List.mem_cons_of_mem line hl)
      -- a line goes over to what has been typed, and the text as a whole stays the same
      rw [joined_typed] at hnul hattempts
      by_cases hopen : 0 < openParens (st.typed line)
      · exact .more hopen (ih (hst.enter hline hopen) hrest hnul hattempts hyields)
      · -- what has been typed is an input, and is read apart from the lines behind it
        obtain ⟨htyped, hnul', ss₁, ss₂, rfl, h₁, h₂⟩ :=
          attemptsOf_joined hnul (hst.breaksOff_typed hline hopen) hattempts
        obtain ⟨vs₁, vs₂, s₁, rfl, hyields₁, hyields₂⟩ := hyields.of_append
        obtain ⟨rfl, houtput, hquit⟩ := respond_of_attempts (hst.typed hline) htyped h₁ hyields₁
        exact .response hopen houtput hquit
          (ih (State.leftOpen_of_ready _) hrest hnul' h₂ hyields₂)

/-- **The shell agrees with the module that its lines make.** Let the lines hold no character that ends a
line, and no NUL character. If, joined, they parse and the module runs from a session, then a conversation
over them from that session goes through all of them and ends without an error in the session that the run
leaves. It shows the results of the module's statements, one for each in order, and then that the lines
have ended; the last of the results is that of the run. -/
theorem run_completes_as_module {s : Session} {lines : List Text} {name : String} {m : Module} {v : Term}
    (hlines : ∀ line ∈ lines, ∀ c ∈ line, c.isLineEnd = false ∧ c.isNul = false)
    (hparse : Parser.parse name (joined lines) = .ok m) (hrun : (s.run m).result = .ok v) :
    ∃ vs, s.Yields m.statements vs (s.run m).session ∧ vs.getLast? = some v ∧
      (run s lines .closed).error = none ∧ (run s lines .closed).left = 0 ∧
      (run s lines .closed).session = (s.run m).session ∧
      (run s lines .closed).shown = vs.map (fun u => .result u.inspect) ++ [.notice "CTRL-D"] := by
  obtain ⟨vs, hyields, hlast⟩ := Session.yields_of_run hrun
  rw [Parser.name_of_parse hparse] at hparse
  have hattempts : Parser.attemptsOf (joined lines) = m.statements.map .ok :=
    (Parser.parse_eq_ok_iff.1 hparse).2
  have hnul : ∀ c ∈ joined lines, c.isNul = false := by
    intro c hc
    rcases of_mem_joined hc with rfl | ⟨line, hl, hc⟩
    · decide
    · exact (hlines line hl c hc).2
  have hcompletes : (converse ⟨s, none⟩ .closed lines).Completes vs (s.run m).session :=
    converse_completes (State.leftOpen_of_ready s) (fun line hl c hc => (hlines line hl c hc).1) hnul
      hattempts hyields
  exact ⟨vs, hyields, hlast, hcompletes.error, hcompletes.left, hcompletes.session, hcompletes.shown⟩

/-- Comments, a blank line, a parenthesis that only a comment closes and one that is closed two lines
further down, and a use of the last result. -/
theorem run_completes_as_module_group :
    let lines : List Text := ["# (", "", "id = \\x x", "\u00a0(id # )", "id", ") id", "_"].map
      fun l => l.toList.map .char
    let id : Expr := .name "id"
    let m : Module := ⟨"", [.define "id" (.lambda "x" (.name "x")), .bare (.apply (.apply id id) id),
      .bare (.name "_")]⟩
    let s := Session.new (.ofBound 5)
    let v : Term := .lam "x" (.free "x")
    (∀ line ∈ lines, ∀ c ∈ line, c.isLineEnd = false ∧ c.isNul = false) ∧
      Parser.parse "" (joined lines) = .ok m ∧ (s.run m).result = .ok v ∧
      (run s lines .closed).session = (s.run m).session ∧
      ∃ vs, s.Yields m.statements vs (s.run m).session ∧ vs.getLast? = some v ∧
        (run s lines .closed).shown = vs.map (fun u => .result u.inspect) ++ [.notice "CTRL-D"] := by
  -- a literal is the string of its characters, which saves decoding it
  simp -zeta only [List.map_cons, List.map_nil]
  repeat rw [String.toList_ofList]
  intro lines id m s v
  have hlines : ∀ line ∈ lines, ∀ c ∈ line, c.isLineEnd = false ∧ c.isNul = false := by decide +kernel
  have hparse : Parser.parse "" (joined lines) = .ok m := by
    have hread : (Parser.read (joined lines)).faults = [] ∧
        (Parser.read (joined lines)).statements = m.statements := by decide +kernel
    simp [Parser.parse, hread, m]
  -- the module is run through the equations for answers
  have hreport (t : Term) (a : Allowance) : t.evaluate a = _ := Job.report_eq_answer a (.eval t)
  have hrun : (s.run m).result = .ok v := by
    simp [s, m, id, v, Session.new, Allowance.ofBound, Allowance.steps, Session.run, Session.runFrom,
      Session.step, Session.exec, Effect.andThen, Effect.after, Session.store, Session.lastResult,
      Session.resolve, Term.ofExpr, Term.resolve, hreport, Job.answer_eval_lam, Job.answer_eval_global,
      Job.answer_eval_passed, Job.answer_eval_app, Job.answer_call_app, Job.answer_call_lam_succ,
      Job.answer_call_global, Outcome.result, Outcome.within]
  obtain ⟨vs, hyields, hlast, -, -, hsession, hshown⟩ := run_completes_as_module hlines hparse hrun
  exact ⟨hlines, hparse, hrun, hsession, vs, hyields, hlast, hshown⟩

end Shell

end LazyLambda
