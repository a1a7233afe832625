/-
# LazyLambda.Proofs.Module.Recording — reading with one list of faults.

The readers of expressions and statements hand on a complaint as a result of its own, so that there cannot be
two. Here is a reader that has no such result. Each part of it returns what it has read or nothing, and what it
complains about is written to the end of one list that all parts share; a caller that is given nothing returns
nothing. The loop over the statements compares the length of the list before and after, and drops a statement if
the list has grown.

Nothing in its text says that a part which returns nothing has written something, or that it has done so once.
But the two readers agree: wherever nothing is returned, exactly one complaint has been written since, at any
depth of parentheses and functions (`recordExpr_eq`, `recordStatement_eq`). So an attempt either keeps a statement
or writes one fault (`Progress.pass_atStatement`), and the loop ends with what the attempts come to
(`reading_after`).
-/
import LazyLambda.Proofs.Module.Exact

namespace LazyLambda.Parser

/-! ## Readers that write to a list -/

/-- What a reader leaves: what it has read, if anything, all faults so far, and the tokens that are left. -/
structure Recorded (α : Type) (ts : List Token) where
  value : Option α
  faults : List Fault
  rest : List Token
  suffix : rest <:+ ts

namespace Recorded

variable {α β : Type} {ts us : List Token}

/-- The same, for tokens of which the given ones are a final part. -/
def widen (r : Recorded α ts) (h : ts <:+ us) : Recorded α us :=
  ⟨r.value, r.faults, r.rest, r.suffix.trans h⟩

/-- The same, with something done to what was read. -/
def map (f : α → β) (r : Recorded α ts) : Recorded β ts := ⟨r.value.map f, r.faults, r.rest, r.suffix⟩

/-- Nothing, after a complaint about the first of the tokens that are left. -/
def complain (stop : Position) (log : List Fault) (c : Complaint) (rest : List Token)
    (suffix : rest <:+ ts) : Recorded α ts :=
  ⟨none, log ++ [fault stop c rest], rest, suffix⟩

/-- What a result comes to, if it is written to a list of faults. -/
def ofResult (stop : Position) (log : List Fault) : Result α ts → Recorded α ts
  | .ok a rest hs => ⟨some a, log, rest, hs⟩
  | .error c rest hs => complain stop log c rest hs

variable {stop : Position} {log : List Fault}

theorem widen_ofResult (r : Result α ts) (h : ts <:+ us) :
    (ofResult stop log r).widen h = ofResult stop log (r.widen h) := by
  cases r <;> rfl

theorem map_ofResult (f : α → β) (r : Result α ts) :
    (ofResult stop log r).map f = ofResult stop log (r.map f) := by
  cases r <;> rfl

end Recorded

variable (stop : Position)

/-- What has been read when no further operand follows. -/
def recordFinish (acc : Option Expr) (log : List Fault) (ts : List Token) : Recorded Expr ts :=
  match acc with
  | none => .complain stop log .noExpression ts (List.suffix_refl _)
  | some e => ⟨some e, log, ts, List.suffix_refl _⟩

mutual

/-- Reads operands as long as there are any, behind those that make `acc`. -/
def recordExpr (inside : Bool) (acc : Option Expr) (log : List Fault) (ts : List Token) :
    Recorded Expr ts :=
  match ts with
  | [] => recordFinish stop acc log []
  | t :: r =>
    match t.kind with
    | .ident =>
      (recordExpr inside (some (operand acc (.name t.literal))) log (settle inside r)).widen
        ((settle_suffix inside r).trans (List.suffix_cons t r))
    | .lambda => ((recordFunction inside log r).map (operand acc)).widen (List.suffix_cons t r)
    | .lparen =>
      match recordGroup inside t.pos log r with
      | ⟨none, faults, rest, hs⟩ => ⟨none, faults, rest, hs.trans (List.suffix_cons t r)⟩
      | ⟨some e, faults, rest, hs⟩ =>
        (recordExpr inside (some (operand acc e)) faults rest).widen (hs.trans (List.suffix_cons t r))
    | _ => recordFinish stop acc log (t :: r)
termination_by (ts.length, 0)
decreasing_by
  · have := length_settle_le inside r
    simp only [List.length_cons]
    exact Prod.Lex.left _ _ (by omega)
  · exact Prod.Lex.left _ _ (by simp)
  · exact Prod.Lex.left _ _ (by simp)
  · have := hs.length_le
    exact Prod.Lex.left _ _ (by simp only [List.length_cons]; omega)

/-- Reads a function from behind its sign. -/
def recordFunction (inside : Bool) (log : List Fault) (ts : List Token) : Recorded Expr ts :=
  match hp : settle inside ts with
  | [] => .complain stop log .noParameter [] List.nil_suffix
  | p :: r =>
    have hr : p :: r <:+ ts := hp ▸ settle_suffix inside ts
    if p.kind = .ident then
      ((recordExpr inside none log (settle inside r)).map (.lambda p.literal)).widen
        (((settle_suffix inside r).trans (List.suffix_cons p r)).trans hr)
    else .complain stop log .noParameter (p :: r) hr
termination_by (ts.length, 1)
decreasing_by
  have h1 := length_settle_le inside ts
  have h2 := length_settle_le inside r
  rw [hp, List.length_cons] at h1
  exact Prod.Lex.left _ _ (by omega)

/-- Reads a group from behind the parenthesis that opens it, up to what follows the one that closes it. -/
def recordGroup (inside : Bool) (opened : Position) (log : List Fault) (ts : List Token) :
    Recorded Expr ts :=
  have ht : settle true ts <:+ ts := settle_suffix true ts
  match recordExpr true none log (settle true ts) with
  | ⟨none, faults, rest, hs⟩ => ⟨none, faults, rest, hs.trans ht⟩
  | ⟨some _, faults, [], _⟩ => .complain stop faults (.unclosed opened) [] List.nil_suffix
  | ⟨some e, faults, close :: rest, hs⟩ =>
    if close.kind = .rparen then
      ⟨some e, faults, settle inside rest,
        ((settle_suffix inside rest).trans (List.suffix_cons close rest)).trans (hs.trans ht)⟩
    else .complain stop faults (.unclosed opened) (close :: rest) (hs.trans ht)
termination_by (ts.length, 1)
decreasing_by
  have := length_settle_le true ts
  rcases Nat.lt_or_eq_of_le this with h | h
  · exact Prod.Lex.left _ _ h
  · rw [h]
    exact Prod.Lex.right _ (by decide)

end

/-! ## One complaint for nothing -/

section Steps

variable {stop : Position} {inside : Bool} {acc : Option Expr} {log : List Fault} {t p : Token}
  {r ts : List Token}

theorem recordFinish_eq (acc : Option Expr) (ts : List Token) :
    recordFinish stop acc log ts = .ofResult stop log (finish acc ts) := by
  cases acc <;> rfl

theorem recordExpr_ident (ht : t.kind = .ident) : recordExpr stop inside acc log (t :: r) =
    (recordExpr stop inside (some (operand acc (.name t.literal))) log (settle inside r)).widen
      ((settle_suffix inside r).trans (List.suffix_cons t r)) := by
  rw [recordExpr]
  simp only [ht]

theorem recordExpr_lambda (ht : t.kind = .lambda) : recordExpr stop inside acc log (t :: r) =
    ((recordFunction stop inside log r).map (operand acc)).widen (List.suffix_cons t r) := by
  rw [recordExpr]
  simp only [ht]

theorem recordExpr_lparen (ht : t.kind = .lparen) : recordExpr stop inside acc log (t :: r) =
    match recordGroup stop inside t.pos log r with
    | ⟨none, faults, rest, hs⟩ => ⟨none, faults, rest, hs.trans (List.suffix_cons t r)⟩
    | ⟨some e, faults, rest, hs⟩ =>
      (recordExpr stop inside (some (operand acc e)) faults rest).widen
        (hs.trans (List.suffix_cons t r)) := by
  rw [recordExpr]
  simp only [ht]

theorem recordFunction_noParameter (h : ∀ p ∈ (settle inside ts).head?, p.kind ≠ .ident) :
    recordFunction stop inside log ts =
      .complain stop log .noParameter (settle inside ts) (settle_suffix inside ts) := by
  rw [recordFunction]
  split
  · next hp => simp only [hp]
  · next p r hp =>
      have hne : p.kind ≠ .ident := h p (by rw [hp]; rfl)
      simp only [hp, if_neg hne]

theorem recordFunction_parameter (hp : settle inside ts = p :: r) (hi : p.kind = .ident) :
    recordFunction stop inside log ts =
      ((recordExpr stop inside none log (settle inside r)).map (.lambda p.literal)).widen
        (((settle_suffix inside r).trans (List.suffix_cons p r)).trans (hp ▸ settle_suffix inside ts)) := by
  rw [recordFunction]
  split
  · next h =>
      rw [hp] at h
      cases h
  · next h =>
      rw [hp] at h
      cases h
      rw [if_pos hi]

end Steps

variable {stop : Position}

/-- **A reader that returns nothing has written one complaint, and one that returns something none.** -/
theorem recordExpr_eq (inside : Bool) (acc : Option Expr) (log : List Fault) (ts : List Token) :
    recordExpr stop inside acc log ts = .ofResult stop log (expr inside acc ts) := by
  -- the list is the same at every call: who is given nothing calls nobody
  fun_induction expr inside acc ts with
  | case1 inside acc =>
      rw [recordExpr]
      exact recordFinish_eq acc []
  | case2 inside acc t r hk ih => rw [recordExpr_ident hk, ih, Recorded.widen_ofResult]
  | case3 inside acc t r hk hp =>
      rw [recordExpr_lambda hk, recordFunction_noParameter (by simp [hp])]
      simp only [hp]
      rfl
  | case4 inside acc t r hk p r' hp _ hi ih =>
      rw [recordExpr_lambda hk, recordFunction_parameter hp hi, ih]
      cases expr inside none (settle inside r') <;> rfl
  | case5 inside acc t r hk p r' hp _ hi =>
      rw [recordExpr_lambda hk, recordFunction_noParameter (by simpa [hp] using hi)]
      simp only [hp]
      rfl
  | case6 inside acc t r hk _ c rest _ he ih =>
      rw [recordExpr_lparen hk, recordGroup, ih, he]
      rfl
  | case7 inside acc t r hk _ e _ he ih =>
      rw [recordExpr_lparen hk, recordGroup, ih, he]
      rfl
  | case8 inside acc t r hk _ e close rest _ he hc ih ih' =>
      rw [recordExpr_lparen hk, recordGroup, ih, he]
      simp only [Recorded.ofResult, if_pos hc]
      rw [ih', Recorded.widen_ofResult]
      rfl
  | case9 inside acc t r hk _ e close rest _ he hc ih =>
      rw [recordExpr_lparen hk, recordGroup, ih, he]
      simp only [Recorded.ofResult, if_neg hc]
      rfl
  | case10 inside acc t r hi hl hp =>
      rw [recordExpr]
      cases hk : t.kind <;> simp_all [recordFinish_eq]

theorem suffix_cons_cons (x y : Token) (r : List Token) : r <:+ x :: y :: r :=
  (List.suffix_cons y r).trans (List.suffix_cons x (y :: r))

/-- Reads a statement up to where its expression ends. -/
def recordStatement (stop : Position) (log : List Fault) (ts : List Token) : Recorded Statement ts :=
  match ts with
  | x :: eq :: r =>
    if x.kind = .ident ∧ eq.kind = .assign then
      ((recordExpr stop false none log r).map (Statement.define x.literal)).widen
        (suffix_cons_cons x eq r)
    else (recordExpr stop false none log (x :: eq :: r)).map .bare
  | ts => (recordExpr stop false none log ts).map .bare

theorem recordStatement_eq (log : List Fault) (ts : List Token) :
    recordStatement stop log ts = .ofResult stop log (statement ts) := by
  have hbare (ts : List Token) : (recordExpr stop false none log ts).map Statement.bare =
      .ofResult stop log ((expr false none ts).map .bare) := by
    rw [recordExpr_eq, Recorded.map_ofResult]
  match ts with
  | [] => exact hbare []
  | [x] => exact hbare [x]
  | x :: eq :: r =>
      rw [recordStatement, statement]
      split
      · rw [recordExpr_eq, Recorded.map_ofResult, Recorded.widen_ofResult]
      · exact hbare (x :: eq :: r)

/-! ## The loop over the statements -/

/-- How far reading a module has come. -/
structure Progress where
  statements : List Statement
  faults : List Fault
  tokens : List Token

/-- Whether a statement may end in front of some tokens. -/
def endsLine : List Token → Bool
  | [] => true
  | t :: _ => t.isNewline

namespace Progress

/-- Nothing has been read of some tokens. -/
def start (ts : List Token) : Progress := ⟨[], [], ts⟩

/-- Whether a statement is to be read next. -/
def AtStatement (p : Progress) : Prop := ∃ t r, p.tokens = t :: r ∧ t.isNewline = false

/-- One turn of the loop: passes over the end of a line, or reads a statement. The statement is dropped,
together with the rest of its line, if the list of faults has grown since. -/
def pass (stop : Position) (p : Progress) : Progress :=
  match p.tokens with
  | [] => p
  | t :: r =>
    if t.isNewline then { p with tokens := r }
    else
      let read := recordStatement stop p.faults (t :: r)
      let faults :=
        if read.value.isSome && !endsLine read.rest then read.faults ++ [fault stop .leftover read.rest]
        else read.faults
      if p.faults.length < faults.length then ⟨p.statements, faults, nextLine read.rest⟩
      else ⟨p.statements ++ read.value.toList, faults, read.rest⟩

/-- So many turns of the loop. -/
def after (stop : Position) (p : Progress) : Nat → Progress
  | 0 => p
  | n + 1 => (p.pass stop).after stop n

/-- What the loop reports when no tokens are left. -/
def reading (stop : Position) (p : Progress) : Reading :=
  if p.statements.isEmpty && p.faults.isEmpty then ⟨[], [fault stop .emptyModule []]⟩
  else ⟨p.statements, p.faults⟩

variable {p : Progress} {t : Token} {r : List Token}

/-! ### One turn -/

theorem pass_nil (h : p.tokens = []) : p.pass stop = p := by
  rw [pass, h]

theorem pass_newline (h : p.tokens = t :: r) (ht : t.isNewline = true) :
    p.pass stop = { p with tokens := r } := by
  rw [pass, h]
  simp only [ht, if_true]

/-- What an attempt comes to is added at the end, and reading goes on at the end of the line. -/
theorem pass_attempt (h : p.tokens = t :: r) (ht : t.isNewline = false) :
    let a := attempt stop (statement (t :: r))
    p.pass stop = ⟨p.statements ++ a.statement?.toList, p.faults ++ a.fault?.toList,
      nextLine (statement (t :: r)).rest⟩ := by
  rw [pass, h]
  simp only [ht, recordStatement_eq]
  match statement (t :: r) with
  | .error c rest hs => simp [Recorded.ofResult, Recorded.complain, attempt, Attempt.statement?,
      Attempt.fault?, Result.rest]
  | .ok s [] hs => simp [Recorded.ofResult, attempt, Attempt.statement?, Attempt.fault?, Result.rest,
      endsLine, nextLine]
  | .ok s (u :: rest) hs =>
      cases hu : u.isNewline <;> simp [Recorded.ofResult, attempt, Attempt.statement?, Attempt.fault?,
        Result.rest, endsLine, nextLine, hu]

/-- What an attempt does to the progress: it keeps its statement and writes nothing, or it drops the statement
and writes one fault. -/
inductive Attempted (stop : Position) (p p' : Progress) : Prop
  | kept (s : Statement) : attempt stop (statement p.tokens) = .ok s →
      p'.statements = p.statements ++ [s] → p'.faults = p.faults → Attempted stop p p'
  | dropped (f : Fault) : attempt stop (statement p.tokens) = .error f →
      p'.statements = p.statements → p'.faults = p.faults ++ [f] → Attempted stop p p'

/-- **An attempt keeps a statement or writes a fault**, never both, neither or more. -/
theorem pass_atStatement (stop : Position) (h : p.AtStatement) : p.Attempted stop (p.pass stop) := by
  obtain ⟨t, r, htokens, ht⟩ := h
  rw [pass_attempt htokens ht]
  cases ha : attempt stop (statement (t :: r)) with
  | ok s => exact .kept s (htokens ▸ ha) rfl (List.append_nil _)
  | error f => exact .dropped f (htokens ▸ ha) (List.append_nil _) rfl

theorem pass_not_atStatement (stop : Position) (h : ¬ p.AtStatement) :
    (p.pass stop).statements = p.statements ∧ (p.pass stop).faults = p.faults := by
  cases htokens : p.tokens with
  | nil => rw [pass_nil htokens]; exact ⟨rfl, rfl⟩
  | cons t r =>
      cases ht : t.isNewline with
      | true => rw [pass_newline htokens ht]; exact ⟨rfl, rfl⟩
      | false => exact (h ⟨t, r, htokens, ht⟩).elim

/-! ### All turns -/

theorem after_add (stop : Position) (p : Progress) (m n : Nat) :
    p.after stop (m + n) = (p.after stop m).after stop n := by
  induction m generalizing p with
  | zero => rw [Nat.zero_add]; rfl
  | succ m ih => rw [Nat.succ_add]; exact ih (p.pass stop)

theorem after_succ (stop : Position) (p : Progress) (n : Nat) :
    p.after stop (n + 1) = (p.after stop n).pass stop :=
  after_add stop p n 1

theorem faults_prefix (stop : Position) (p : Progress) (n : Nat) :
    p.faults <+: (p.after stop n).faults := by
  induction n with
  | zero => exact List.prefix_refl _
  | succ n ih =>
      refine ih.trans ?_
      rw [after_succ]
      by_cases h : (p.after stop n).AtStatement
      · cases pass_atStatement stop h with
        | kept s _ _ hfaults => exact hfaults ▸ List.prefix_refl _
        | dropped f _ _ hfaults => exact hfaults ▸ List.prefix_append _ _
      · exact (pass_not_atStatement stop h).2 ▸ List.prefix_refl _

/-- What the loop has collected, once the rest of the tokens has been read by attempts. -/
def finished (stop : Position) (p : Progress) : Progress :=
  ⟨p.statements ++ (attempts stop p.tokens).filterMap Attempt.statement?,
    p.faults ++ (attempts stop p.tokens).filterMap Attempt.fault?, []⟩

theorem finished_of_nil (h : p.tokens = []) : p.finished stop = p := by
  obtain ⟨ss, fs, ts⟩ := p
  cases h
  simp [finished, attempts]

/-- A turn changes nothing about what will have been collected. -/
theorem finished_pass (stop : Position) (p : Progress) : (p.pass stop).finished stop = p.finished stop := by
  cases htokens : p.tokens with
  | nil => rw [pass_nil htokens]
  | cons t r =>
      cases ht : t.isNewline with
      | true => rw [pass_newline htokens ht, finished, finished, htokens, attempts_newline stop r ht]
      | false =>
          rw [pass_attempt htokens ht, finished, finished, htokens, attempts_statement stop r ht]
          cases attempt stop (statement (t :: r)) <;>
            simp [List.filterMap_cons, Attempt.statement?, Attempt.fault?]

theorem length_tokens_pass (stop : Position) (p : Progress) :
    (p.pass stop).tokens.length ≤ p.tokens.length - 1 := by
  cases htokens : p.tokens with
  | nil => rw [pass_nil htokens, htokens]; exact Nat.le_refl 0
  | cons t r =>
      cases ht : t.isNewline with
      | true => rw [pass_newline htokens ht]; exact Nat.le_refl _
      | false =>
          rw [pass_attempt htokens ht]
          exact Nat.le_sub_one_of_lt (length_nextLine_lt (statement (t :: r)).rest_suffix ht)

/-- **The loop comes to its end**, after at most one turn for each token, and has collected what the attempts
come to. -/
theorem after_eq_finished (stop : Position) (p : Progress) {n : Nat} (hn : p.tokens.length ≤ n) :
    p.after stop n = p.finished stop := by
  induction n generalizing p with
  | zero => exact (finished_of_nil (List.length_eq_zero_iff.1 (Nat.le_zero.1 hn))).symm
  | succ n ih =>
      have hlength := length_tokens_pass stop p
      rw [after, ih (p.pass stop) (by omega), finished_pass]

theorem reading_of_collected (h : ¬ (p.statements = [] ∧ p.faults = [])) :
    p.reading stop = ⟨p.statements, p.faults⟩ := by
  rw [reading, if_neg (by simpa using h)]

end Progress

/-- Of every attempt there is something to collect. -/
theorem collected_ne_nil {as : List Attempt} (h : as ≠ []) :
    ¬ (as.filterMap Attempt.statement? = [] ∧ as.filterMap Attempt.fault? = []) := by
  obtain ⟨a, as, rfl⟩ := List.exists_cons_of_ne_nil h
  cases a <;> simp [Attempt.statement?, Attempt.fault?]

/-- **Reading by attempts and reading in a loop with one list of faults agree.** -/
theorem reading_after (l : Lexed) {n : Nat} (hn : l.tokens.length ≤ n) :
    ((Progress.start l.tokens).after l.stop n).reading l.stop = readTokens l := by
  have hfinished : (Progress.start l.tokens).finished l.stop =
      ⟨(attempts l.stop l.tokens).filterMap Attempt.statement?,
        (attempts l.stop l.tokens).filterMap Attempt.fault?, []⟩ := rfl
  rw [Progress.after_eq_finished l.stop _ hn, hfinished, readTokens, reading]
  by_cases h : attempts l.stop l.tokens = []
  · rw [h]
    rfl
  · rw [Progress.reading_of_collected (collected_ne_nil h), if_neg (by simpa using h)]

end LazyLambda.Parser
