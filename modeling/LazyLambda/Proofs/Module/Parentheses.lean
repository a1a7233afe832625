/-
# LazyLambda.Proofs.Module.Parentheses — the parentheses that a reader leaves open.

The reader of expressions knows only whether it is inside parentheses. Counting them on the tokens tells
more. Whatever it reads closes no parenthesis from in front and so raises the depth by some number
(`RaisesBy`), which is nought if it comes to an expression (`Reads.raisesBy`). For such tokens the depth,
which never falls below nought, is the same as what `balance` counts, which may.

A text breaks off if reading it fails at its end while a parenthesis of the statement there is open
(`breaksOff`). The statements of a text that does not can be read without regard to what follows the text.
-/
import LazyLambda.Proofs.Module.Exact
import LazyLambda.Proofs.Token.Lines

namespace LazyLambda.Parser

open Grammar

/-! ## Depth and balance -/

/-- How many parentheses are open after some tokens, if so many are open in front. One that closes
nothing does not count. -/
def openAfter (depth : Nat) (ts : List Token) : Nat := ts.foldl depthAfter depth

/-- How many more parentheses some tokens open than they close. -/
def balance (ts : List Token) : Int :=
  (ts.countP (·.kind = .lparen) : Int) - ts.countP (·.kind = .rparen)

section Counting

variable {t : Token} {ts us : List Token}

theorem openAfter_append (depth : Nat) (ts us : List Token) :
    openAfter depth (ts ++ us) = openAfter (openAfter depth ts) us :=
  List.foldl_append

theorem balance_append (ts us : List Token) : balance (ts ++ us) = balance ts + balance us := by
  simp only [balance, List.countP_append]
  omega

/-- Only parentheses count. -/
theorem balance_cons (t : Token) (ts : List Token) : balance (t :: ts) = balance [t] + balance ts :=
  balance_append [t] ts

theorem balance_of_isNewline (h : t.isNewline = true) : balance [t] = 0 := by
  have hk : t.kind = .newline := of_decide_eq_true h
  simp [balance, hk]

theorem depthAfter_level (depth : Nat) (hl : t.kind ≠ .lparen) (hr : t.kind ≠ .rparen) :
    depthAfter depth t = depth := by
  unfold depthAfter
  split
  · next h => exact (hl h).elim
  · next h => exact (hr h).elim
  · rfl

/-- With enough parentheses open in front, none closes nothing, and the depth changes by the balance. -/
theorem openAfter_eq_add_balance {depth : Nat} (h : ts.countP (·.kind = .rparen) ≤ depth) :
    (openAfter depth ts : Int) = depth + balance ts := by
  induction ts generalizing depth with
  | nil => simp [openAfter, balance]
  | cons t ts ih =>
      rw [List.countP_cons] at h
      show (openAfter (depthAfter depth t) ts : Int) = _
      rw [balance_cons]
      cases hk : t.kind <;> simp [hk] at h <;> simp only [depthAfter, hk]
      case lparen =>
        rw [ih (by omega)]
        simp [balance, hk]
        omega
      case rparen =>
        rw [ih (by omega)]
        simp [balance, hk]
        omega
      all_goals
        rw [ih h]
        simp [balance, hk]

end Counting

/-! ## Tokens that close nothing from in front -/

/-- `RaisesBy k ts`: the tokens leave `k` more parentheses open than there are in front of them, however
many these are. -/
def RaisesBy (k : Nat) (ts : List Token) : Prop := ∀ depth, openAfter depth ts = depth + k

namespace RaisesBy

variable {j k : Nat} {t close : Token} {ts us : List Token}

theorem nil : RaisesBy 0 [] := fun _ => rfl

theorem append (h : RaisesBy j ts) (h' : RaisesBy k us) : RaisesBy (j + k) (ts ++ us) := by
  intro depth
  rw [openAfter_append, h, h', Nat.add_assoc]

theorem cons_level (h : RaisesBy k ts) {kind : Kind} (ht : t.kind = kind)
    (hl : kind ≠ .lparen ∧ kind ≠ .rparen) : RaisesBy k (t :: ts) := by
  subst ht
  intro depth
  show openAfter (depthAfter depth t) ts = _
  rw [depthAfter_level depth hl.1 hl.2, h]

theorem cons_lparen (ht : t.kind = .lparen) (h : RaisesBy k ts) : RaisesBy (k + 1) (t :: ts) := by
  intro depth
  have hdepth : depthAfter depth t = depth + 1 := by rw [depthAfter, ht]
  show openAfter (depthAfter depth t) ts = _
  rw [hdepth, h, Nat.add_right_comm, Nat.add_assoc]

/-- What is closed again leaves nothing open. -/
theorem group (ht : t.kind = .lparen) (h : RaisesBy 0 ts) (hc : close.kind = .rparen) :
    RaisesBy 0 (t :: (ts ++ [close])) := by
  intro depth
  have hdepth : depthAfter depth t = depth + 1 := by rw [depthAfter, ht]
  have hclose : depthAfter (depth + 1) close = depth := by rw [depthAfter, hc, Nat.add_sub_cancel]
  show openAfter (depthAfter depth t) (ts ++ [close]) = _
  rw [openAfter_append, hdepth, h]
  exact hclose

theorem of_isNewline (h : ∀ t ∈ ts, t.isNewline = true) : RaisesBy 0 ts := by
  induction ts with
  | nil => exact nil
  | cons t ts ih =>
      have hk : t.kind = .newline := of_decide_eq_true (h t List.mem_cons_self)
      exact (ih fun u hu => h u (List.mem_cons_of_mem t hu)).cons_level hk (by decide)

/-- For tokens that close nothing from in front the balance is the depth. -/
theorem balance_eq (h : RaisesBy k ts) : balance ts = k := by
  have hsum := openAfter_eq_add_balance (Nat.le_refl (ts.countP (·.kind = .rparen)))
  rw [h] at hsum
  omega

end RaisesBy

/-! ## What is read raises the depth -/

/-- `Takes k ts rest`: what is taken off the front of `ts`, up to the rest, raises the depth by `k`. -/
def Takes (k : Nat) (ts rest : List Token) : Prop := ∃ used, ts = used ++ rest ∧ RaisesBy k used

namespace Takes

variable {j k : Nat} {t close : Token} {ts us r rest : List Token}

theorem refl (ts : List Token) : Takes 0 ts ts := ⟨[], rfl, .nil⟩

theorem trans (h : Takes j ts us) (h' : Takes k us rest) : Takes (j + k) ts rest := by
  obtain ⟨used, rfl, hj⟩ := h
  obtain ⟨used', rfl, hk⟩ := h'
  exact ⟨used ++ used', (List.append_assoc ..).symm, hj.append hk⟩

/-- Names and signs other than parentheses leave the depth as it is. -/
theorem cons_level (h : Takes k r rest) {kind : Kind} (ht : t.kind = kind)
    (hl : kind ≠ .lparen ∧ kind ≠ .rparen) : Takes k (t :: r) rest := by
  obtain ⟨used, rfl, hk⟩ := h
  exact ⟨t :: used, rfl, hk.cons_level ht hl⟩

theorem cons_lparen (ht : t.kind = .lparen) (h : Takes k r rest) : Takes (k + 1) (t :: r) rest := by
  obtain ⟨used, rfl, hk⟩ := h
  exact ⟨t :: used, rfl, hk.cons_lparen ht⟩

theorem group (ht : t.kind = .lparen) (h : Takes 0 r (close :: rest)) (hc : close.kind = .rparen) :
    Takes 0 (t :: r) rest := by
  obtain ⟨used, rfl, h0⟩ := h
  exact ⟨t :: (used ++ [close]), by simp, h0.group ht hc⟩

/-- Ends of lines that are passed over open and close nothing. -/
theorem of_settle {inside : Bool} (h : Takes k (settle inside r) rest) : Takes k r rest := by
  have hsettle : Takes 0 r (settle inside r) := by
    unfold settle
    split
    · refine ⟨r.takeWhile Token.isNewline, List.takeWhile_append_dropWhile.symm, ?_⟩
      exact .of_isNewline (List.all_eq_true.1 List.all_takeWhile)
    · exact refl r
  have htrans := hsettle.trans h
  rwa [Nat.zero_add] at htrans

end Takes

/-- **What is read closes nothing from in front.** If it is an expression, it also leaves nothing open. -/
theorem Reads.takes {inside : Bool} {acc : Option Expr} {ts rest : List Token}
    {o : Except Complaint Expr} (h : Reads inside acc ts o rest) :
    ∃ k, Takes k ts rest ∧ ∀ e, o = .ok e → k = 0 := by
  induction h with
  | done e hc => exact ⟨0, .refl _, fun _ _ => rfl⟩
  | noExpression hc => exact ⟨0, .refl _, fun _ _ => rfl⟩
  | name hk _ ih =>
      obtain ⟨k, htakes, hok⟩ := ih
      exact ⟨k, htakes.of_settle.cons_level hk (by decide), hok⟩
  | lambda hk hp hi _ ih =>
      obtain ⟨k, htakes, hok⟩ := ih
      refine ⟨k, ?_, fun e he => ?_⟩
      · have hparam := htakes.of_settle.cons_level hi (by decide)
        rw [← hp] at hparam
        exact hparam.of_settle.cons_level hk (by decide)
      · obtain ⟨body, hbody, -⟩ := ok_of_map_eq_ok he
        exact hok body hbody
  | noParameter hk hn =>
      exact ⟨0, (Takes.refl _).of_settle.cons_level hk (by decide), fun _ _ => rfl⟩
  | group hk _ hc _ ih ih' =>
      -- the expression inside leaves nothing open, so the group as a whole leaves nothing open
      obtain ⟨k, htakes, hok⟩ := ih
      obtain ⟨k', htakes', hok'⟩ := ih'
      obtain rfl : k = 0 := hok _ rfl
      have hgroup := (htakes.of_settle.group hk hc).trans htakes'.of_settle
      rw [Nat.zero_add] at hgroup
      exact ⟨k', hgroup, hok'⟩
  | groupFault hk _ ih =>
      obtain ⟨k, htakes, -⟩ := ih
      exact ⟨k + 1, htakes.of_settle.cons_lparen hk, fun e he => by cases he⟩
  | unclosed hk _ hn ih =>
      obtain ⟨k, htakes, -⟩ := ih
      exact ⟨k + 1, htakes.of_settle.cons_lparen hk, fun e he => by cases he⟩

theorem statement_takes (ts : List Token) :
    ∃ k, Takes k ts (statement ts).rest ∧ ∀ s, (statement ts).toExcept = .ok s → k = 0 := by
  by_cases hd : StartsDefinition ts
  · obtain ⟨x, eq, r, rfl, hx, he⟩ := hd
    obtain ⟨ho, hrest⟩ := statement_define r hx he
    obtain ⟨k, htakes, hok⟩ := (reads_expr false none r).takes
    refine ⟨k, ?_, fun s hs => ?_⟩
    · rw [hrest]
      exact (htakes.cons_level he (by decide)).cons_level hx (by decide)
    · rw [ho] at hs
      obtain ⟨e, hread, -⟩ := ok_of_map_eq_ok hs
      exact hok e hread
  · obtain ⟨ho, hrest⟩ := statement_bare hd
    obtain ⟨k, htakes, hok⟩ := (reads_expr false none ts).takes
    refine ⟨k, hrest ▸ htakes, fun s hs => ?_⟩
    rw [ho] at hs
    obtain ⟨e, hread, -⟩ := ok_of_map_eq_ok hs
    exact hok e hread

/-! ## Where statements start -/

/-- What is left of the tokens wherever an attempt at a statement starts. -/
def starts (ts : List Token) : List (List Token) :=
  match ts with
  | [] => []
  | t :: r =>
    if ht : t.isNewline then starts r
    else (t :: r) :: starts (nextLine (statement (t :: r)).rest)
termination_by ts.length
decreasing_by
  · simp
  · exact length_nextLine_lt (statement (t :: r)).rest_suffix (by simpa using ht)

theorem attempts_eq_map_starts (stop : Position) (ts : List Token) :
    attempts stop ts = (starts ts).map fun us => attempt stop (statement us) := by
  fun_induction attempts stop ts with
  | case1 => rw [starts, List.map_nil]
  | case2 t r ht ih => rw [starts, dif_pos ht, ih]
  | case3 t r ht read ih => rw [starts, dif_neg ht, List.map_cons, ih]

/-- The first token of a statement is no end of line, and the last one in front of it is one, unless the
statement is the first. -/
theorem of_mem_starts {ts us : List Token} (h : us ∈ starts ts) :
    (∃ t r, us = t :: r ∧ t.isNewline = false) ∧
      (ts = us ∨ ∃ pre t, ts = pre ++ t :: us ∧ t.isNewline = true) := by
  fun_induction starts ts with
  | case1 => cases h
  | case2 t r ht ih =>
      obtain ⟨hus, hr⟩ := ih h
      refine ⟨hus, .inr ?_⟩
      rcases hr with rfl | ⟨pre, t', rfl, ht'⟩
      · exact ⟨[], t, rfl, ht⟩
      · exact ⟨t :: pre, t', rfl, ht'⟩
  | case3 t r ht ih =>
      rcases List.mem_cons.1 h with rfl | h
      · exact ⟨⟨t, r, rfl, by simpa using ht⟩, .inl rfl⟩
      · obtain ⟨⟨u, us', rfl, hu⟩, hnext⟩ := ih h
        obtain ⟨used, hused⟩ : nextLine (statement (t :: r)).rest <:+ t :: r :=
          (List.dropWhile_suffix _).trans (statement (t :: r)).rest_suffix
        refine ⟨⟨u, us', rfl, hu⟩, .inr ?_⟩
        rcases hnext with hnext | ⟨pre, t', hpre, ht'⟩
        · -- going on starts at the end of a line, and a statement does not
          have hhead := List.head?_dropWhile_not (fun t => !t.isNewline) (statement (t :: r)).rest
          rw [show (statement (t :: r)).rest.dropWhile (fun t => !t.isNewline) = u :: us' from hnext]
            at hhead
          simp [hu] at hhead
        · exact ⟨used ++ pre, t', by rw [← hused, hpre, List.append_assoc], ht'⟩

/-! ## Breaking off -/

/-- What an attempt comes to, by what has been read and what is left. -/
def verdict (stop : Position) (o : Except Complaint Statement) (rest : List Token) : Attempt :=
  match o, rest with
  | .error c, rest => .error (fault stop c rest)
  | .ok s, [] => .ok s
  | .ok s, t :: rest => if t.isNewline then .ok s else .error (fault stop .leftover (t :: rest))

theorem attempt_eq_verdict (stop : Position) {ts : List Token} (r : Result Statement ts) :
    attempt stop r = verdict stop r.toExcept r.rest := by
  match r with
  | .error c rest hs => rfl
  | .ok s [] hs => rfl
  | .ok s (t :: rest) hs => rfl

/-- Whether a fault is found at the end of the input while a parenthesis of the statement that is being
read is open. -/
def breaksOff (l : Lexed) : Bool :=
  (starts l.tokens).any fun us =>
    match attempt l.stop (statement us) with
    | .ok _ => false
    | .error f => f.found.kind = .eof ∧ 0 < openAfter 0 us

theorem suffix_of_mem_starts {ts us : List Token} (h : us ∈ starts ts) : us <:+ ts := by
  rcases (of_mem_starts h).2 with rfl | ⟨pre, t, rfl, -⟩
  · exact List.suffix_refl _
  · exact (List.suffix_cons t us).trans (List.suffix_append pre _)

/-- A statement that is read to the end of the input leaves nothing open there. -/
theorem openAfter_of_statement {us : List Token} {s : Statement}
    (h : (statement us).toExcept = .ok s) (hrest : (statement us).rest = []) : openAfter 0 us = 0 := by
  obtain ⟨k, ⟨used, hused, hk⟩, hok⟩ := statement_takes us
  rw [hrest, List.append_nil] at hused
  rw [hused, hk, hok s h]

/-- A text does not break off if the statement that reaches its end leaves nothing open. -/
theorem breaksOff_eq_false_iff {l : Lexed} (hl : ∀ t ∈ l.tokens, t.kind ≠ .eof) :
    breaksOff l = false ↔
      ∀ us ∈ starts l.tokens, (statement us).rest = [] → openAfter 0 us = 0 := by
  rw [breaksOff, List.any_eq_false]
  refine forall₂_congr fun us hus => ?_
  have hne : ∀ t r, (statement us).rest = t :: r → t.kind ≠ .eof := by
    intro t r hrest
    have hsuffix : t :: r <:+ l.tokens :=
      hrest ▸ (statement us).rest_suffix.trans (suffix_of_mem_starts hus)
    exact hl t (hsuffix.subset List.mem_cons_self)
  rw [attempt_eq_verdict]
  cases ho : (statement us).toExcept with
  | error c =>
      cases hrest : (statement us).rest with
      | nil => simp [verdict, fault, Token.eof]
      | cons t r => simp [verdict, fault, hne t r hrest]
  | ok s =>
      cases hrest : (statement us).rest with
      | nil => simp [verdict, openAfter_of_statement ho hrest]
      | cons t r => cases ht : t.isNewline <;> simp [verdict, fault, ht, hne t r hrest]

/-! ## Lines that end inside parentheses -/

/-- Whether every end of a line comes while more parentheses have been opened than closed. -/
def LinesOpen (ts : List Token) : Prop :=
  ∀ pre t us, ts = pre ++ t :: us → t.isNewline = true → 0 < balance pre

/-- The first token is no end of line: nothing is open in front of it. -/
theorem LinesOpen.first {t : Token} {ts : List Token} (h : LinesOpen (t :: ts)) :
    t.isNewline = false := by
  cases ht : t.isNewline with
  | false => rfl
  | true => exact absurd (h [] t ts rfl ht) (by decide)

theorem linesOpen_of_line {ts : List Token} (h : ∀ t ∈ ts, t.isNewline = false) : LinesOpen ts := by
  rintro pre t us rfl ht
  rw [h t (List.mem_append_right pre List.mem_cons_self)] at ht
  cases ht

/-- One more line may follow while parentheses are open. -/
theorem LinesOpen.append_line {ts us : List Token} (h : LinesOpen ts) (hopen : 0 < balance ts)
    (line : Token) (hus : ∀ t ∈ us, t.isNewline = false) : LinesOpen (ts ++ line :: us) := by
  intro pre t us' heq ht
  rcases List.append_eq_append_iff.1 heq with ⟨c, rfl, hc⟩ | ⟨c, rfl, hc⟩
  · match c with
    | [] => rwa [List.append_nil]
    | _ :: c =>
        obtain ⟨rfl, rfl⟩ := List.cons.inj hc
        rw [hus t (List.mem_append_right c List.mem_cons_self)] at ht
        cases ht
  · match c with
    | [] => rwa [List.append_nil] at hopen
    | _ :: c =>
        obtain ⟨rfl, -⟩ := List.cons.inj hc
        exact h pre t c rfl ht

/-- **Text that goes on for as long as its parentheses are open does not break off.** Every statement but
the first starts behind a line that was left open; another parenthesis left open by the last of them could
not bring the balance down. -/
theorem breaksOff_of_linesOpen {l : Lexed} (hl : ∀ t ∈ l.tokens, t.kind ≠ .eof)
    (hlines : LinesOpen l.tokens) (hbalance : balance l.tokens ≤ 0) : breaksOff l = false := by
  refine (breaksOff_eq_false_iff hl).2 fun us hus hrest => ?_
  obtain ⟨k, ⟨used, hused, hk⟩, -⟩ := statement_takes us
  rw [hrest, List.append_nil] at hused
  subst hused
  have hopen : openAfter 0 us = k := by rw [hk, Nat.zero_add]
  have hus' : balance us = k := hk.balance_eq
  rcases (of_mem_starts hus).2 with htokens | ⟨pre, t, htokens, ht⟩
  · rw [htokens] at hbalance
    omega
  · -- the line in front was left open, and the statement only opens more
    have hpre : 0 < balance pre := hlines pre t us htokens ht
    rw [htokens, balance_append, balance_cons, balance_of_isNewline ht] at hbalance
    omega

/-- Where all attempts succeed, every parenthesis is closed. -/
theorem balance_of_attempts {stop : Position} {ts : List Token} {ss : List Statement}
    (h : attempts stop ts = ss.map .ok) : balance ts = 0 := by
  fun_induction attempts stop ts generalizing ss with
  | case1 => rfl
  | case2 t r ht ih => rw [balance_cons, balance_of_isNewline ht, ih h, Int.add_zero]
  | case3 t r ht read =>
      rename_i ih
      obtain ⟨s, ss', rfl, hs, hss'⟩ := List.map_eq_cons_iff.1 h.symm
      obtain ⟨ho, hend⟩ := (attempt_eq_ok_iff stop).1 hs.symm
      obtain ⟨k, ⟨used, hused, hk⟩, hok⟩ := statement_takes (t :: r)
      -- the statement leaves nothing open, and nothing is skipped behind it
      obtain rfl : k = 0 := hok s ho
      rw [nextLine_of_lineEnd hend] at ih hss'
      rw [hused, balance_append, hk.balance_eq, ih hss'.symm]
      rfl

/-- Nothing is wrong with a text that parses. -/
theorem faults_of_parse {name : String} {t : Text} {m : Module} (h : parse name t = .ok m) :
    (read t).faults = [] := by
  rw [parse] at h
  cases hf : (read t).faults with
  | nil => rfl
  | cons f fs => simp [hf] at h

/-- A text parses if there are attempts and all of them succeed. -/
theorem parse_eq_ok_iff {name : String} {t : Text} {ss : List Statement} :
    parse name t = .ok ⟨name, ss⟩ ↔
      ss ≠ [] ∧ attempts (Lexed.ofText t).stop (Lexed.ofText t).tokens = ss.map .ok := by
  constructor
  · intro h
    have hfaults : (read t).faults = [] := faults_of_parse h
    obtain ⟨ss', hne, hss'⟩ := exists_statements_of_no_fault hfaults
    have hread : read t = ⟨ss', []⟩ := by rw [read, readTokens, hss', reading_map_ok _ hne]
    obtain rfl : ss' = ss := by simpa [parse, hread] using h
    exact ⟨hne, hss'⟩
  · rintro ⟨hne, hss⟩
    have hread : read t = ⟨ss, []⟩ := by rw [read, readTokens, hss, reading_map_ok _ hne]
    simp [parse, hread]

theorem name_of_parse {name : String} {t : Text} {m : Module} (h : parse name t = .ok m) :
    m = ⟨name, m.statements⟩ := by
  rw [parse] at h
  split at h
  · cases h
    rfl
  · cases h

/-- **Whatever parses closes every parenthesis that it opens.** -/
theorem balance_of_parse {name : String} {t : Text} {m : Module} (h : parse name t = .ok m) :
    balance (Lexed.ofText t).tokens = 0 := by
  rw [name_of_parse h] at h
  exact balance_of_attempts (parse_eq_ok_iff.1 h).2

/-- Where every line ends inside parentheses and all attempts succeed, there is one statement at most: the
end of its line would come with nothing left open. -/
theorem attempts_of_linesOpen {stop : Position} {ts : List Token} {ss : List Statement}
    (hlines : LinesOpen ts) (h : attempts stop ts = ss.map .ok) :
    ts = [] ∧ ss = [] ∨ ∃ s, ss = [s] := by
  cases ts with
  | nil =>
      rw [attempts] at h
      exact .inl ⟨rfl, List.map_eq_nil_iff.1 h.symm⟩
  | cons t r =>
      rw [attempts_statement stop r hlines.first] at h
      obtain ⟨s, ss', rfl, hs, hss'⟩ := List.map_eq_cons_iff.1 h.symm
      obtain ⟨ho, hend⟩ := (attempt_eq_ok_iff stop).1 hs.symm
      obtain ⟨k, ⟨used, hused, hk⟩, hok⟩ := statement_takes (t :: r)
      obtain rfl : k = 0 := hok s ho
      refine .inr ⟨s, ?_⟩
      rw [nextLine_of_lineEnd hend] at hss'
      cases hrest : (statement (t :: r)).rest with
      | nil =>
          rw [hrest, attempts] at hss'
          rw [List.map_eq_nil_iff.1 hss']
      | cons u us =>
          -- another line would begin while nothing is open
          rw [hrest] at hend hused
          have hopen : 0 < balance used := hlines used u us hused (hend u rfl)
          rw [hk.balance_eq] at hopen
          cases hopen

end LazyLambda.Parser
