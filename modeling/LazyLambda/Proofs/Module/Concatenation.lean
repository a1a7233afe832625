/-
# LazyLambda.Proofs.Module.Concatenation — sources put together are read one after the other.

Behind a text that does not break off, the end of a line ends whatever is being read, as the end of the text
did. So a statement is read the same whether the text ends there or goes on in the next line
(`statement_append`), broken statements included, and every further attempt starts where it would in
the other text alone (`starts_append`). Only a fault that was found at the end of the input is now found at
the end of the line, which has the same position.

The other text is read from further down, and its faults move down with it (`attempts_down`).
-/
import LazyLambda.Proofs.Module.Parentheses
import LazyLambda.Proofs.Text.Decoding

namespace LazyLambda.Parser

open Grammar

/-! ## The end of a line behind what is read -/

section Line

variable {line : Token} (us : List Token)

theorem settle_append {inside : Bool} {ts : List Token} (h : settle inside ts = [] → inside = false)
    (us : List Token) : settle inside (ts ++ us) = settle inside ts ++ us := by
  cases inside with
  | false => rfl
  | true =>
      have hne : (ts.dropWhile Token.isNewline).isEmpty = false := by
        cases hs : ts.dropWhile Token.isNewline with
        | nil => cases h hs
        | cons t r => rfl
      simp only [settle, if_true, List.dropWhile_append, hne, Bool.false_eq_true, if_false]

theorem Takes.openAfter_eq {k : Nat} {ts rest : List Token} (h : Takes k ts rest) (depth : Nat) :
    openAfter depth ts = openAfter (depth + k) rest := by
  obtain ⟨used, rfl, hk⟩ := h
  rw [openAfter_append, hk]

/-- With a parenthesis open nothing runs out that leaves nothing open. -/
theorem Takes.ne_nil_of_lparen {k : Nat} {t : Token} {r rest : List Token} (ht : t.kind = .lparen)
    (h : Takes k (settle true r) rest) (hopen : rest = [] → openAfter 0 (t :: r) = 0) : rest ≠ [] := by
  intro hnil
  have hzero := hopen hnil
  rw [(h.of_settle.cons_lparen ht).openAfter_eq 0, hnil] at hzero
  simp [openAfter] at hzero

theorem closing_append_line (hline : line.isNewline = true) {ts : List Token} (h : Closing ts) :
    Closing (ts ++ line :: us) := by
  cases ts with
  | nil =>
      have hk : line.kind = .newline := of_decide_eq_true hline
      exact closing_cons (by rw [opens, hk]; rfl) us
  | cons t r => exact closing_cons (h t rfl) _

/-- **The end of a line reads as the end of the input does**, once no parenthesis is open. What is read of
tokens that do not run out inside parentheses is also read if a line ends behind them. -/
theorem Reads.append (hline : line.isNewline = true) {inside : Bool} {acc : Option Expr}
    {ts rest : List Token} {o : Except Complaint Expr} (h : Reads inside acc ts o rest)
    (hrest : rest = [] → inside = false ∧ openAfter 0 ts = 0) :
    Reads inside acc (ts ++ line :: us) o (rest ++ line :: us) := by
  -- what is settled runs out only if all that is read does
  have hsettle {inside : Bool} {r rest : List Token} {acc : Option Expr} {o : Except Complaint Expr}
      (hr : Reads inside acc (settle inside r) o rest) (hin : rest = [] → inside = false) :
      settle inside (r ++ line :: us) = settle inside r ++ line :: us := by
    refine settle_append (fun hnil => hin ?_) _
    obtain ⟨k, ⟨used, hused, -⟩, -⟩ := hr.takes
    rw [hnil] at hused
    exact (List.append_eq_nil_iff.1 hused.symm).2
  induction h with
  | done e hc => exact .done e (closing_append_line us hline hc)
  | noExpression hc => exact .noExpression (closing_append_line us hline hc)
  | @name inside acc t r rest o hk hr ih =>
      -- a name leaves the depth as it is, so what is known of the end goes over to the tokens behind it
      have hopen := ((Takes.refl (settle inside r)).of_settle.cons_level hk (by decide)).openAfter_eq 0
      rw [hopen] at hrest
      have hin := ih hrest
      rw [← hsettle hr fun hnil => (hrest hnil).1] at hin
      exact .name hk hin
  | @lambda inside acc t p r r' rest o hk hp hi hr ih =>
      have hparam := (Takes.refl (settle inside r')).of_settle.cons_level hi (by decide)
      rw [← hp] at hparam
      rw [(hparam.of_settle.cons_level hk (by decide)).openAfter_eq 0] at hrest
      have hp' : settle inside (r ++ line :: us) = p :: (r' ++ line :: us) := by
        rw [settle_append (fun hnil => by rw [hp] at hnil; cases hnil), hp, List.cons_append]
      have hin := ih hrest
      rw [← hsettle hr fun hnil => (hrest hnil).1] at hin
      exact .lambda hk hp' hi hin
  | @noParameter inside acc t r hk hn =>
      have hs : settle inside (r ++ line :: us) = settle inside r ++ line :: us :=
        settle_append (fun hnil => (hrest hnil).1) _
      have hn' : ∀ p ∈ (settle inside (r ++ line :: us)).head?, p.kind ≠ .ident := by
        rw [hs]
        cases hr : settle inside r with
        | nil =>
            have hkind : line.kind = .newline := of_decide_eq_true hline
            simp [hkind]
        | cons p r' => simpa [hr] using hn
      rw [← hs]
      exact .noParameter hk hn'
  | @group inside acc t close r rest rest' e o hk hr hc hr' ih ih' =>
      obtain ⟨k, htakes, hok⟩ := hr.takes
      obtain rfl : k = 0 := hok e rfl
      have hgroup := (htakes.of_settle.group hk hc).trans (Takes.refl (settle inside rest)).of_settle
      rw [hgroup.openAfter_eq 0] at hrest
      have hin := ih fun hnil => by cases hnil
      rw [← hsettle hr fun hnil => by cases hnil] at hin
      have hout := ih' hrest
      rw [← hsettle hr' fun hnil => (hrest hnil).1] at hout
      exact .group hk hin hc hout
  | @groupFault inside acc t r rest c hk hr ih =>
      -- the tokens have not run out, since the parenthesis is open
      obtain ⟨k, htakes, -⟩ := hr.takes
      have hne : rest ≠ [] := htakes.ne_nil_of_lparen hk fun hnil => (hrest hnil).2
      have hin := ih fun hnil => (hne hnil).elim
      rw [← hsettle hr fun hnil => (hne hnil).elim] at hin
      exact .groupFault hk hin
  | @unclosed inside acc t r rest e hk hr hn ih =>
      obtain ⟨k, htakes, -⟩ := hr.takes
      have hne : rest ≠ [] := htakes.ne_nil_of_lparen hk fun hnil => (hrest hnil).2
      have hin := ih fun hnil => (hne hnil).elim
      rw [← hsettle hr fun hnil => (hne hnil).elim] at hin
      refine .unclosed hk hin ?_
      cases rest with
      | nil => exact (hne rfl).elim
      | cons u rest => exact hn

/-! ## Statements -/

theorem startsDefinition_append (hline : line.isNewline = true) {ts : List Token} :
    StartsDefinition (ts ++ line :: us) ↔ StartsDefinition ts := by
  have hk : line.kind = .newline := of_decide_eq_true hline
  constructor
  · rintro ⟨x, eq, r, h, hx, he⟩
    match ts with
    | [] =>
        cases h
        rw [hk] at hx
        cases hx
    | [_] =>
        cases h
        rw [hk] at he
        cases he
    | _ :: _ :: r' =>
        cases h
        exact ⟨_, _, r', rfl, hx, he⟩
  · rintro ⟨x, eq, r, rfl, hx, he⟩
    exact ⟨x, eq, r ++ line :: us, rfl, hx, he⟩

theorem expr_append (hline : line.isNewline = true) {ts : List Token}
    (h : (expr false none ts).rest = [] → openAfter 0 ts = 0) :
    (expr false none (ts ++ line :: us)).toExcept = (expr false none ts).toExcept ∧
      (expr false none (ts ++ line :: us)).rest = (expr false none ts).rest ++ line :: us :=
  ((reads_expr false none ts).append us hline fun hnil => ⟨rfl, h hnil⟩).expr_eq

/-- **A statement is read the same whether the input or only the line ends behind it**, unless it breaks
off. -/
theorem statement_append (hline : line.isNewline = true) {ts : List Token}
    (h : (statement ts).rest = [] → openAfter 0 ts = 0) :
    (statement (ts ++ line :: us)).toExcept = (statement ts).toExcept ∧
      (statement (ts ++ line :: us)).rest = (statement ts).rest ++ line :: us := by
  by_cases hd : StartsDefinition ts
  · obtain ⟨x, eq, r, rfl, hx, he⟩ := hd
    obtain ⟨ho, hrest⟩ := statement_define r hx he
    obtain ⟨ho', hrest'⟩ := statement_define (r ++ line :: us) hx he
    have hopen := (((Takes.refl r).cons_level he (by decide)).cons_level hx (by decide)).openAfter_eq 0
    rw [hrest, hopen] at h
    obtain ⟨hexcept, hleft⟩ := expr_append us hline h
    rw [List.cons_append, List.cons_append, ho', hrest', ho, hrest, hexcept, hleft]
    exact ⟨rfl, rfl⟩
  · obtain ⟨ho, hrest⟩ := statement_bare hd
    obtain ⟨ho', hrest'⟩ := statement_bare (mt (startsDefinition_append us hline).1 hd)
    rw [hrest] at h
    obtain ⟨hexcept, hleft⟩ := expr_append us hline h
    rw [ho', hrest', ho, hrest, hexcept, hleft]
    exact ⟨rfl, rfl⟩

theorem nextLine_append (hline : line.isNewline = true) (ts : List Token) :
    nextLine (ts ++ line :: us) = nextLine ts ++ line :: us :=
  dropWhile_append_stop (by simp [hline]) ts us

/-- **Statements start where they would in either text alone**, if the first does not break off. -/
theorem starts_append (hline : line.isNewline = true) {ts : List Token}
    (h : ∀ vs ∈ starts ts, (statement vs).rest = [] → openAfter 0 vs = 0) :
    starts (ts ++ line :: us) = (starts ts).map (· ++ line :: us) ++ starts us := by
  fun_induction starts ts with
  | case1 => rw [List.nil_append, starts, dif_pos hline, List.map_nil, List.nil_append]
  | case2 t r ht ih => rw [List.cons_append, starts, dif_pos ht, ih h]
  | case3 t r ht ih =>
      -- the statement leaves the same, and the next one starts behind the same line
      rw [List.forall_mem_cons] at h
      obtain ⟨-, hrest⟩ := statement_append us hline h.1
      rw [List.cons_append] at hrest
      rw [List.cons_append, starts, dif_neg ht, hrest, nextLine_append us hline, ih h.2,
        List.map_cons, List.cons_append, List.cons_append]

/-- The statement of an attempt, or the position of its fault. -/
def Attempt.placed : Attempt → Except Position Statement
  | .ok s => .ok s
  | .error f => .error f.found.pos

theorem verdict_append (hline : line.isNewline = true) (stop : Position)
    (o : Except Complaint Statement) (rest : List Token) :
    Attempt.placed (verdict stop o (rest ++ line :: us)) = Attempt.placed (verdict line.pos o rest) := by
  cases rest with
  | nil =>
      -- a fault at the end of the input is now found at the end of the line, which stands there
      cases o with
      | error c => rfl
      | ok s => simp [verdict, hline]
  | cons t r =>
      cases o with
      | error c => rfl
      | ok s => cases ht : t.isNewline <;> simp [verdict, fault, ht]

/-- **All attempts succeed or fail where they would in either text alone.** -/
theorem attempts_append (hline : line.isNewline = true) (stop : Position) {ts : List Token}
    (h : ∀ vs ∈ starts ts, (statement vs).rest = [] → openAfter 0 vs = 0) :
    (attempts stop (ts ++ line :: us)).map Attempt.placed =
      (attempts line.pos ts).map Attempt.placed ++ (attempts stop us).map Attempt.placed := by
  simp only [attempts_eq_map_starts, starts_append us hline h, List.map_append, List.map_map]
  congr 1
  refine List.map_congr_left fun vs hvs => ?_
  obtain ⟨ho, hrest⟩ := statement_append us hline (h vs hvs)
  simp only [Function.comp_apply, attempt_eq_verdict, ho, hrest, verdict_append us hline]

end Line

/-! ## Further down -/

section Down

variable (n : Nat)

/-- The complaint about a text that starts so many lines further down. -/
def lowerComplaint : Complaint → Complaint
  | .unclosed opened => .unclosed (opened.down n)
  | c => c

/-- What is read, or the complaint from further down. -/
def lowerOutcome {α : Type} : Except Complaint α → Except Complaint α
  | .ok a => .ok a
  | .error c => .error (lowerComplaint n c)

/-- The attempt at a statement that stands so many lines further down. -/
def lowerAttempt : Attempt → Attempt
  | .ok s => .ok s
  | .error f => .error ⟨lowerComplaint n f.complaint, f.found.down n⟩

theorem settle_down (inside : Bool) (ts : List Token) :
    settle inside (ts.map (.down n)) = (settle inside ts).map (.down n) := by
  unfold settle
  split
  · exact List.dropWhile_map
  · rfl

theorem nextLine_down (ts : List Token) : nextLine (ts.map (.down n)) = (nextLine ts).map (.down n) :=
  List.dropWhile_map

theorem head?_down {P : Token → Prop} (hP : ∀ t, P t → P (t.down n)) {ts : List Token}
    (h : ∀ t ∈ ts.head?, P t) : ∀ t ∈ (ts.map (.down n)).head?, P t := by
  cases ts with
  | nil =>
      intro t ht
      cases ht
  | cons u r =>
      intro t ht
      obtain rfl : u.down n = t := by simpa using ht
      exact hP u (h u rfl)

/-- Where tokens stand makes no difference to what is read of them. -/
theorem Reads.down {inside : Bool} {acc : Option Expr} {ts rest : List Token}
    {o : Except Complaint Expr} (h : Reads inside acc ts o rest) :
    Reads inside acc (ts.map (.down n)) (lowerOutcome n o) (rest.map (.down n)) := by
  induction h with
  | done e hc => exact .done e (head?_down n (fun _ ht => ht) hc)
  | noExpression hc => exact .noExpression (head?_down n (fun _ ht => ht) hc)
  | name hk _ ih =>
      rw [← settle_down] at ih
      exact .name hk ih
  | @lambda inside acc t p r r' rest o hk hp hi _ ih =>
      have hp' : settle inside (r.map (.down n)) = p.down n :: r'.map (.down n) := by
        rw [settle_down, hp, List.map_cons]
      rw [← settle_down] at ih
      have hread : Reads inside acc (t.down n :: r.map (.down n)) _ _ := .lambda hk hp' hi ih
      cases o with
      | error c => exact hread
      | ok body => exact hread
  | noParameter hk hn =>
      rw [← settle_down]
      refine .noParameter hk ?_
      rw [settle_down]
      exact head?_down n (fun _ ht => ht) hn
  | group hk _ hc _ ih ih' =>
      rw [← settle_down] at ih ih'
      exact .group hk ih hc ih'
  | groupFault hk _ ih =>
      rw [← settle_down] at ih
      exact .groupFault hk ih
  | unclosed hk _ hn ih =>
      rw [← settle_down] at ih
      exact .unclosed hk ih (head?_down n (fun _ ht => ht) hn)

theorem lowerOutcome_map {α β : Type} (f : α → β) (o : Except Complaint α) :
    lowerOutcome n (o.map f) = (lowerOutcome n o).map f := by
  cases o <;> rfl

theorem startsDefinition_down {ts : List Token} :
    StartsDefinition (ts.map (.down n)) ↔ StartsDefinition ts := by
  constructor
  · rintro ⟨x, eq, r, h, hx, he⟩
    match ts with
    | x' :: eq' :: r' =>
        cases h
        exact ⟨x', eq', r', rfl, hx, he⟩
  · rintro ⟨x, eq, r, rfl, hx, he⟩
    exact ⟨x.down n, eq.down n, r.map (.down n), rfl, hx, he⟩

theorem statement_down (ts : List Token) :
    (statement (ts.map (.down n))).toExcept = lowerOutcome n (statement ts).toExcept ∧
      (statement (ts.map (.down n))).rest = (statement ts).rest.map (.down n) := by
  by_cases hd : StartsDefinition ts
  · obtain ⟨x, eq, r, rfl, hx, he⟩ := hd
    obtain ⟨ho, hrest⟩ := statement_define r hx he
    have hx' : (x.down n).kind = .ident := hx
    have he' : (eq.down n).kind = .assign := he
    obtain ⟨ho', hrest'⟩ := statement_define (r.map (.down n)) hx' he'
    obtain ⟨hexcept, hleft⟩ := ((reads_expr false none r).down n).expr_eq
    rw [List.map_cons, List.map_cons, ho', hrest', ho, hrest, hexcept, hleft, lowerOutcome_map]
    exact ⟨rfl, rfl⟩
  · obtain ⟨ho, hrest⟩ := statement_bare hd
    obtain ⟨ho', hrest'⟩ := statement_bare (mt (startsDefinition_down n).1 hd)
    obtain ⟨hexcept, hleft⟩ := ((reads_expr false none ts).down n).expr_eq
    rw [ho', hrest', ho, hrest, hexcept, hleft, lowerOutcome_map]
    exact ⟨rfl, rfl⟩

theorem verdict_down (stop : Position) (o : Except Complaint Statement) (rest : List Token) :
    verdict (stop.down n) (lowerOutcome n o) (rest.map (.down n)) =
      lowerAttempt n (verdict stop o rest) := by
  cases rest with
  | nil => cases o <;> rfl
  | cons t r =>
      cases o with
      | error c => rfl
      | ok s =>
          cases ht : t.isNewline with
          | true => simp [verdict, lowerOutcome, lowerAttempt, ht]
          | false => simp [verdict, lowerOutcome, lowerAttempt, lowerComplaint, fault, ht]

/-- **The faults of a text move down with it**, and nothing else changes. -/
theorem attempts_down (stop : Position) (ts : List Token) :
    attempts (stop.down n) (ts.map (.down n)) = (attempts stop ts).map (lowerAttempt n) := by
  fun_induction attempts stop ts with
  | case1 => rw [List.map_nil, attempts, List.map_nil]
  | case2 t r ht ih => rw [List.map_cons, attempts_newline _ _ (by simpa using ht), ih]
  | case3 t r ht read =>
      rename_i ih
      have ht' : (t.down n).isNewline = false := by simpa using ht
      obtain ⟨ho, hrest⟩ := statement_down n (t :: r)
      rw [List.map_cons] at ho hrest
      rw [List.map_cons, attempts_statement _ _ ht', attempt_eq_verdict, ho, hrest, nextLine_down, ih,
        verdict_down, ← attempt_eq_verdict, List.map_cons]

/-- The position of a fault from further down. -/
def lowerPlaced : Except Position Statement → Except Position Statement
  | .ok s => .ok s
  | .error p => .error (p.down n)

theorem placed_lowerAttempt (a : Attempt) :
    (lowerAttempt n a).placed = lowerPlaced n a.placed := by
  cases a <;> rfl

end Down

/-! ## Texts -/

/-- The attempts at the statements of a text. -/
def attemptsOf (t : Text) : List Attempt := attempts (Lexed.ofText t).stop (Lexed.ofText t).tokens

/-- **The attempts at two texts in a row** are those at the first and then those at the second, further
down. -/
theorem attemptsOf_append {a : Text} (b : Text) (hnul : ∀ s ∈ a, s.isNul = false)
    (hopen : breaksOff (.ofText a) = false) :
    (attemptsOf (a ++ .char '\n' :: b)).map Attempt.placed =
      (attemptsOf a).map Attempt.placed ++
        ((attemptsOf b).map Attempt.placed).map (lowerPlaced (1 + a.count (.char '\n'))) := by
  have hdone : ∀ vs ∈ starts (Lexed.ofText a).tokens, (statement vs).rest = [] → openAfter 0 vs = 0 :=
    (breaksOff_eq_false_iff Lexed.kind_ne_eof).1 hopen
  simp only [attemptsOf, Lexed.ofText_append_lineFeed b hnul, Lexed.prepend, Lexed.down,
    List.append_assoc, List.singleton_append]
  rw [attempts_append _ rfl _ hdone, attempts_down]
  simp only [List.map_map]
  congr 2
  funext x
  exact placed_lowerAttempt _ x

theorem eq_map_ok_of_map {f : Attempt → Except Position Statement}
    (hf : ∀ a s, f a = .ok s → a = .ok s) {as : List Attempt} {ss : List Statement}
    (h : as.map f = ss.map .ok) : as = ss.map .ok := by
  induction as generalizing ss with
  | nil =>
      rw [List.map_eq_nil_iff.1 h.symm]
      rfl
  | cons a as ih =>
      obtain ⟨s, ss', rfl, hs, hss'⟩ := List.map_eq_cons_iff.1 h.symm
      rw [hf a s hs.symm, ih hss'.symm, List.map_cons]

/-- Where all attempts at two texts in a row succeed, so do all attempts at each. -/
theorem attemptsOf_append_ok {a b : Text} {ss : List Statement} (hnul : ∀ s ∈ a, s.isNul = false)
    (hopen : breaksOff (.ofText a) = false) (h : attemptsOf (a ++ .char '\n' :: b) = ss.map .ok) :
    ∃ ss₁ ss₂, ss = ss₁ ++ ss₂ ∧ attemptsOf a = ss₁.map .ok ∧ attemptsOf b = ss₂.map .ok := by
  have hplaced := attemptsOf_append b hnul hopen
  rw [h, List.map_map, List.map_map] at hplaced
  obtain ⟨ss₁, ss₂, rfl, h₁, h₂⟩ := List.map_eq_append_iff.1 hplaced
  refine ⟨ss₁, ss₂, rfl, eq_map_ok_of_map ?_ h₁.symm, eq_map_ok_of_map ?_ h₂.symm⟩
  -- neither leaving out what a fault says nor moving it down makes a fault a statement
  all_goals
    intro x s hx
    match x with
    | .ok s' =>
        cases hx
        rfl

/-! ## What is kept, and where the faults are -/

/-- The positions of the faults, an empty module as such aside. -/
def Reading.places (r : Reading) : List Position :=
  (r.faults.filter fun f => f.complaint ≠ .emptyModule).map fun f => f.found.pos

theorem error_of_map_eq_error {α β ε : Type} {f : α → β} {o : Except ε α} {c : ε}
    (h : o.map f = .error c) : o = .error c := by
  cases o with
  | error c' => exact congrArg Except.error (Except.error.inj h)
  | ok a => cases h

theorem Reads.ne_emptyModule {inside : Bool} {acc : Option Expr} {ts rest : List Token}
    {o : Except Complaint Expr} (h : Reads inside acc ts o rest) : o ≠ .error .emptyModule := by
  induction h with
  | done | noExpression | noParameter | unclosed => simp
  | name _ _ ih | group _ _ _ _ _ ih | groupFault _ _ ih => exact ih
  | lambda _ _ _ _ ih => exact fun h => ih (error_of_map_eq_error h)

theorem statement_ne_emptyModule (ts : List Token) :
    (statement ts).toExcept ≠ .error .emptyModule := by
  intro h
  by_cases hd : StartsDefinition ts
  · obtain ⟨x, eq, r, rfl, hx, he⟩ := hd
    rw [(statement_define r hx he).1] at h
    exact (reads_expr false none r).ne_emptyModule (error_of_map_eq_error h)
  · rw [(statement_bare hd).1] at h
    exact (reads_expr false none ts).ne_emptyModule (error_of_map_eq_error h)

/-- No attempt complains of an empty module. -/
theorem ne_emptyModule_of_mem_attempts {stop : Position} {ts : List Token} {f : Fault}
    (h : .error f ∈ attempts stop ts) : f.complaint ≠ .emptyModule := by
  rw [attempts_eq_map_starts] at h
  obtain ⟨us, -, hf⟩ := List.mem_map.1 h
  have hne := statement_ne_emptyModule us
  rw [attempt_eq_verdict] at hf
  generalize (statement us).toExcept = o at hf hne
  match o, (statement us).rest, hf with
  | .error c, rest, hf =>
      cases hf
      exact fun hc => hne (congrArg Except.error hc)
  | .ok s, t :: rest, hf =>
      cases ht : t.isNewline with
      | true => simp [verdict, ht] at hf
      | false =>
          obtain rfl : fault stop .leftover (t :: rest) = f := by simpa [verdict, ht] using hf
          exact Complaint.noConfusion

/-- The position at which an attempt has failed. -/
def failedAt? : Except Position Statement → Option Position
  | .ok _ => none
  | .error p => some p

theorem statements_read (t : Text) :
    (read t).statements = ((attemptsOf t).map Attempt.placed).filterMap Except.toOption := by
  have hplaced : Attempt.statement? = fun a => a.placed.toOption := by
    funext a
    cases a <;> rfl
  rw [read, readTokens, reading, List.filterMap_map, attemptsOf]
  split
  · next hempty => rw [List.isEmpty_iff.1 hempty, List.filterMap_nil]
  · rw [hplaced]
    rfl

theorem places_of_attempts {as : List Attempt}
    (h : ∀ f, .error f ∈ as → f.complaint ≠ .emptyModule) :
    ((as.filterMap Attempt.fault?).filter fun f => f.complaint ≠ .emptyModule).map
      (fun f => f.found.pos) = (as.map Attempt.placed).filterMap failedAt? := by
  induction as with
  | nil => rfl
  | cons a as ih =>
      have has := ih fun f hf => h f (List.mem_cons_of_mem a hf)
      cases a with
      | ok s => exact has
      | error f =>
          have hf : f.complaint ≠ .emptyModule := h f List.mem_cons_self
          simp only [List.filterMap_cons, Attempt.fault?, List.filter_cons, hf, ne_eq, not_false_eq_true,
            decide_true, if_true, List.map_cons, Attempt.placed, failedAt?]
          exact congrArg _ has

theorem places_read (t : Text) :
    (read t).places = ((attemptsOf t).map Attempt.placed).filterMap failedAt? := by
  rw [attemptsOf, ← places_of_attempts fun f => ne_emptyModule_of_mem_attempts, Reading.places, read,
    readTokens, reading]
  split
  · next hempty =>
      rw [List.isEmpty_iff.1 hempty]
      rfl
  · rfl

/-! ## Sources -/

/-- Texts are read one after the other. -/
theorem read_append {a : Text} (b : Text) (hnul : ∀ s ∈ a, s.isNul = false)
    (hopen : breaksOff (.ofText a) = false) :
    (read (a ++ .char '\n' :: b)).statements = (read a).statements ++ (read b).statements ∧
      (read (a ++ .char '\n' :: b)).places =
        (read a).places ++ (read b).places.map (.down (1 + a.count (.char '\n'))) := by
  have hkept (n : Nat) : Except.toOption ∘ lowerPlaced n = Except.toOption := by
    funext p
    cases p <;> rfl
  have hmoved (n : Nat) : failedAt? ∘ lowerPlaced n = Option.map (.down n) ∘ failedAt? := by
    funext p
    cases p <;> rfl
  simp only [statements_read, places_read, attemptsOf_append b hnul hopen, List.filterMap_append]
  constructor
  · conv => lhs; rhs; rw [List.filterMap_map, hkept]
  · conv => lhs; rhs; rw [List.filterMap_map, hmoved]
    rw [List.map_filterMap]
    rfl

/-- **Sources are read one after the other, broken statements included.** Let the first of two sources
hold no NUL character, and let it not break off. Put together with a line feed between them, they keep the
statements of the first and then those of the second. The faults are where they are in the first, then
where they are in the second, as many lines further down as come before it. -/
theorem read_concatenation (a b : List UInt8) (hnul : 0 ∉ a)
    (hopen : breaksOff (.ofText (.ofBytes a)) = false) :
    let both := read (.ofBytes (a ++ Text.lineFeedByte :: b))
    both.statements = (read (.ofBytes a)).statements ++ (read (.ofBytes b)).statements ∧
      both.places = (read (.ofBytes a)).places ++
        (read (.ofBytes b)).places.map (.down (1 + a.count Text.lineFeedByte)) := by
  have hsymbols : ∀ s ∈ Text.ofBytes a, s.isNul = false := by
    refine fun s hs => decide_eq_false ?_
    rintro rfl
    exact hnul (Text.mem_of_mem_ofBytes hs (by decide))
  rw [Text.ofBytes_append_lineFeed, ← Text.count_ofBytes]
  exact read_append (.ofBytes b) hsymbols hopen

/-- The first source has a statement that is kept and three that are broken, one of them over two lines and
one at its very end; the second breaks off. -/
theorem read_concatenation_broken :
    let a := "k = x\nx = ) (\n(y\n) = z\nw =".toList.flatMap String.utf8EncodeChar
    let b := "v\n(\nq".toList.flatMap String.utf8EncodeChar
    let both := read (.ofBytes (a ++ Text.lineFeedByte :: b))
    0 ∉ a ∧ breaksOff (.ofText (.ofBytes a)) = false ∧ breaksOff (.ofText (.ofBytes b)) = true ∧
      both.statements = [.define "k" (.name "x"), .bare (.name "v")] ∧
      both.places = [⟨2, 5⟩, ⟨4, 3⟩, ⟨5, 4⟩, ⟨8, 2⟩] := by
  -- a literal is the string of its characters, which saves decoding it
  rw [String.toList_ofList, String.toList_ofList]
  intro a b both
  have hnul : 0 ∉ a := by decide +kernel
  have hopen : breaksOff (.ofText (.ofBytes a)) = false := by decide +kernel
  have hbroken : breaksOff (.ofText (.ofBytes b)) = true := by decide +kernel
  obtain ⟨hstatements, hplaces⟩ := read_concatenation a b hnul hopen
  refine ⟨hnul, hopen, hbroken, hstatements.trans ?_, hplaces.trans ?_⟩
  · decide +kernel
  · decide +kernel

end LazyLambda.Parser
