/-
# LazyLambda.Proofs.Module.Exact — the reader of modules accepts exactly what the grammar derives.

The reader passes over the ends of lines inside parentheses as it meets them; the grammar is about
tokens from which they have been taken away beforehand (`Grammar.joined`). A reader with `depth`
parentheses open has never an end of line in front of it (`Settled`), and what it has in front of it
is what is in front once the lines are joined. With this an expression that is read is a derivation
(`Reads.sound`), and a derivation is read (`reads_expression`): the first by induction on the rules of
the reader, the second on the tree.

Statements and modules follow the same way: what all attempts read is a module (`attempts_sound`), and
of a module all attempts read its statements (`attempts_complete`).
-/
import LazyLambda.Proofs.Module.Reads

namespace LazyLambda.Parser

open Grammar

/-! ## Settled tokens -/

/-- Whether a parenthesis is open. -/
def isInside (depth : Nat) : Bool := decide (0 < depth)

@[simp] theorem isInside_succ (depth : Nat) : isInside (depth + 1) = true := rfl

/-- Inside parentheses no end of line comes next. -/
def Settled (depth : Nat) (ts : List Token) : Prop :=
  0 < depth → ∀ t ∈ ts.head?, t.isNewline = false

theorem settled_zero (ts : List Token) : Settled 0 ts := by
  intro h
  exact (Nat.lt_irrefl 0 h).elim

theorem settled_settle (depth : Nat) (ts : List Token) :
    Settled depth (settle (isInside depth) ts) := by
  intro hd t ht
  simp only [settle, isInside, hd, decide_true, if_true] at ht
  have hp := List.head?_dropWhile_not Token.isNewline ts
  rw [ht] at hp
  simpa using hp

theorem joined_settle (depth : Nat) (ts : List Token) :
    joined depth (settle (isInside depth) ts) = joined depth ts := by
  by_cases hd : 0 < depth
  · simp only [settle, isInside, hd, decide_true, if_true]
    induction ts with
    | nil => rfl
    | cons t ts ih =>
        cases ht : t.isNewline with
        | true =>
            rw [List.dropWhile_cons, if_pos ht, ih, joined]
            simp [hd, ht]
        | false => rw [List.dropWhile_cons, ht, if_neg (by decide)]
  · simp [settle, isInside, hd]

theorem joined_cons_of_settled {depth : Nat} {t : Token} {ts : List Token}
    (h : Settled depth (t :: ts)) :
    joined depth (t :: ts) = t :: joined (depthAfter depth t) ts := by
  have hn : ¬ (0 < depth ∧ t.isNewline = true) := by
    rintro ⟨hd, ht⟩
    rw [h hd t rfl] at ht
    cases ht
  rw [joined, if_neg hn]

/-- What comes next also comes next in the joined lines. -/
theorem eq_cons_of_joined {depth : Nat} {t : Token} {ts us : List Token} (h : Settled depth ts)
    (hj : joined depth ts = t :: us) :
    ∃ r, ts = t :: r ∧ joined (depthAfter depth t) r = us := by
  cases ts with
  | nil => cases hj
  | cons u r =>
      rw [joined_cons_of_settled h] at hj
      injection hj with hu hr
      subst hu
      exact ⟨r, rfl, hr⟩

theorem head?_joined {depth : Nat} {ts : List Token} (h : Settled depth ts) :
    (joined depth ts).head? = ts.head? := by
  cases ts with
  | nil => rfl
  | cons t r => rw [joined_cons_of_settled h, List.head?_cons, List.head?_cons]

theorem lineEnd_joined (ts : List Token) : LineEnd (joined 0 ts) ↔ LineEnd ts := by
  rw [LineEnd, head?_joined (settled_zero ts), LineEnd]

theorem closing_joined {depth : Nat} {ts : List Token} (h : Settled depth ts) :
    Closing (joined depth ts) ↔ Closing ts := by
  rw [Closing, head?_joined h, Closing]

section Kinds

variable {t : Token} (depth : Nat) (ts : List Token)

/-- Names and signs other than parentheses leave the depth as it is. -/
theorem joined_cons_level (h : t.kind = .ident ∨ t.kind = .lambda ∨ t.kind = .assign) :
    joined depth (t :: ts) = t :: joined depth ts := by
  rcases h with h | h | h <;> simp [joined, depthAfter, Token.isNewline, h]

theorem joined_cons_lparen (h : t.kind = .lparen) :
    joined depth (t :: ts) = t :: joined (depth + 1) ts := by
  simp [joined, depthAfter, Token.isNewline, h]

theorem joined_cons_rparen (h : t.kind = .rparen) :
    joined (depth + 1) (t :: ts) = t :: joined depth ts := by
  simp [joined, depthAfter, Token.isNewline, h]

theorem joined_zero_cons_newline (h : t.isNewline = true) :
    joined 0 (t :: ts) = t :: joined 0 ts := by
  have hk : t.kind = .newline := of_decide_eq_true h
  simp [joined, depthAfter, hk]

end Kinds

/-! ## What is read is derived -/

/-- What an expression means behind the operands that have been read, if there are any. -/
def behind (acc : Option Expr) (e : Expression) : Expr :=
  match acc with
  | none => e.expr
  | some f => e.onto f

theorem behind_atom (acc : Option Expr) (a : Atom) : behind acc (.atom a) = operand acc a.expr := by
  cases acc with
  | none => rw [behind, Expression.expr, operand]
  | some f => rw [behind, Expression.onto, operand]

theorem behind_lambda (acc : Option Expr) (sign : Leaf .lambda) (param : Leaf .ident)
    (body : Expression) :
    behind acc (.lambda sign param body) = operand acc (.lambda param.val.literal body.expr) := by
  cases acc with
  | none => rw [behind, Expression.expr, operand]
  | some f => rw [behind, Expression.onto, operand]

theorem behind_more (acc : Option Expr) (a : Atom) (e : Expression) :
    behind acc (.more a e) = behind (some (operand acc a.expr)) e := by
  cases acc with
  | none => rw [behind, Expression.expr, operand, behind]
  | some f => rw [behind, Expression.onto, operand, behind]

/-- `Derives depth acc ts e rest`: the joined tokens are those of an expression up to the rest, and
behind the operands that have been read it means `e`. -/
def Derives (depth : Nat) (acc : Option Expr) (ts : List Token) (e : Expr) (rest : List Token) :
    Prop :=
  ∃ tree : Expression, joined depth ts = tree.tokens ++ joined depth rest ∧ behind acc tree = e

/-- An atom in front of what has been read afterwards, which may be nothing. -/
theorem derives_cons {depth : Nat} {acc : Option Expr} {ts ts' rest : List Token} {e : Expr}
    (a : Atom) (ha : joined depth ts = a.tokens ++ joined depth ts')
    (h : some (operand acc a.expr) = some e ∧ rest = ts' ∨
      Derives depth (some (operand acc a.expr)) ts' e rest) : Derives depth acc ts e rest := by
  rcases h with ⟨he, rfl⟩ | ⟨tree, ht, he⟩
  · refine ⟨.atom a, ?_, ?_⟩
    · rw [ha, Expression.tokens]
    · rw [behind_atom]
      exact Option.some.inj he
  · refine ⟨.more a tree, ?_, ?_⟩
    · rw [ha, ht, Expression.tokens, List.append_assoc]
    · rw [behind_more, he]

/-- **What is read is derived.** Either nothing is read behind the operands that there are, or an
expression; what follows cannot go on with it. -/
theorem Reads.sound {inside : Bool} {acc : Option Expr} {ts rest : List Token}
    {o : Except Complaint Expr} (h : Reads inside acc ts o rest) {depth : Nat} {e : Expr}
    (hd : inside = isInside depth) (hs : Settled depth ts) (ho : o = .ok e) :
    Settled depth rest ∧ Closing rest ∧
      (acc = some e ∧ rest = ts ∨ Derives depth acc ts e rest) := by
  induction h generalizing depth e with
  | done f hc =>
      cases ho
      exact ⟨hs, hc, .inl ⟨rfl, rfl⟩⟩
  | noExpression _ => cases ho
  | @name inside acc t r rest o hk _ ih =>
      subst hd
      obtain ⟨hs', hc, hr⟩ := ih rfl (settled_settle depth r) ho
      have ha : joined depth (t :: r) =
          (Atom.name ⟨t, hk⟩).tokens ++ joined depth (settle (isInside depth) r) := by
        rw [joined_cons_level depth r (.inl hk), joined_settle, Atom.tokens]
        rfl
      exact ⟨hs', hc, .inr (derives_cons _ ha (by rwa [Atom.expr]))⟩
  | @lambda inside acc t p r r' rest o hk hp hi _ ih =>
      subst hd
      cases o with
      | error c => cases ho
      | ok body =>
          cases ho
          obtain ⟨hs', hc, hr⟩ := ih rfl (settled_settle depth r') rfl
          obtain ⟨hn, -⟩ | ⟨tree, ht, hb⟩ := hr
          · cases hn
          · refine ⟨hs', hc, .inr ⟨.lambda ⟨t, hk⟩ ⟨p, hi⟩ tree, ?_, ?_⟩⟩
            · rw [joined_cons_level depth r (.inr (.inl hk)), ← joined_settle depth r, hp,
                joined_cons_level depth r' (.inl hi), ← joined_settle depth r', ht, Expression.tokens]
              rfl
            · rw [behind_lambda, ← hb, behind]
  | noParameter _ _ => cases ho
  | @group inside acc t close r rest rest' e' o hk _ hclose _ ih ih' =>
      subst hd
      -- the expression inside is read with one more parenthesis open, and the rest as before
      obtain ⟨-, -, hr⟩ := ih (isInside_succ depth).symm (settled_settle (depth + 1) r) rfl
      obtain ⟨hs', hc, hr'⟩ := ih' rfl (settled_settle depth rest) ho
      obtain ⟨hn, -⟩ | ⟨tree, ht, he'⟩ := hr
      · cases hn
      · have ht' : joined (depth + 1) r = tree.tokens ++ joined (depth + 1) (close :: rest) := by
          rw [← joined_settle (depth + 1) r]
          exact ht
        have ha : joined depth (t :: r) = (Atom.group ⟨t, hk⟩ tree ⟨close, hclose⟩).tokens ++
            joined depth (settle (isInside depth) rest) := by
          rw [joined_cons_lparen depth r hk, ht', joined_cons_rparen depth rest hclose,
            joined_settle, Atom.tokens]
          simp
        have hexpr : (Atom.group ⟨t, hk⟩ tree ⟨close, hclose⟩).expr = e' := by
          rw [Atom.expr, ← he', behind]
        exact ⟨hs', hc, .inr (derives_cons _ ha (by rwa [hexpr]))⟩
  | groupFault _ _ _ => cases ho
  | unclosed _ _ _ _ => cases ho

/-! ## What is derived is read -/

mutual

/-- An atom in front is read, and reading goes on behind it. -/
theorem reads_atom {depth : Nat} (acc : Option Expr) {ts us : List Token}
    (hs : Settled depth ts) : ∀ a : Atom, joined depth ts = a.tokens ++ us →
      ∃ ts', Settled depth ts' ∧ joined depth ts' = us ∧ ∀ o rest,
        Reads (isInside depth) (some (operand acc a.expr)) ts' o rest →
        Reads (isInside depth) acc ts o rest
  | .name x, h => by
      rw [Atom.tokens, List.singleton_append] at h
      obtain ⟨r, rfl, -⟩ := eq_cons_of_joined hs h
      rw [joined_cons_level depth r (.inl x.property)] at h
      injection h with _ h
      refine ⟨settle (isInside depth) r, settled_settle depth r, ?_, fun o rest hr => ?_⟩
      · rw [joined_settle, h]
      · rw [Atom.expr] at hr
        exact .name x.property hr
  | .group opening inner closing, h => by
      rw [Atom.tokens, List.cons_append, List.append_assoc, List.singleton_append] at h
      obtain ⟨r, rfl, -⟩ := eq_cons_of_joined hs h
      rw [joined_cons_lparen depth r opening.property, ← joined_settle (depth + 1) r] at h
      injection h with _ h
      obtain ⟨rest, hsr, hjr, hr⟩ := reads_expression none (settled_settle (depth + 1) r)
        inner h (closing_cons (opens_leaf closing) us)
      -- the expression inside leaves the closing parenthesis, which lowers the depth again
      obtain ⟨rest', rfl, -⟩ := eq_cons_of_joined hsr hjr
      rw [joined_cons_rparen depth rest' closing.property] at hjr
      injection hjr with _ hjr
      refine ⟨settle (isInside depth) rest', settled_settle depth rest', ?_, fun o rest hr' => ?_⟩
      · rw [joined_settle, hjr]
      · rw [Atom.expr] at hr'
        exact .group opening.property hr closing.property hr'

/-- An expression in front of tokens that cannot go on with it is read as what it means. -/
theorem reads_expression {depth : Nat} (acc : Option Expr) {ts us : List Token}
    (hs : Settled depth ts) : ∀ e : Expression, joined depth ts = e.tokens ++ us → Closing us →
      ∃ rest, Settled depth rest ∧ joined depth rest = us ∧
        Reads (isInside depth) acc ts (.ok (behind acc e)) rest
  | .atom a, h, hc => by
      rw [Expression.tokens] at h
      obtain ⟨ts', hs', hj, hr⟩ := reads_atom acc hs a h
      refine ⟨ts', hs', hj, hr _ _ ?_⟩
      rw [behind_atom]
      exact .done _ ((closing_joined hs').1 (hj ▸ hc))
  | .lambda sign param body, h, hc => by
      rw [Expression.tokens, List.cons_append, List.cons_append] at h
      obtain ⟨r, rfl, -⟩ := eq_cons_of_joined hs h
      rw [joined_cons_level depth r (.inr (.inl sign.property)), ← joined_settle depth r] at h
      injection h with _ h
      obtain ⟨r', hr', -⟩ := eq_cons_of_joined (settled_settle depth r) h
      rw [hr', joined_cons_level depth r' (.inl param.property), ← joined_settle depth r'] at h
      injection h with _ h
      obtain ⟨rest, hsr, hjr, hr⟩ := reads_expression none (settled_settle depth r')
        body h hc
      refine ⟨rest, hsr, hjr, ?_⟩
      rw [behind_lambda]
      exact .lambda sign.property hr' param.property hr
  | .more a e, h, hc => by
      rw [Expression.tokens, List.append_assoc] at h
      obtain ⟨ts', hs', hj, hr⟩ := reads_atom acc hs a h
      obtain ⟨rest, hsr, hjr, hr'⟩ := reads_expression (some (operand acc a.expr)) hs' e hj hc
      refine ⟨rest, hsr, hjr, hr _ _ ?_⟩
      rw [behind_more]
      exact hr'

end

/-! ## Statements -/

/-- The tokens begin as a definition does. -/
def StartsDefinition (ts : List Token) : Prop :=
  ∃ x eq r, ts = x :: eq :: r ∧ x.kind = .ident ∧ eq.kind = .assign

theorem statement_define {x eq : Token} (r : List Token) (hx : x.kind = .ident)
    (he : eq.kind = .assign) :
    (statement (x :: eq :: r)).toExcept =
        (expr false none r).toExcept.map (Statement.define x.literal) ∧
      (statement (x :: eq :: r)).rest = (expr false none r).rest := by
  rw [statement, if_pos ⟨hx, he⟩]
  simp

theorem statement_bare {ts : List Token} (h : ¬ StartsDefinition ts) :
    (statement ts).toExcept = (expr false none ts).toExcept.map Statement.bare ∧
      (statement ts).rest = (expr false none ts).rest := by
  match ts with
  | [] | [_] => simp [statement]
  | x :: eq :: r =>
      have hn : ¬ (x.kind = .ident ∧ eq.kind = .assign) := fun hk => h ⟨x, eq, r, rfl, hk⟩
      rw [statement, if_neg hn]
      simp

theorem ok_of_map_eq_ok {α β ε : Type} {f : α → β} {o : Except ε α} {b : β}
    (h : o.map f = .ok b) : ∃ a, o = .ok a ∧ f a = b := by
  cases o with
  | error c => cases h
  | ok a => exact ⟨a, rfl, Except.ok.inj h⟩

/-- The expression that the reader returns outside parentheses is derived. -/
theorem derives_of_expr {ts : List Token} {e : Expr}
    (h : (expr false none ts).toExcept = .ok e) : Derives 0 none ts e (expr false none ts).rest := by
  obtain ⟨-, -, ⟨hn, -⟩ | hd⟩ := (reads_expr false none ts).sound rfl (settled_zero ts) h
  · cases hn
  · exact hd

theorem statement_sound {ts : List Token} {s : Statement} (h : (statement ts).toExcept = .ok s) :
    ∃ tree : Sentence, joined 0 ts = tree.tokens ++ joined 0 (statement ts).rest ∧
      tree.statement = s := by
  by_cases hd : StartsDefinition ts
  · obtain ⟨x, eq, r, rfl, hx, he⟩ := hd
    obtain ⟨ho, hrest⟩ := statement_define r hx he
    rw [ho] at h
    obtain ⟨e, hread, rfl⟩ := ok_of_map_eq_ok h
    obtain ⟨tree, ht, htree⟩ := derives_of_expr hread
    refine ⟨.define ⟨x, hx⟩ ⟨eq, he⟩ tree, ?_, ?_⟩
    · rw [hrest, joined_cons_level 0 _ (.inl hx), joined_cons_level 0 _ (.inr (.inr he)), ht]
      rfl
    · rw [Sentence.statement, ← htree, behind]
  · obtain ⟨ho, hrest⟩ := statement_bare hd
    rw [ho] at h
    obtain ⟨e, hread, rfl⟩ := ok_of_map_eq_ok h
    obtain ⟨tree, ht, htree⟩ := derives_of_expr hread
    refine ⟨.bare tree, ?_, ?_⟩
    · rw [hrest, ht, Sentence.tokens]
    · rw [Sentence.statement, ← htree, behind]

/-- The reader returns the expression that is derived outside parentheses. -/
theorem expr_of_derivation {ts us : List Token} (e : Expression)
    (h : joined 0 ts = e.tokens ++ us) (hc : Closing us) :
    (expr false none ts).toExcept = .ok e.expr ∧ joined 0 (expr false none ts).rest = us := by
  obtain ⟨rest, -, hj, hr⟩ := reads_expression none (settled_zero ts) e h hc
  obtain ⟨ho, hrest⟩ : (expr false none ts).toExcept = .ok e.expr ∧
      (expr false none ts).rest = rest := hr.expr_eq
  exact ⟨ho, by rw [hrest, hj]⟩

theorem statement_complete {ts us : List Token} (tree : Sentence)
    (h : joined 0 ts = tree.tokens ++ us) (hus : LineEnd us) :
    (statement ts).toExcept = .ok tree.statement ∧ joined 0 (statement ts).rest = us := by
  cases tree with
  | define target sign body =>
      obtain ⟨r, rfl, hr⟩ := eq_cons_of_joined (settled_zero ts) h
      rw [joined_cons_level 0 r (.inl target.property)] at h
      injection h with _ h
      obtain ⟨r', rfl, -⟩ := eq_cons_of_joined (settled_zero r) h
      rw [joined_cons_level 0 r' (.inr (.inr sign.property))] at h
      injection h with _ h
      obtain ⟨ho, hrest⟩ := statement_define r' target.property sign.property
      obtain ⟨he, hj⟩ := expr_of_derivation body h hus.closing
      rw [ho, he, hrest]
      exact ⟨rfl, hj⟩
  | bare body =>
      -- behind a name, the sign of a definition would end the expression but not its line
      have hd : ¬ StartsDefinition ts := by
        rintro ⟨x, eq, r, rfl, hx, he⟩
        rw [joined_cons_level 0 _ (.inl hx), joined_cons_level 0 _ (.inr (.inr he))] at h
        exact Expression.append_ne_define hus ⟨x, hx⟩ ⟨eq, he⟩ h
      obtain ⟨ho, hrest⟩ := statement_bare hd
      obtain ⟨he, hj⟩ := expr_of_derivation body h hus.closing
      rw [ho, he, hrest]
      exact ⟨rfl, hj⟩

/-! ## Attempts -/

section Attempts

variable (stop : Position)

/-- An attempt succeeds if a statement was read and its line ends there. -/
theorem attempt_eq_ok_iff {ts : List Token} {r : Result Statement ts} {s : Statement} :
    attempt stop r = .ok s ↔ r.toExcept = .ok s ∧ LineEnd r.rest := by
  match r with
  | .error c rest hs => simp [attempt, Result.toExcept]
  | .ok s' [] hs => simp [attempt, Result.toExcept, Result.rest, LineEnd]
  | .ok s' (t :: rest) hs =>
      cases ht : t.isNewline <;> simp [attempt, Result.toExcept, Result.rest, LineEnd, ht]

theorem nextLine_of_lineEnd {ts : List Token} (h : LineEnd ts) : nextLine ts = ts := by
  cases ts with
  | nil => rfl
  | cons t r =>
      have ht : t.isNewline = true := h t rfl
      simp [nextLine, ht]

theorem attempts_newline {t : Token} (r : List Token) (h : t.isNewline = true) :
    attempts stop (t :: r) = attempts stop r := by
  rw [attempts, dif_pos h]

theorem attempts_statement {t : Token} (r : List Token) (h : t.isNewline = false) :
    attempts stop (t :: r) = attempt stop (statement (t :: r)) ::
      attempts stop (nextLine (statement (t :: r)).rest) := by
  rw [attempts, dif_neg (by simp [h])]

theorem attempts_blanks {us : List Token} (ls : List (Leaf .newline)) {ts : List Token}
    (h : joined 0 ts = blanks ls ++ us) :
    ∃ ts', joined 0 ts' = us ∧ attempts stop ts = attempts stop ts' := by
  induction ls generalizing ts with
  | nil => exact ⟨ts, h, rfl⟩
  | cons l ls ih =>
      obtain ⟨r, rfl, -⟩ := eq_cons_of_joined (settled_zero ts) h
      have hl : l.val.isNewline = true := by simp [Token.isNewline, l.property]
      rw [joined_zero_cons_newline r hl] at h
      injection h with _ h
      rw [attempts_newline stop r hl]
      exact ih h

theorem attempts_sentence {ts us : List Token} (tree : Sentence)
    (h : joined 0 ts = tree.tokens ++ us) (hus : LineEnd us) :
    ∃ ts', joined 0 ts' = us ∧ attempts stop ts = .ok tree.statement :: attempts stop ts' := by
  obtain ⟨ho, hj⟩ := statement_complete tree h hus
  have hend : LineEnd (statement ts).rest := (lineEnd_joined _).1 (hj ▸ hus)
  obtain ⟨t, vs, htree, ht⟩ := tree.tokens_eq_cons
  rw [htree, List.cons_append] at h
  obtain ⟨r, rfl, -⟩ := eq_cons_of_joined (settled_zero ts) h
  refine ⟨_, hj, ?_⟩
  rw [attempts_statement stop r ht, (attempt_eq_ok_iff stop).2 ⟨ho, hend⟩, nextLine_of_lineEnd hend]

theorem attempts_rest {trail : List (Leaf .newline)} (cs : List Continuation) {ts : List Token}
    (h : joined 0 ts = cs.flatMap Continuation.tokens ++ blanks trail) :
    attempts stop ts = cs.map fun c => .ok c.sentence.statement := by
  induction cs generalizing ts with
  | nil =>
      rw [List.flatMap_nil, List.nil_append, ← List.append_nil (blanks trail)] at h
      obtain ⟨ts', hj, ha⟩ := attempts_blanks stop trail h
      cases ts' with
      | nil => rw [ha, attempts, List.map_nil]
      | cons t r =>
          rw [joined_cons_of_settled (settled_zero _)] at hj
          cases hj
  | cons c cs ih =>
      rw [rest_tokens_cons] at h
      obtain ⟨ts₁, h₁, ha₁⟩ := attempts_blanks stop _ h
      obtain ⟨ts₂, h₂, ha₂⟩ := attempts_sentence stop c.sentence h₁ (lineEnd_rest cs trail)
      rw [ha₁, ha₂, ih h₂, List.map_cons]

/-- **What is derived is read**, statement by statement. -/
theorem attempts_complete {ts : List Token} {m : Grammar.Module} (h : m.tokens = joined 0 ts) :
    attempts stop ts = m.statements.map .ok := by
  obtain ⟨ts₁, h₁, ha₁⟩ := attempts_blanks stop m.lead h.symm
  obtain ⟨ts₂, h₂, ha₂⟩ := attempts_sentence stop m.first h₁ (lineEnd_rest m.rest m.trail)
  rw [ha₁, ha₂, attempts_rest stop m.rest h₂, Grammar.Module.statements, List.map_cons, List.map_map]
  rfl

/-- A statement in front of a module that starts at the end of its line. -/
theorem exists_module_cons {us : List Token} (s : Sentence) {m : Grammar.Module}
    (hm : m.tokens = us) (hus : LineEnd us) :
    ∃ m' : Grammar.Module, m'.tokens = s.tokens ++ us ∧
      m'.statements = s.statement :: m.statements := by
  obtain ⟨lead, first, rest, trail⟩ := m
  cases lead with
  | nil =>
      -- without an empty line in front the module would start on the line of the statement
      obtain ⟨t, ts, hf, ht⟩ := first.tokens_eq_cons
      have hn : t.isNewline = true := hus t (by simp [← hm, Module.tokens, blanks, hf])
      rw [ht] at hn
      cases hn
  | cons l lead =>
      refine ⟨⟨[], s, ⟨l, lead, first⟩ :: rest, trail⟩, ?_, rfl⟩
      simp [← hm, Module.tokens, blanks, Continuation.tokens]

/-- **What is read is derived**, unless there are empty lines only. -/
theorem attempts_sound {ts : List Token} {ss : List Statement}
    (h : attempts stop ts = ss.map .ok) :
    (ss = [] ∧ ∃ ls, joined 0 ts = blanks ls) ∨
      ∃ m : Grammar.Module, m.tokens = joined 0 ts ∧ m.statements = ss := by
  fun_induction attempts stop ts generalizing ss with
  | case1 => exact .inl ⟨List.map_eq_nil_iff.1 h.symm, [], rfl⟩
  | case2 t r ht ih =>
      have hk : t.kind = .newline := of_decide_eq_true ht
      rw [joined_zero_cons_newline r ht]
      rcases ih h with ⟨hss, ls, hls⟩ | ⟨m, hm, hss⟩
      · exact .inl ⟨hss, ⟨t, hk⟩ :: ls, by rw [hls]; rfl⟩
      · exact .inr ⟨{ m with lead := ⟨t, hk⟩ :: m.lead }, by rw [← hm]; rfl, hss⟩
  | case3 t r ht read =>
      rename_i ih
      obtain ⟨s, ss', rfl, hs, hss'⟩ := List.map_eq_cons_iff.1 h.symm
      obtain ⟨ho, hend⟩ := (attempt_eq_ok_iff stop).1 hs.symm
      obtain ⟨tree, htree, rfl⟩ := statement_sound ho
      -- the statement ends its line, so that going on at the next line skips nothing
      rw [nextLine_of_lineEnd hend] at ih hss'
      refine .inr ?_
      rcases ih hss'.symm with ⟨rfl, ls, hls⟩ | ⟨m, hm, rfl⟩
      · refine ⟨⟨[], tree, [], ls⟩, ?_, rfl⟩
        rw [htree, hls]
        rfl
      · rw [htree]
        exact exists_module_cons tree hm ((lineEnd_joined _).2 hend)

end Attempts

/-! ## Modules -/

theorem reading_map_ok (stop : Position) {ss : List Statement} (h : ss ≠ []) :
    reading stop (ss.map .ok) = ⟨ss, []⟩ := by
  have hs : (ss.map Except.ok).filterMap Attempt.statement? = ss := by
    rw [List.filterMap_map]
    exact List.filterMap_some
  have hf : (ss.map Except.ok).filterMap Attempt.fault? = [] := by
    simp [Attempt.fault?]
  rw [reading, if_neg (by simpa using h), hs, hf]

theorem eq_map_ok_of_no_fault {as : List Attempt} (h : as.filterMap Attempt.fault? = []) :
    ∃ ss : List Statement, as = ss.map .ok := by
  induction as with
  | nil => exact ⟨[], rfl⟩
  | cons a as ih =>
      cases a with
      | error f => simp [Attempt.fault?] at h
      | ok s =>
          obtain ⟨ss, rfl⟩ := ih (by simpa [Attempt.fault?] using h)
          exact ⟨s :: ss, rfl⟩

/-- Where nothing is wrong there are attempts, and all of them succeed. -/
theorem exists_statements_of_no_fault {stop : Position} {as : List Attempt}
    (h : (reading stop as).faults = []) : ∃ ss, ss ≠ [] ∧ as = ss.map .ok := by
  rw [reading] at h
  split at h
  · cases h
  · next hne =>
    obtain ⟨ss, rfl⟩ := eq_map_ok_of_no_fault h
    exact ⟨ss, by simpa using hne, rfl⟩

/-- What a derivation of the joined lines means is what the reader returns. -/
theorem readTokens_of_derivation {l : Lexed} {m : Grammar.Module}
    (h : m.tokens = joined 0 l.tokens) : readTokens l = ⟨m.statements, []⟩ := by
  rw [readTokens, attempts_complete l.stop h]
  exact reading_map_ok l.stop (List.cons_ne_nil _ _)

theorem exists_derivation_of_no_fault {l : Lexed} (h : (readTokens l).faults = []) :
    ∃ m : Grammar.Module, m.tokens = joined 0 l.tokens := by
  obtain ⟨ss, hne, has⟩ := exists_statements_of_no_fault h
  rcases attempts_sound l.stop has with ⟨hnil, -⟩ | ⟨m, hm, -⟩
  · exact (hne hnil).elim
  · exact ⟨m, hm⟩

/-- **The reader accepts exactly the grammar and builds its tree.** Once the ends of lines inside
parentheses are taken away, tokens are read without a fault if and only if they form a module. They
do so in one way, and the statements of that module are what the reader returns. -/
theorem readTokens_exact (l : Lexed) :
    ((readTokens l).faults = [] ↔ ∃ m : Grammar.Module, m.tokens = joined 0 l.tokens) ∧
      ∀ m : Grammar.Module, m.tokens = joined 0 l.tokens →
        (∀ m' : Grammar.Module, m'.tokens = joined 0 l.tokens → m' = m) ∧
          (readTokens l).statements = m.statements := by
  refine ⟨⟨exists_derivation_of_no_fault, ?_⟩, ?_⟩
  · rintro ⟨m, hm⟩
    rw [readTokens_of_derivation hm]
  · intro m hm
    refine ⟨fun m' hm' => Module.tokens_injective (hm'.trans hm.symm), ?_⟩
    rw [readTokens_of_derivation hm]

/-- The line that ends inside the parentheses of `(f⏎) x⏎⏎g = f` ends no statement. -/
theorem readTokens_exact_broken_line :
    let f : Leaf .ident := ⟨⟨.ident, "f", ⟨1, 2⟩⟩, rfl⟩
    let x : Leaf .ident := ⟨⟨.ident, "x", ⟨2, 3⟩⟩, rfl⟩
    let g : Leaf .ident := ⟨⟨.ident, "g", ⟨4, 1⟩⟩, rfl⟩
    let opening : Leaf .lparen := ⟨⟨.lparen, "(", ⟨1, 1⟩⟩, rfl⟩
    let closing : Leaf .rparen := ⟨⟨.rparen, ")", ⟨2, 1⟩⟩, rfl⟩
    let sign : Leaf .assign := ⟨⟨.assign, "=", ⟨4, 3⟩⟩, rfl⟩
    let line : Leaf .newline := ⟨⟨.newline, "\n", ⟨1, 3⟩⟩, rfl⟩
    let l : Lexed := ⟨[opening, f, line, closing, x, line, line, g, sign, f], ⟨4, 6⟩, []⟩
    let m : Grammar.Module := ⟨[], .bare (.more (.group opening (.atom (.name f)) closing)
      (.atom (.name x))), [⟨line, [line], .define g sign (.atom (.name f))⟩], []⟩
    m.tokens = joined 0 l.tokens ∧ (readTokens l).faults = [] ∧
      (readTokens l).statements =
        [.bare (.apply (.name "f") (.name "x")), .define "g" (.name "f")] := by
  intro f x g opening closing sign line l m
  have hm : m.tokens = joined 0 l.tokens := by decide
  exact ⟨hm, (readTokens_exact l).1.2 ⟨m, hm⟩, ((readTokens_exact l).2 m hm).2⟩

end LazyLambda.Parser
