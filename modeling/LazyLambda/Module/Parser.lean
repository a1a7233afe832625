/-
# LazyLambda.Module.Parser — modules read from tokens.

    module     = newlines, statement, { newline, newlines, statement }, newlines
    statement  = name "=" expr | expr
    expr       = { atom } ( atom | lambda )
    atom       = name | "(" expr ")"
    lambda     = ( "\" | "λ" ) name expr

Application associates to the left, and the body of a function reaches as far right as it can. Inside
parentheses the ends of lines mean nothing.

A statement that cannot be read is reported and dropped, together with everything up to the next end
of line, and reading goes on after it. So a module is read as a list of *attempts*, each of them a
statement or one fault.

Every reader returns the tokens that it leaves, with the proof that they are a final part of those it
was given. This is what the readers end by.
-/
import LazyLambda.Module.Basic
import LazyLambda.Module.Fault
import LazyLambda.Token.Lexed

namespace LazyLambda.Parser

/-! ## Expressions -/

/-- What reading a thing off the front of `ts` gives: the thing, or a complaint about the first of
the tokens that are left. -/
inductive Result (α : Type) (ts : List Token) where
  | ok (value : α) (rest : List Token) (suffix : rest <:+ ts)
  | error (complaint : Complaint) (rest : List Token) (suffix : rest <:+ ts)

namespace Result

variable {α β : Type} {ts us : List Token}

/-- The same result, for tokens of which the given ones are a final part. -/
def widen (r : Result α ts) (h : ts <:+ us) : Result α us :=
  match r with
  | .ok a rest hs => .ok a rest (hs.trans h)
  | .error c rest hs => .error c rest (hs.trans h)

/-- The same result, with something done to the thing that was read. -/
def map (f : α → β) (r : Result α ts) : Result β ts :=
  match r with
  | .ok a rest hs => .ok (f a) rest hs
  | .error c rest hs => .error c rest hs

/-- The tokens that are left. -/
def rest : Result α ts → List Token
  | .ok _ rest _ => rest
  | .error _ rest _ => rest

theorem rest_suffix (r : Result α ts) : r.rest <:+ ts := by
  cases r <;> assumption

end Result

/-- The tokens that come next: inside parentheses the ends of lines are passed over. -/
def settle (inside : Bool) (ts : List Token) : List Token :=
  if inside then ts.dropWhile Token.isNewline else ts

theorem settle_suffix (inside : Bool) (ts : List Token) : settle inside ts <:+ ts := by
  unfold settle
  split
  · exact List.dropWhile_suffix _
  · exact List.suffix_refl _

theorem length_settle_le (inside : Bool) (ts : List Token) :
    (settle inside ts).length ≤ ts.length :=
  (settle_suffix inside ts).length_le

/-- One more operand: the first stands alone, each later one is the argument of those before it. -/
def operand : Option Expr → Expr → Expr
  | none, e => e
  | some f, e => .apply f e

/-- What has been read when no further operand follows. -/
def finish (acc : Option Expr) (ts : List Token) : Result Expr ts :=
  match acc with
  | none => .error .noExpression ts (List.suffix_refl _)
  | some e => .ok e ts (List.suffix_refl _)

/-- Reads operands as long as there are any. `acc` is what those before them make, and `inside` says
whether a parenthesis is open. -/
def expr (inside : Bool) (acc : Option Expr) (ts : List Token) : Result Expr ts :=
  match ts with
  | [] => finish acc []
  | t :: r =>
    match t.kind with
    | .ident =>
      (expr inside (some (operand acc (.name t.literal))) (settle inside r)).widen
        ((settle_suffix inside r).trans (List.suffix_cons t r))
    | .lambda =>
      match hp : settle inside r with
      | [] => .error .noParameter [] (List.nil_suffix)
      | p :: r' =>
        have hr : p :: r' <:+ t :: r :=
          hp ▸ (settle_suffix inside r).trans (List.suffix_cons t r)
        if p.kind = .ident then
          ((expr inside none (settle inside r')).map fun body =>
            operand acc (.lambda p.literal body)).widen
            (((settle_suffix inside r').trans (List.suffix_cons p r')).trans hr)
        else .error .noParameter (p :: r') hr
    | .lparen =>
      have hr : settle true r <:+ t :: r := (settle_suffix true r).trans (List.suffix_cons t r)
      match expr true none (settle true r) with
      | .error c rest hs => .error c rest (hs.trans hr)
      | .ok _ [] _ => .error (.unclosed t.pos) [] (List.nil_suffix)
      | .ok e (close :: rest) hs =>
        if close.kind = .rparen then
          (expr inside (some (operand acc e)) (settle inside rest)).widen
            (((settle_suffix inside rest).trans (List.suffix_cons close rest)).trans (hs.trans hr))
        else .error (.unclosed t.pos) (close :: rest) (hs.trans hr)
    | _ => finish acc (t :: r)
termination_by ts.length
decreasing_by
  · have := length_settle_le inside r
    simp only [List.length_cons]; omega
  · have h1 := length_settle_le inside r
    have h2 := length_settle_le inside r'
    rw [hp] at h1
    simp only [List.length_cons] at h1 ⊢; omega
  · have := length_settle_le true r
    simp only [List.length_cons]; omega
  · have h1 := length_settle_le true r
    have h2 := length_settle_le inside rest
    have h3 := hs.length_le
    simp only [List.length_cons] at h3 ⊢; omega

/-! ## Statements -/

/-- Reads a statement up to where its expression ends. -/
def statement (ts : List Token) : Result Statement ts :=
  match ts with
  | x :: eq :: r =>
    if x.kind = .ident ∧ eq.kind = .assign then
      ((expr false none r).map (Statement.define x.literal)).widen
        ((List.suffix_cons eq r).trans (List.suffix_cons x (eq :: r)))
    else (expr false none (x :: eq :: r)).map .bare
  | ts => (expr false none ts).map .bare

/-- An attempt at a statement: the statement, or what is wrong with it. -/
abbrev Attempt := Except Fault Statement

/-- A complaint about the first of some tokens, or about the end of the input. -/
def fault (stop : Position) (c : Complaint) (ts : List Token) : Fault :=
  ⟨c, ts.headD (.eof stop)⟩

/-- What an attempt comes to, once its expression has been read: the statement has to end there. -/
def attempt (stop : Position) {ts : List Token} (r : Result Statement ts) : Attempt :=
  match r with
  | .error c rest _ => .error (fault stop c rest)
  | .ok s [] _ => .ok s
  | .ok s (t :: rest) _ =>
    if t.isNewline then .ok s else .error (fault stop .leftover (t :: rest))

/-- What is left of some tokens from the end of the line on. -/
def nextLine (ts : List Token) : List Token := ts.dropWhile fun t => !t.isNewline

/-- Going on after the line makes progress whatever the attempt has read. -/
theorem length_nextLine_lt {rest r : List Token} {t : Token} (h : rest <:+ t :: r)
    (ht : t.isNewline = false) : (nextLine rest).length < (t :: r).length := by
  have hle : (nextLine rest).length ≤ rest.length := (List.dropWhile_suffix _).length_le
  rcases List.suffix_cons_iff.1 h with rfl | h
  · have : (nextLine (t :: r)).length ≤ r.length := by
      simp only [nextLine, List.dropWhile_cons, ht, Bool.not_false, if_true]
      exact (List.dropWhile_suffix _).length_le
    simp only [List.length_cons]; omega
  · have := h.length_le
    simp only [List.length_cons]; omega

/-- All attempts at statements, in order. -/
def attempts (stop : Position) (ts : List Token) : List Attempt :=
  match ts with
  | [] => []
  | t :: r =>
    if ht : t.isNewline then attempts stop r
    else
      let read := statement (t :: r)
      attempt stop read :: attempts stop (nextLine read.rest)
termination_by ts.length
decreasing_by
  · simp
  · exact length_nextLine_lt read.rest_suffix (by simpa using ht)

/-! ## Modules -/

/-- What reading a text comes to: the statements that could be read, and what is wrong. -/
structure Reading where
  statements : List Statement
  faults : List Fault
  deriving DecidableEq

/-- The statement of an attempt that has one. -/
def Attempt.statement? : Attempt → Option Statement
  | .ok s => some s
  | .error _ => none

/-- The fault of an attempt that has one. -/
def Attempt.fault? : Attempt → Option Fault
  | .ok _ => none
  | .error f => some f

/-- What some attempts come to. A text without any attempt is at fault as a whole. -/
def reading (stop : Position) (as : List Attempt) : Reading :=
  if as.isEmpty then ⟨[], [fault stop .emptyModule []]⟩
  else ⟨as.filterMap Attempt.statement?, as.filterMap Attempt.fault?⟩

/-- Reads a text that has been split into tokens. -/
def readTokens (l : Lexed) : Reading := reading l.stop (attempts l.stop l.tokens)

/-- Reads a text. -/
def read (t : Text) : Reading := readTokens (.ofText t)

/-- The module of the given name that a text holds, or everything that is wrong with the text. -/
def parse (name : String) (t : Text) : Except (List Fault) Module :=
  let r := read t
  if r.faults.isEmpty then .ok ⟨name, r.statements⟩ else .error r.faults

end LazyLambda.Parser
