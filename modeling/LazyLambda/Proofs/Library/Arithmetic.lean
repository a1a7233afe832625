/-
# LazyLambda.Proofs.Library.Arithmetic — sessions that have loaded the prelude compute with numbers.

An expression that calls functions of the prelude on numerals resolves to a term that applies their values
to represented numbers. `Prelude.Decides e b` says what comes of it: the expression evaluates to the value
of `true` or of `false`, however much fuel there is beyond what is needed.
-/
import LazyLambda.Proofs.Library.Numerals
import LazyLambda.Proofs.Session.FreeNames

namespace LazyLambda

namespace Expr

/-- A name applied to arguments, one after the other. -/
def call (f : String) (args : List Expr) : Expr := args.foldl .apply (.name f)

/-- A call with an argument is no name. -/
theorem call_ne_name (f : String) (a : Expr) (args : List Expr) (x : String) :
    call f (a :: args) ≠ .name x := by
  have happly (g b : Expr) : args.foldl Expr.apply (.apply g b) ≠ .name x := by
    induction args generalizing g b with
    | nil => exact Expr.noConfusion
    | cons c args ih => exact ih (.apply g b) c
  exact happly (.name f) a

/-- The body of a numeral. -/
def iterated : Nat → Expr
  | 0 => .name "x"
  | n + 1 => .apply (.name "f") (iterated n)

/-- The numeral of a number: `f`, so many times, on `x`. -/
def numeral (n : Nat) : Expr := .lambda "f" (.lambda "x" (iterated n))

end Expr

namespace Prelude

open Term

variable {e : Expr} {b : Bool} {n : Nat}

/-- `Decides e b`: in a session without a limit that has loaded the prelude and nothing else, the expression
evaluates to what `true` or `false` is bound to. -/
def Decides (e : Expr) (b : Bool) : Prop :=
  ∃ fuel, ∀ more, fuel ≤ more →
    let loaded := Library.load (Session.new ⟨none, more⟩) Library.prelude
    loaded.result = .ok () ∧
      loaded.session.scope.get? (if b then "true" else "false") = some (truth b) ∧
      (loaded.session.exec (.bare e)).result = .ok (truth b)

/-! ## Resolution -/

/-- The term of an expression in the scope of the prelude. -/
def resolved (e : Expr) : Term := (ofExpr e).resolve scope.get?

theorem resolved_foldl_apply (f : Expr) (args : List Expr) :
    resolved (args.foldl .apply f) = (resolved f).applied (args.map resolved) := by
  induction args generalizing f with
  | nil => rfl
  | cons a args ih => exact ih (.apply f a)

theorem resolved_call {f : String} {t : Term} (hf : scope.get? f = some t) (args : List Expr) :
    resolved (.call f args) = (global f t).applied (args.map resolved) := by
  have hname : resolved (.name f) = global f t := by
    rw [resolved, ofExpr, resolve, hf]
    rfl
  rw [Expr.call, resolved_foldl_apply, hname]

theorem resolved_iterated (n : Nat) : resolved (.iterated n) = iterated n := by
  induction n with
  | zero => rfl
  | succ n ih => exact congrArg (app (free "f")) ih

theorem represents_resolved_numeral (n : Nat) : Represents n (resolved (.numeral n)) := by
  have hnumeral : resolved (.numeral n) = numeral n :=
    congrArg (fun body => lam "f" (lam "x" body)) (resolved_iterated n)
  rw [hnumeral]
  exact represents_numeral n

/-! ## Decisions -/

/-- An expression whose term agrees with a truth value is decided. -/
theorem decides_of_agrees (he : ∀ x, e ≠ .name x) (h : (resolved e).Agrees (truth b)) :
    Decides e b := by
  obtain ⟨k, hk⟩ := (h "a" _).2 (comesTo_lam "a" (function ["b"] (free (if b then "a" else "b"))))
  refine ⟨k, fun more hmore => ?_⟩
  obtain ⟨hload, hsession⟩ := Library.load_prelude ⟨none, more⟩
  have hfits : (Outcome.value "a" (function ["b"] (free (if b then "a" else "b")))).Fits k
      (Allowance.steps ⟨none, more⟩) := ⟨hmore, by simp⟩
  have hreport : ((resolved e).evaluate ⟨none, more⟩).result = .ok (truth b) :=
    congrArg Report.result (hk.report_eq hfits)
  refine ⟨hload, ?_, ?_⟩
  · rw [hsession]
    cases b <;> rfl
  · rw [hsession, Session.exec_bare_result he]
    exact congrArg (Except.mapError RunError.evaluation) hreport

theorem decides_call {f : String} {t : Term} (hf : scope.get? f = some t) {a : Expr}
    {args : List Expr} (h : ((global f t).applied ((a :: args).map resolved)).Agrees (truth b)) :
    Decides (.call f (a :: args)) b := by
  refine decides_of_agrees (Expr.call_ne_name f a args) ?_
  rwa [resolved_call hf]

/-- A call that represents a number is compared with numerals. -/
theorem decides_eq_call {f : String} {t : Term} (hf : scope.get? f = some t) {args : List Expr}
    (h : Represents n ((global f t).applied (args.map resolved))) (p : Nat) :
    Decides (.call "eq" [.call f args, .numeral p]) (n = p) := by
  rw [← resolved_call hf] at h
  exact decides_call rfl (agrees_eq h (represents_resolved_numeral p))

/-- **The arithmetic of the prelude is right for all numbers.** What it says about zero and about order, and
how the results of its operations compare with numerals. Predecessors and differences stop at zero. -/
theorem decides_arithmetic (m n p : Nat) :
    Decides (.call "is_zero" [.numeral n]) (n = 0) ∧
    Decides (.call "lte" [.numeral m, .numeral n]) (m ≤ n) ∧
    Decides (.call "gte" [.numeral m, .numeral n]) (m ≥ n) ∧
    Decides (.call "eq" [.numeral m, .numeral n]) (m = n) ∧
    Decides (.call "eq" [.call "succ" [.numeral n], .numeral p]) (n + 1 = p) ∧
    Decides (.call "eq" [.call "add" [.numeral m, .numeral n], .numeral p]) (m + n = p) ∧
    Decides (.call "eq" [.call "mul" [.numeral m, .numeral n], .numeral p]) (m * n = p) ∧
    Decides (.call "eq" [.call "pow" [.numeral m, .numeral n], .numeral p]) (Nat.pow m n = p) ∧
    Decides (.call "eq" [.call "dec" [.numeral n], .numeral p]) (n - 1 = p) ∧
    Decides (.call "eq" [.call "sub" [.numeral m, .numeral n], .numeral p]) (m - n = p) := by
  have hm := represents_resolved_numeral m
  have hn := represents_resolved_numeral n
  refine ⟨?_, ?_, ?_, ?_, ?_, ?_, ?_, ?_, ?_, ?_⟩
  · exact decides_call rfl (agrees_isZero hn)
  · exact decides_call rfl (agrees_lte hm hn)
  · exact decides_call rfl (agrees_gte hm hn)
  · exact decides_call rfl (agrees_eq hm hn)
  · exact decides_eq_call rfl (represents_succ hn) p
  · exact decides_eq_call rfl (represents_add hm hn) p
  · exact decides_eq_call rfl (represents_mul hm hn) p
  · exact decides_eq_call rfl (represents_pow hm hn) p
  · exact decides_eq_call rfl (represents_dec hn) p
  · exact decides_eq_call rfl (represents_sub hm hn) p

end Prelude

end LazyLambda
