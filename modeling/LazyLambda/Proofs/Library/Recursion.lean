/-
# LazyLambda.Proofs.Library.Recursion — factorials and Fibonacci numbers of the prelude.

The fixed-point combinator applies one half of itself to the other. `Prelude.Recurs step t` says that a term
comes to two such halves, made for a step, that are applied to each other. Such a term agrees with the step
applied to another such term (`Prelude.Recurs.unfold`), and this goes on for as long as the step asks for
more.

The steps of the prelude ask for more only in the branch that is taken. So the recursion ends by induction on
the number that is represented, whatever term represents it: one level further down that is a predecessor which
nobody has evaluated.
-/
import Mathlib.Data.Nat.Factorial.Basic
import Mathlib.Data.Nat.Fib.Basic
import LazyLambda.Proofs.Library.Arithmetic

namespace LazyLambda.Prelude

open Term

variable {step t u N : Term} {n : Nat}

/-! ## The fixed-point combinator -/

/-- One half of the fixed-point combinator, made for a step. -/
def half (step : Term) : Term := function ["x"] (app (passed "f" step) (app (free "x") (free "x")))

/-- `Recurs step t`: the term comes to a half that is applied to a half. -/
def Recurs (step t : Term) : Prop :=
  ∃ f a, f.Agrees (half step) ∧ a.Agrees (half step) ∧ t.Agrees (app f a)

theorem Recurs.of_agrees (hu : Recurs step u) (h : t.Agrees u) : Recurs step t := by
  obtain ⟨f, a, hf, ha, hu⟩ := hu
  exact ⟨f, a, hf, ha, h.trans hu⟩

theorem recurs_fixedPoint (step : Term) : Recurs step (app (global "Y" fixedPoint) step) :=
  ⟨half step, half step, .refl _, .refl _, agrees_applied (agrees_global "Y" fixedPoint) [step] rfl⟩

/-- **The fixed-point combinator unfolds to one application of the step.** -/
theorem Recurs.unfold (ht : Recurs step t) : ∃ u, Recurs step u ∧ t.Agrees (app step u) := by
  obtain ⟨f, a, hf, ha, ht⟩ := ht
  -- the argument has been passed on as it is, so both halves are now what `a` agrees with
  let u := app (passed "x" a) (passed "x" a)
  have ha' : (passed "x" a).Agrees (half step) := (agrees_passed "x" a).trans ha
  have hbeta : (f.applied [a]).Agrees (app (passed "f" step) u) := agrees_applied hf [a] rfl
  exact ⟨u, ⟨_, _, ha', ha', .refl u⟩, ht.trans (hbeta.trans ((agrees_passed "f" step).app u))⟩

/-- What is recursive and has been given its argument makes one step, with the recursion to go on with in the
place of the parameter `f`. -/
theorem Recurs.agrees_body {body : Term} (ht : Recurs (function ["f", "n"] body) t) (N : Term) :
    ∃ u, Recurs (function ["f", "n"] body) u ∧ (app t N).Agrees (body.bind [("n", N), ("f", u)]) := by
  obtain ⟨u, hu, hunfold⟩ := ht.unfold
  exact ⟨u, hu, (hunfold.app N).trans (agrees_applied (.refl _) [u, N] rfl)⟩

/-! ## Factorials -/

theorem represents_one : Represents 1 one := (represents_numeral 1).of_agrees (agrees_global "one" _)

theorem represents_two : Represents 2 two := (represents_numeral 2).of_agrees (agrees_global "two" _)

/-- One step of the factorial. -/
theorem Recurs.agrees_fac (ht : Recurs facStep t) (hN : Represents n N) :
    ∃ u, Recurs facStep u ∧ (app t N).Agrees (if n = 0 then one else
      (global "mul" mul).applied [passed "n" N, app u ((global "dec" dec).applied [passed "n" N])]) := by
  obtain ⟨u, hu, hbody⟩ := ht.agrees_body N
  refine ⟨passed "f" u, hu.of_agrees (agrees_passed "f" u), ?_⟩
  have hchoice := agrees_choice (agrees_isZero (hN.passed "n")) one ((global "mul" mul).applied
    [passed "n" N, app (passed "f" u) ((global "dec" dec).applied [passed "n" N])])
  simp only [decide_eq_true_eq] at hchoice
  exact hbody.trans hchoice

/-- The recursion goes down with the number, which is represented by another term each time. -/
theorem represents_of_recurs_fac (ht : Recurs facStep t) (hN : Represents n N) :
    Represents n.factorial (app t N) := by
  induction n generalizing t N with
  | zero =>
      obtain ⟨u, -, hstep⟩ := ht.agrees_fac hN
      rw [if_pos rfl] at hstep
      exact represents_one.of_agrees hstep
  | succ n ih =>
      obtain ⟨u, hu, hstep⟩ := ht.agrees_fac hN
      rw [if_neg n.succ_ne_zero] at hstep
      have hrec := ih hu (represents_dec (hN.passed "n"))
      exact (represents_mul (hN.passed "n") hrec).of_agrees hstep

theorem represents_fac (hN : Represents n N) :
    Represents n.factorial ((global "fac" fac).applied [N]) :=
  (represents_of_recurs_fac (recurs_fixedPoint facStep) hN).of_agrees ((agrees_global "fac" fac).app N)

/-! ## Fibonacci numbers -/

/-- One step of the Fibonacci numbers. -/
theorem Recurs.agrees_fib (ht : Recurs fibStep t) (hN : Represents n N) :
    ∃ u, Recurs fibStep u ∧ (app t N).Agrees (if n ≤ 2 then one else
      (global "add" add).applied [app u ((global "dec" dec).applied [passed "n" N]),
        app u ((global "dec" dec).applied [(global "dec" dec).applied [passed "n" N]])]) := by
  obtain ⟨u, hu, hbody⟩ := ht.agrees_body N
  refine ⟨passed "f" u, hu.of_agrees (agrees_passed "f" u), ?_⟩
  let pred := (global "dec" dec).applied [passed "n" N]
  have hchoice := agrees_choice (agrees_lte (hN.passed "n") represents_two) one ((global "add" add).applied
    [app (passed "f" u) pred, app (passed "f" u) ((global "dec" dec).applied [pred])])
  simp only [decide_eq_true_eq] at hchoice
  exact hbody.trans hchoice

/-- Up to two nothing is asked for, and from three on both predecessors are positive. -/
theorem represents_of_recurs_fib (ht : Recurs fibStep t) (hn : 0 < n) (hN : Represents n N) :
    Represents n.fib (app t N) := by
  induction n using Nat.strongRecOn generalizing t N with
  | ind n ih =>
      obtain ⟨u, hu, hstep⟩ := ht.agrees_fib hN
      by_cases hle : n ≤ 2
      · have hfib : n.fib = 1 := by
          obtain rfl | rfl : n = 1 ∨ n = 2 := by omega
          · rfl
          · rfl
        rw [if_pos hle] at hstep
        rw [hfib]
        exact represents_one.of_agrees hstep
      · obtain ⟨k, rfl⟩ : ∃ k, n = k + 3 := ⟨n - 3, by omega⟩
        rw [if_neg hle] at hstep
        have hpred := represents_dec (hN.passed "n")
        have hone := ih (k + 2) (by omega) hu (by omega) hpred
        have htwo := ih (k + 1) (by omega) hu (by omega) (represents_dec hpred)
        rw [Nat.fib_add_two, Nat.add_comm]
        exact (represents_add hone htwo).of_agrees hstep

theorem represents_fib (hn : 0 < n) (hN : Represents n N) :
    Represents n.fib ((global "fib" fib).applied [N]) :=
  (represents_of_recurs_fib (recurs_fixedPoint fibStep) hn hN).of_agrees ((agrees_global "fib" fib).app N)

/-- **The recursion of the prelude is right for all numbers.** It ends, and what it comes to is compared with
numerals: the factorial of every number, and the Fibonacci number of every number from one on. -/
theorem decides_recursion (n p : Nat) :
    Decides (.call "eq" [.call "fac" [.numeral n], .numeral p]) (n.factorial = p) ∧
    Decides (.call "eq" [.call "fib" [.numeral (n + 1)], .numeral p]) ((n + 1).fib = p) := by
  have hfac := represents_fac (represents_resolved_numeral n)
  have hfib := represents_fib n.succ_pos (represents_resolved_numeral (n + 1))
  exact ⟨decides_eq_call rfl hfac p, decides_eq_call rfl hfib p⟩

end LazyLambda.Prelude
