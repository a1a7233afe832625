/-
# LazyLambda.Proofs.Library.Numerals — the arithmetic of the prelude.

A term represents a number if, given any function and any start, it comes to that function applied so many
times (`Term.Represents`). The applications are found one after the other: each of them agrees with the
function applied to a term that stands for the rest, and that term may be of any shape. So results of the
operations, which are never numerals themselves, represent numbers as well as numerals do.

Each operation is unfolded once, by `Term.agrees_applied`, and what it makes of represented numbers follows
from how applications are counted: one after the other they add up, and inside each other they multiply.
-/
import LazyLambda.Proofs.Library.Prelude

namespace LazyLambda

namespace Term

/-! ## Counting applications -/

/-- `Iterates f x n t`: the term comes to `f` applied `n` times to `x`. -/
inductive Iterates (f x : Term) : Nat → Term → Prop
  | start {t : Term} : t.Agrees x → Iterates f x 0 t
  | again {n : Nat} {t u : Term} : t.Agrees (app f u) → Iterates f x n u → Iterates f x (n + 1) t

/-- Whether a term counts like the numeral of a number. -/
def Represents (n : Nat) (t : Term) : Prop := ∀ f x, Iterates f x n (t.applied [f, x])

variable {f g x y t u : Term} {m n : Nat}

namespace Iterates

theorem of_agrees (hu : Iterates f x n u) (h : t.Agrees u) : Iterates f x n t := by
  cases hu with
  | start hx => exact .start (h.trans hx)
  | again hu hrest => exact .again (h.trans hu) hrest

/-- Function and start count as what they agree with. -/
theorem congr (ht : Iterates g y n t) (hf : g.Agrees f) (hx : y.Agrees x) : Iterates f x n t := by
  induction ht with
  | start h => exact .start (h.trans hx)
  | again h _ ih => exact .again (h.trans (hf.app _)) ih

/-- Applications to what has been reached by applications add up. -/
theorem add (ht : Iterates f y m t) (hy : Iterates f x n y) : Iterates f x (m + n) t := by
  induction ht with
  | start h =>
      rw [Nat.zero_add]
      exact hy.of_agrees h
  | again h _ ih =>
      rw [Nat.succ_add]
      exact .again h ih

/-- A function that applies another so many times multiplies. -/
theorem mul (ht : Iterates g x m t) (hg : ∀ y, Iterates f y n (app g y)) :
    Iterates f x (m * n) t := by
  induction ht with
  | start h =>
      rw [Nat.zero_mul]
      exact .start h
  | again h _ ih =>
      rw [Nat.succ_mul, Nat.add_comm]
      exact ((hg _).add ih).of_agrees h

end Iterates

theorem Represents.of_agrees (hu : Represents n u) (h : t.Agrees u) : Represents n t :=
  fun f x => (hu f x).of_agrees (h.applied [f, x])

theorem Represents.passed (ht : Represents n t) (z : String) : Represents n (.passed z t) :=
  ht.of_agrees (agrees_passed z t)

/-- What represents a number counts for all that its function and its start agree with. -/
theorem Represents.counts (ht : Represents n t) (hf : g.Agrees f) (hx : y.Agrees x) :
    Iterates f x n (t.applied [g, y]) :=
  (ht g y).congr hf hx

end Term

namespace Prelude

open Term

variable {m n k : Nat} {M N f x t : Term}

/-! ## Numerals and their successors -/

theorem represents_numeral (n : Nat) : Represents n (numeral n) := by
  intro f x
  have hbody : Iterates f x n ((iterated n).bind [("x", x), ("f", f)]) := by
    induction n with
    | zero => exact .start (agrees_passed "x" x)
    | succ n ih => exact .again ((agrees_passed "f" f).app _) ih
  exact hbody.of_agrees (agrees_applied (.refl _) [f, x] rfl)

theorem represents_succ (hN : Represents n N) :
    Represents (n + 1) ((global "succ" succ).applied [N]) := by
  intro f x
  let rest := (passed "n" N).applied [passed "f" f, passed "x" x]
  have hsucc : ((global "succ" succ).applied [N, f, x]).Agrees (app (passed "f" f) rest) :=
    agrees_applied (agrees_global "succ" succ) [N, f, x] rfl
  have hrest : Iterates f x n rest :=
    (hN.passed "n").counts (agrees_passed "f" f) (agrees_passed "x" x)
  exact .again (hsucc.trans ((agrees_passed "f" f).app rest)) hrest

/-! ## Sums, products and powers -/

theorem represents_add (hM : Represents m M) (hN : Represents n N) :
    Represents (m + n) ((global "add" add).applied [M, N]) := by
  intro f x
  let start := (passed "n" N).applied [passed "f" f, passed "x" x]
  have hadd : ((global "add" add).applied [M, N, f, x]).Agrees
      ((passed "m" M).applied [passed "f" f, start]) :=
    agrees_applied (agrees_global "add" add) [M, N, f, x] rfl
  have hstart : Iterates f x n start :=
    (hN.passed "n").counts (agrees_passed "f" f) (agrees_passed "x" x)
  have hm : Iterates f start m ((passed "m" M).applied [passed "f" f, start]) :=
    (hM.passed "m").counts (agrees_passed "f" f) (.refl start)
  exact (hm.add hstart).of_agrees hadd

theorem represents_mul (hM : Represents m M) (hN : Represents n N) :
    Represents (m * n) ((global "mul" mul).applied [M, N]) := by
  intro f x
  -- the product takes no start of its own, so the last argument is left to the first factor
  let g := app (passed "n" N) (passed "f" f)
  have hmul : ((global "mul" mul).applied [M, N, f]).Agrees (app (passed "m" M) g) :=
    agrees_applied (agrees_global "mul" mul) [M, N, f] rfl
  have hg (y : Term) : Iterates f y n (app g y) :=
    (hN.passed "n").counts (agrees_passed "f" f) (.refl y)
  have hm : Iterates g x m (app (app (passed "m" M) g) x) := hM.passed "m" g x
  exact (hm.mul hg).of_agrees (hmul.app x)

/-- Here the numeral of the base is what is iterated, and the function that counts is its start. -/
theorem iterates_pow (hM : Represents m M) (ht : Iterates M f k t) (x : Term) :
    Iterates f x (Nat.pow m k) (app t x) := by
  induction ht generalizing x with
  | start h => exact .again (h.app x) (.start (.refl x))
  | @again k t u h _ ih =>
      -- `u` already applies `f` as often as the smaller power says, and `M` applies `u`
      have hm : Iterates u x m (app (app M u) x) := hM u x
      have hpow : Nat.pow m (k + 1) = m * Nat.pow m k := Nat.mul_comm _ _
      rw [hpow]
      exact (hm.mul ih).of_agrees (h.app x)

theorem represents_pow (hM : Represents m M) (hN : Represents n N) :
    Represents (Nat.pow m n) ((global "pow" pow).applied [M, N]) := by
  intro f x
  have hpow : ((global "pow" pow).applied [M, N]).Agrees (app (passed "e" N) (passed "b" M)) :=
    agrees_applied (agrees_global "pow" pow) [M, N] rfl
  have hn : Iterates (passed "b" M) f n ((passed "e" N).applied [passed "b" M, f]) :=
    hN.passed "e" (passed "b" M) f
  exact (iterates_pow (hM.passed "b") hn x).of_agrees (hpow.applied [f, x])

/-! ## Predecessors and differences -/

/-- The step of the predecessor: it hands the iterate reached so far to a function. -/
def decStep (f : Term) : Term := function ["g", "h"] (app (free "h") (app (free "g") (passed "f" f)))

/-- The start of the predecessor: it ignores the function that it is given. -/
def decStart (x : Term) : Term := function ["u"] (passed "x" x)

/-- What the predecessor has after so many steps: given a function, it applies that in the place of the
last application of `f`. -/
def Withholds (f x : Term) : Nat → Term → Prop
  | 0, t => ∀ h, (app t h).Agrees x
  | n + 1, t => ∀ h, ∃ u, (app t h).Agrees (app h u) ∧ Iterates f x n u

/-- Given `f` itself, nothing is missing. -/
theorem Withholds.iterates (ht : Withholds f x n t) {h : Term} (hf : h.Agrees f) :
    Iterates f x n (app t h) := by
  cases n with
  | zero => exact .start (ht h)
  | succ n =>
      obtain ⟨u, happ, hu⟩ := ht h
      exact .again (happ.trans (hf.app u)) hu

/-- Given the identity, the last application is missing. -/
theorem Withholds.iterates_pred (ht : Withholds f x n t) :
    Iterates f x (n - 1) (app t (function ["u"] (free "u"))) := by
  cases n with
  | zero => exact .start (ht _)
  | succ n =>
      obtain ⟨u, happ, hu⟩ := ht (function ["u"] (free "u"))
      have hid : (app (function ["u"] (free "u")) u).Agrees (passed "u" u) := agrees_beta "u" _ u
      exact hu.of_agrees (happ.trans (hid.trans (agrees_passed "u" u)))

theorem withholds_of_iterates (ht : Iterates (decStep f) (decStart x) n t) : Withholds f x n t := by
  induction ht with
  | start hstart =>
      intro h
      have hx : (app (decStart x) h).Agrees (passed "x" x) := agrees_beta "u" _ h
      exact (hstart.app h).trans (hx.trans (agrees_passed "x" x))
  | @again n t u hstep _ ih =>
      intro h
      -- inside, the same step is given `f`, and nothing is missing there
      let rest := app (passed "g" u) (passed "f" f)
      have hstep' : ((decStep f).applied [u, h]).Agrees (app (passed "h" h) rest) :=
        agrees_applied (.refl _) [u, h] rfl
      have hrest : Iterates f x n rest :=
        (ih.iterates (agrees_passed "f" f)).of_agrees ((agrees_passed "g" u).app _)
      exact ⟨rest, (hstep.app h).trans (hstep'.trans ((agrees_passed "h" h).app rest)), hrest⟩

theorem represents_dec (hN : Represents n N) :
    Represents (n - 1) ((global "dec" dec).applied [N]) := by
  intro f x
  have hdec : ((global "dec" dec).applied [N, f, x]).Agrees
      ((passed "n" N).applied [decStep f, decStart x, function ["u"] (free "u")]) :=
    agrees_applied (agrees_global "dec" dec) [N, f, x] rfl
  have hn := hN.passed "n" (decStep f) (decStart x)
  exact (withholds_of_iterates hn).iterates_pred.of_agrees hdec

theorem represents_of_iterates_dec (hM : Represents m M) (ht : Iterates (global "dec" dec) M k t) :
    Represents (m - k) t := by
  induction ht with
  | start h => exact hM.of_agrees h
  | again h _ ih => exact (represents_dec ih).of_agrees h

theorem represents_sub (hM : Represents m M) (hN : Represents n N) :
    Represents (m - n) ((global "sub" sub).applied [M, N]) := by
  have hsub : ((global "sub" sub).applied [M, N]).Agrees
      ((passed "n" N).applied [global "dec" dec, passed "m" M]) :=
    agrees_applied (agrees_global "sub" sub) [M, N] rfl
  have hn := hN.passed "n" (global "dec" dec) (passed "m" M)
  exact (represents_of_iterates_dec (hM.passed "m") hn).of_agrees hsub

/-! ## Comparisons -/

theorem agrees_truthName (b : Bool) : (truthName b).Agrees (truth b) := agrees_global _ _

theorem agrees_truth_of_iterates
    (ht : Iterates (function ["x"] (truthName false)) (truthName true) n t) :
    t.Agrees (truth (n = 0)) := by
  cases ht with
  | start h => exact h.trans (agrees_truthName true)
  | @again n t u h _ =>
      -- the first application decides, and the others are never made
      have hfalse : (app (function ["x"] (truthName false)) u).Agrees (truthName false) :=
        agrees_beta "x" (truthName false) u
      exact h.trans (hfalse.trans (agrees_truthName false))

theorem agrees_isZero (hN : Represents n N) :
    ((global "is_zero" isZero).applied [N]).Agrees (truth (n = 0)) := by
  have hzero : ((global "is_zero" isZero).applied [N]).Agrees
      ((passed "n" N).applied [function ["x"] (truthName false), truthName true]) :=
    agrees_applied (agrees_global "is_zero" isZero) [N] rfl
  exact hzero.trans (agrees_truth_of_iterates (hN.passed "n" _ _))

theorem agrees_lte (hM : Represents m M) (hN : Represents n N) :
    ((global "lte" lte).applied [M, N]).Agrees (truth (m ≤ n)) := by
  have hlte : ((global "lte" lte).applied [M, N]).Agrees ((global "is_zero" isZero).applied
      [(global "sub" sub).applied [passed "m" M, passed "n" N]]) :=
    agrees_applied (agrees_global "lte" lte) [M, N] rfl
  have hzero := agrees_isZero (represents_sub (hM.passed "m") (hN.passed "n"))
  simp only [Nat.sub_eq_zero_iff_le] at hzero
  exact hlte.trans hzero

theorem agrees_gte (hM : Represents m M) (hN : Represents n N) :
    ((global "gte" gte).applied [M, N]).Agrees (truth (m ≥ n)) := by
  have hgte : ((global "gte" gte).applied [M, N]).Agrees
      ((global "lte" lte).applied [passed "n" N, passed "m" M]) :=
    agrees_applied (agrees_global "gte" gte) [M, N] rfl
  exact hgte.trans (agrees_lte (hN.passed "n") (hM.passed "m"))

/-- A truth value chooses between two terms. -/
theorem agrees_choice {b : Bool} (ht : t.Agrees (truth b)) (f x : Term) :
    (t.applied [f, x]).Agrees (if b then f else x) := by
  have hchoice := agrees_applied ht [f, x] rfl
  cases b with
  | true => exact hchoice.trans (agrees_passed "a" f)
  | false => exact hchoice.trans (agrees_passed "b" x)

theorem agrees_conjunction {a b : Bool} (hM : M.Agrees (truth a)) (hN : N.Agrees (truth b)) :
    ((global "and" conjunction).applied [M, N]).Agrees (truth (a && b)) := by
  have hand : ((global "and" conjunction).applied [M, N]).Agrees
      ((passed "a" M).applied [passed "b" N, truthName false]) :=
    agrees_applied (agrees_global "and" conjunction) [M, N] rfl
  have hchoice := hand.trans
    (agrees_choice ((agrees_passed "a" M).trans hM) (passed "b" N) (truthName false))
  cases a with
  | true => exact hchoice.trans ((agrees_passed "b" N).trans hN)
  | false => exact hchoice.trans (agrees_truthName false)

theorem agrees_eq (hM : Represents m M) (hN : Represents n N) :
    ((global "eq" eq).applied [M, N]).Agrees (truth (m = n)) := by
  have heq : ((global "eq" eq).applied [M, N]).Agrees ((global "and" conjunction).applied
      [(global "lte" lte).applied [passed "m" M, passed "n" N],
        (global "lte" lte).applied [passed "n" N, passed "m" M]]) :=
    agrees_applied (agrees_global "eq" eq) [M, N] rfl
  have hle := agrees_lte (hM.passed "m") (hN.passed "n")
  have hge := agrees_lte (hN.passed "n") (hM.passed "m")
  have hboth : (decide (m ≤ n) && decide (n ≤ m)) = decide (m = n) := by
    rw [← Bool.decide_and, decide_eq_decide]
    omega
  rw [← hboth]
  exact heq.trans (agrees_conjunction hle hge)

end Prelude

end LazyLambda
