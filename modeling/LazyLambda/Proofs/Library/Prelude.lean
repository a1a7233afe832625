/-
# LazyLambda.Proofs.Library.Prelude — what the prelude defines.

Each name of the prelude with its value: the term as it is written, in which the names defined before it
stand for their values. None of the parameters is called like a global, so they stay free.

`Library.load_prelude` says that loading the prelude into a session without definitions succeeds and
leaves exactly these. The text is read and its modules are run by computation, which goes fast once the
lines are spelled out as characters.
-/
import LazyLambda.Library.Prelude
import LazyLambda.Proofs.Session.Definitions
import LazyLambda.Proofs.Term.Agrees

namespace LazyLambda

namespace Prelude

open Term (app free global function)

/-! ## Truth values -/

/-- The values of `true` and `false`. -/
def truth (b : Bool) : Term := function ["a", "b"] (free (if b then "a" else "b"))

/-- The global `true` or `false`. -/
def truthName (b : Bool) : Term := global (if b then "true" else "false") (truth b)

def identity : Term := function ["a"] (free "a")

def disjunction : Term := function ["a", "b"] ((free "a").applied [truthName true, free "b"])

def conjunction : Term := function ["a", "b"] ((free "a").applied [free "b", truthName false])

def negation : Term := function ["a"] ((free "a").applied [truthName false, truthName true])

def difference : Term := function ["a", "b"] ((free "a").applied [
  (free "b").applied [truthName false, truthName true],
  (free "b").applied [truthName true, truthName false]])

def equivalence : Term := function ["a", "b"]
  (app (global "not" negation) ((global "xor" difference).applied [free "a", free "b"]))

/-! ## Numerals -/

/-- The body of a numeral: `f`, so many times, on `x`. -/
def iterated : Nat → Term
  | 0 => free "x"
  | n + 1 => app (free "f") (iterated n)

/-- The numeral of a number. -/
def numeral (n : Nat) : Term := function ["f", "x"] (iterated n)

def succ : Term := function ["n", "f", "x"]
  (app (free "f") ((free "n").applied [free "f", free "x"]))

def add : Term := function ["m", "n", "f", "x"]
  ((free "m").applied [free "f", (free "n").applied [free "f", free "x"]])

def mul : Term := function ["m", "n", "f"] (app (free "m") (app (free "n") (free "f")))

def pow : Term := function ["b", "e"] (app (free "e") (free "b"))

def dec : Term := function ["n", "f", "x"] ((free "n").applied [
  function ["g", "h"] (app (free "h") (app (free "g") (free "f"))),
  function ["u"] (free "x"), function ["u"] (free "u")])

def sub : Term := function ["m", "n"] ((free "n").applied [global "dec" dec, free "m"])

def isZero : Term := function ["n"]
  ((free "n").applied [function ["x"] (truthName false), truthName true])

def lte : Term := function ["m", "n"]
  (app (global "is_zero" isZero) ((global "sub" sub).applied [free "m", free "n"]))

def gte : Term := function ["m", "n"] ((global "lte" lte).applied [free "n", free "m"])

def eq : Term := function ["m", "n"] ((global "and" conjunction).applied [
  (global "lte" lte).applied [free "m", free "n"], (global "lte" lte).applied [free "n", free "m"]])

-- the names of small numbers; those from four on stand for calls, and nothing evaluates them
def one : Term := global "one" (numeral 1)

def two : Term := global "two" (numeral 2)

def three : Term := global "three" (numeral 3)

def five : Term := (global "add" add).applied [two, three]

def six : Term := (global "mul" mul).applied [two, three]

/-! ## Recursion -/

/-- The fixed-point combinator. -/
def fixedPoint : Term :=
  let half := function ["x"] (app (free "f") (app (free "x") (free "x")))
  function ["f"] (app half half)

/-- The step of the factorial. -/
def facStep : Term := function ["f", "n"] ((global "is_zero" isZero).applied [free "n", one,
  (global "mul" mul).applied [free "n", app (free "f") (app (global "dec" dec) (free "n"))]])

def fac : Term := app (global "Y" fixedPoint) facStep

/-- The step of the Fibonacci numbers. -/
def fibStep : Term := function ["f", "n"] ((global "lte" lte).applied [free "n", two, one,
  (global "add" add).applied [app (free "f") (app (global "dec" dec) (free "n")),
    app (free "f") (app (global "dec" dec) (app (global "dec" dec) (free "n")))]])

def fib : Term := app (global "Y" fixedPoint) fibStep

/-! ## The scope -/

/-- Everything that the prelude defines. -/
def scope : Scope := ⟨[
  ("B", function ["f", "g", "x"] (app (free "f") (app (free "g") (free "x")))),
  ("C", function ["f", "x", "y"] ((free "f").applied [free "y", free "x"])),
  ("I", function ["x"] (free "x")),
  ("K", function ["x", "y"] (free "x")),
  ("S", function ["x", "y", "z"] ((free "x").applied [free "z", app (free "y") (free "z")])),
  ("W", function ["f", "x"] ((free "f").applied [free "x", free "x"])),
  ("Y", fixedPoint),
  ("add", add),
  ("and", conjunction),
  ("dec", dec),
  ("eight", (global "pow" pow).applied [two, three]),
  ("eq", eq),
  ("fac", fac),
  ("false", truth false),
  ("fib", fib),
  ("five", five),
  ("four", app (global "succ" succ) three),
  ("fst", function ["p"] (app (free "p") (truthName true))),
  ("gte", gte),
  ("id", identity),
  ("if", global "id" identity),
  ("is_zero", isZero),
  ("lte", lte),
  ("mul", mul),
  ("nine", (global "pow" pow).applied [three, two]),
  ("not", negation),
  ("one", numeral 1),
  ("or", disjunction),
  ("pair", function ["a", "b", "s"] ((free "s").applied [free "a", free "b"])),
  ("pow", pow),
  ("seven", app (global "succ" succ) (global "six" six)),
  ("six", six),
  ("snd", function ["p"] (app (free "p") (truthName false))),
  ("sub", sub),
  ("succ", succ),
  ("ten", (global "mul" mul).applied [two, global "five" five]),
  ("three", numeral 3),
  ("true", truth true),
  ("two", numeral 2),
  ("xnor", equivalence),
  ("xor", difference),
  ("zero", numeral 0)], by decide +kernel⟩

end Prelude

namespace Library

/-! ## Loading -/

theorem toList_foldl_append (acc : String) (ls : List String) :
    (ls.foldl (fun r s => r ++ s) acc).toList = acc.toList ++ ls.flatMap String.toList := by
  induction ls generalizing acc with
  | nil => simp
  | cons l ls ih => simp [ih]

/-- The symbols of a text that is given by its lines. -/
theorem ofLines_eq (lines : List String) :
    ofLines lines = lines.flatMap fun l => l.toList.map Symbol.char ++ [.char '\n'] := by
  rw [ofLines, Text.ofString, String.join, toList_foldl_append]
  simp [List.flatMap_map, List.map_flatMap]

/-- The prelude parses, and its modules are definitions that come to the scope above. -/
theorem load?_parse_prelude :
    (parse prelude).toOption.bind Scope.empty.load? = some Prelude.scope := by
  rw [prelude, booleans, combinators, numerals, recursion]
  simp only [ofLines_eq, List.flatMap_cons, List.flatMap_nil]
  -- a literal is the string of its characters, which saves decoding it
  repeat rw [String.toList_ofList]
  decide +kernel

theorem eq_ok_of_toOption {ε α : Type} {o : Except ε α} {a : α} (h : o.toOption = some a) : o = .ok a := by
  cases o with
  | error e => cases h
  | ok a' => exact congrArg Except.ok (Option.some.inj h)

theorem parse_prelude : ∃ ms, parse prelude = .ok ms ∧ Scope.empty.load? ms = some Prelude.scope := by
  obtain ⟨ms, hms, hscope⟩ := Option.bind_eq_some_iff.1 load?_parse_prelude
  exact ⟨ms, eq_ok_of_toOption hms, hscope⟩

/-- **What the prelude defines**: it loads into an empty session under every allowance. -/
theorem load_prelude (a : Allowance) :
    (load (Session.new a) prelude).result = .ok () ∧
      (load (Session.new a) prelude).session = ⟨Prelude.scope, a⟩ := by
  obtain ⟨ms, hparse, hscope⟩ := parse_prelude
  have hload : (Session.new a).scope.load? ms = some Prelude.scope := hscope
  obtain ⟨hres, hses⟩ := Session.loadFrom_of_load? 0 hload
  rw [load, hparse]
  constructor
  · show (((Session.new a).loadFrom 0 ms).mapError Error.unloadable).result = _
    rw [Effect.mapError, hres]
    rfl
  · exact hses

end Library

end LazyLambda
