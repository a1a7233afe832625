/-
# LazyLambda.Library.Prelude — the modules that come with the program.
-/
import LazyLambda.Library.Source

namespace LazyLambda.Library

/-- A text of the given lines. -/
def ofLines (lines : List String) : Text := .ofString (String.join (lines.map (· ++ "\n")))

/-- Truth values. -/
def booleans : Text := ofLines [
  "# Booleans select one of two arguments.",
  "",
  "# Returns its argument unchanged.",
  "id = \\a a",
  "if = id",
  "",
  "true = \\a \\b a",
  "false = \\a \\b b",
  "",
  "# True when either argument is true.",
  "or = \\a \\b a true b",
  "",
  "# True when both arguments are true.",
  "and = \\a \\b a b false",
  "",
  "not = \\a a false true",
  "",
  "# True when the arguments differ.",
  "xor = \\a \\b a (b false true) (b true false)",
  "",
  "# True when the arguments are equal.",
  "xnor = \\a \\b not (xor a b)"]

/-- Combinators. -/
def combinators : Text := ofLines [
  "# Classic combinators.",
  "",
  "I = \\x x",
  "K = \\x \\y x",
  "S = \\x \\y \\z x z (y z)",
  "B = \\f \\g \\x f (g x)",
  "C = \\f \\x \\y f y x",
  "W = \\f \\x f x x",
  "",
  "# Fixed point: Y f = f (Y f).",
  "# Names are bound when a definition is made, so a definition can not refer",
  "# to itself. Recursive functions take themselves as an argument instead.",
  "Y = \\f (\\x f (x x)) (\\x f (x x))"]

/-- Numerals, comparisons and pairs. -/
def numerals : Text := ofLines [
  "# Church numerals: n applies f to x n times.",
  "",
  "zero = \\f \\x x",
  "one = \\f \\x f x",
  "two = \\f \\x f (f x)",
  "three = \\f \\x f (f (f x))",
  "",
  "succ = \\n \\f \\x f (n f x)",
  "add = \\m \\n \\f \\x m f (n f x)",
  "mul = \\m \\n \\f m (n f)",
  "pow = \\b \\e e b",
  "",
  "# Predecessor, with dec zero = zero.",
  "dec = \\n \\f \\x n (\\g \\h h (g f)) (\\u x) (\\u u)",
  "",
  "# Truncated subtraction, never below zero.",
  "sub = \\m \\n n dec m",
  "",
  "four = succ three",
  "five = add two three",
  "six = mul two three",
  "seven = succ six",
  "eight = pow two three",
  "nine = pow three two",
  "ten = mul two five",
  "",
  "is_zero = \\n n (\\x false) true",
  "lte = \\m \\n is_zero (sub m n)",
  "gte = \\m \\n lte n m",
  "eq = \\m \\n and (lte m n) (lte n m)",
  "",
  "# Pairs hold two values.",
  "pair = \\a \\b \\s s a b",
  "fst = \\p p true",
  "snd = \\p p false"]

/-- Recursive functions. -/
def recursion : Text := ofLines [
  "# Recursion through the fixed-point combinator.",
  "#",
  "# Reduction here is slow for numbers and recursion, and these need both.",
  "",
  "# Factorial of a natural number.",
  "fac = Y (",
  "    \\f \\n is_zero n one (mul n (f (dec n)))",
  ")",
  "",
  "# Nth Fibonacci number.",
  "fib = Y (",
  "    \\f \\n lte n two one (add (f (dec n)) (f (dec (dec n))))",
  ")"]

/-- The modules that come with the program, in the order they are loaded. -/
def prelude : List Source := [
  ⟨"prelude/1_bool.lc", booleans⟩,
  ⟨"prelude/2_combinators.lc", combinators⟩,
  ⟨"prelude/3_church.lc", numerals⟩,
  ⟨"prelude/4_rec.lc", recursion⟩]

end LazyLambda.Library
