/-
# LazyLambda.Files.Path — paths as they are written.

A path is a string of components with slashes between them. Cleaning a path settles `.`, `..` and
repeated slashes by the text alone, without looking at any files.
-/

namespace LazyLambda.Path

/-- The pieces of a text between its slashes; there is always at least one. -/
def pieces : List Char → List (List Char)
  | [] => [[]]
  | '/' :: cs => [] :: pieces cs
  | c :: cs =>
    match pieces cs with
    | [] => [[c]]
    | p :: ps => (c :: p) :: ps

/-- The components of a path, among them empty ones where slashes meet. -/
def components (p : String) : List String := (pieces p.toList).map String.ofList

/-- Whether a path starts at the root. -/
def isAbsolute (p : String) : Bool := p.toList.head? = some '/'

/-- One more component on a stack of them, the last on top. -/
def push (absolute : Bool) (stack : List String) (c : String) : List String :=
  if c = "" || c = "." then stack
  else if c = ".." then
    match stack with
    | [] => if absolute then [] else [".."]
    | top :: rest => if top = ".." then ".." :: stack else rest
  else c :: stack

/-- The components of a path once it is cleaned. -/
def settled (p : String) : List String :=
  ((components p).foldl (push (isAbsolute p)) []).reverse

/-- The shortest path that means the same by its text. -/
def clean (p : String) : String :=
  let body := String.intercalate "/" (settled p)
  if isAbsolute p then "/" ++ body else if body = "" then "." else body

/-- A path continued by another, cleaned. An empty path counts for nothing. -/
def join (p q : String) : String :=
  if p = "" then (if q = "" then "" else clean q) else clean (p ++ "/" ++ q)

/-- The path without its last component, cleaned. -/
def parent (p : String) : String :=
  clean (String.ofList (p.toList.reverse.dropWhile (· ≠ '/')).reverse)

end LazyLambda.Path
