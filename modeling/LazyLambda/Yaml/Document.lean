/-
# LazyLambda.Yaml.Document — documents read from tokens.

A token before a colon is a key. The keys of one mapping stand in the same column; a value that does
not stand further in than its key may be missing. What is left after a node starts another document.

Each reader takes the tokens from where it starts, and a number that bounds how long it may go on; it
gives the node and the tokens behind it, or nothing where the tokens make no sense.
-/
import LazyLambda.Yaml.Lexed
import LazyLambda.Yaml.Node

namespace LazyLambda.Yaml

/-- Tags of scalars. -/
def scalarTags : List String :=
  ["!!int", "!!float", "!!str", "!!binary", "!!timestamp", "!!null"]

/-- Tags of mappings. -/
def mappingTags : List String := ["!!map", "!!omap"]

/-- Tags of what is not understood. -/
def refusedTags : List String := ["!!seq", "!!set"]

/-- The node of a key. -/
def keyNode (t : Token) : Option Node :=
  match t.scalar? with
  | some v => if t.isWord && t.runsOver then none else some (.scalar t.text v)
  | none => if t.isMark .merge then some .mergeKey else none

/-- Whether the first token is a quoted scalar in the column of a key before it. -/
def isQuotedBelow (key : Token) (ts : List Token) : Bool :=
  ts.head?.any fun t => t.kind = .quoted && t.column = key.column

/-- Whether tokens go on with a colon or a hyphen. -/
def goesOn (ts : List Token) : Bool :=
  ts.head?.any fun t => t.isMark .colon || t.isMark .entry

mutual

/-- Reads a node. -/
def readNode (fuel : Nat) (ts : List Token) : Option (Node × List Token) :=
  match fuel, ts with
  | 0, _ => none
  | _ + 1, [] => some (.void, [])
  | fuel + 1, t :: rest =>
    if t.beforeColon then readFields fuel t rest.tail
    else match t.kind with
    | .plain v => some (.scalar t.text v, rest)
    | .quoted => some (.scalar t.text (.string t.text), rest)
    | .mark .key => (readNode fuel rest).map fun (n, rest) => (.explicitKey n, rest)
    | .mark .header => do
      let (n, rest) ← readNode fuel rest
      return (.document n, if rest.head?.any fun t => t.isMark .footer then rest.tail else rest)
    | .mark .openMapping => readBraces fuel [] rest
    | .mark .openSequence => readBrackets fuel [] rest
    | .mark .entry => readEntries fuel t.column [] rest
    | .mark .anchor => do
      let (name, rest) ← readNode fuel rest
      guard (!name.isVoid && !rest.isEmpty)
      let (n, rest) ← readNode fuel rest
      return (.anchored name.label n, rest)
    | .mark .alias => do
      let (name, rest) ← readNode fuel rest
      guard !name.isVoid
      return (.alias name.label, rest)
    | .mark .directive => do
      let (_, rest) ← readNode fuel rest
      guard (rest.head?.any fun t => t.isMark .header)
      return (.void, rest.tail)
    | .mark .tag => readTagged fuel t.text rest
    | .mark .block => readBlock fuel rest
    | .mark _ => some (.void, rest)

/-- Reads the string of a block. -/
def readBlock (fuel : Nat) (ts : List Token) : Option (Node × List Token) :=
  match fuel with
  | 0 => none
  | fuel + 1 => do
    let (n, rest) ← readNode fuel ts
    guard n.isString
    return (n, rest)

/-- Reads the node behind a tag. -/
def readTagged (fuel : Nat) (tag : String) (ts : List Token) : Option (Node × List Token) :=
  match fuel with
  | 0 => none
  | fuel + 1 =>
    if refusedTags.contains tag then none
    else if mappingTags.contains tag then
      (readBraces fuel [] ts.tail).map fun (n, rest) => (.tagged tag n, rest)
    else if scalarTags.contains tag then
      match ts with
      | [] => none
      | t :: rest =>
        if t.isMark .block then (readBlock fuel rest).map fun (n, rest) => (.tagged tag n, rest)
        else
          let content := (t.scalar?.map fun v => Node.scalar t.text v).getD .void
          some (.tagged tag content, rest)
    else (readNode fuel ts).map fun (n, rest) => (.tagged tag n, rest)

/-- Reads what is left of a sequence in brackets; `items` are those before, the last first. It may end
without a bracket, and commas may be repeated. -/
def readBrackets (fuel : Nat) (items : List Node) (ts : List Token) : Option (Node × List Token) :=
  match fuel, ts with
  | 0, _ => none
  | _ + 1, [] => some (.sequence items.reverse, [])
  | fuel + 1, t :: rest =>
    if t.isMark .closeSequence then some (.sequence items.reverse, rest)
    else if t.isMark .comma then readBrackets fuel items rest
    else do
      let (n, rest) ← readNode fuel (t :: rest)
      readBrackets fuel (n :: items) rest

/-- Reads what is left of a mapping in braces; `fields` are those before, the last first. -/
def readBraces (fuel : Nat) (fields : List (Node × Node)) (ts : List Token) :
    Option (Node × List Token) :=
  match fuel, ts with
  | 0, _ => none
  | _ + 1, [] => some (.mapping true fields.reverse, [])
  | fuel + 1, t :: rest =>
    if t.isMark .closeMapping then some (.mapping true fields.reverse, rest)
    else if t.isMark .comma then readBraces fuel fields rest
    else do
      let (n, rest) ← readNode fuel (t :: rest)
      match n with
      | .mapping false [field] => readBraces fuel (field :: fields) rest
      | _ => none

/-- Reads what is left of a sequence, behind a hyphen; the hyphens stand in one column. -/
def readEntries (fuel : Nat) (column : Int) (items : List Node) (ts : List Token) :
    Option (Node × List Token) :=
  match fuel with
  | 0 => none
  | fuel + 1 => do
    guard !ts.isEmpty
    let (n, rest) ← readNode fuel ts
    if rest.head?.any fun t => t.isMark .entry && t.column = column then
      readEntries fuel column (n :: items) rest.tail
    else return (.sequence (n :: items).reverse, rest)

/-- Reads the fields that start with a key, behind its colon. A quoted scalar does not stand in the
column of its key, unless a colon or a hyphen follows it. -/
def readFields (fuel : Nat) (key : Token) (ts : List Token) : Option (Node × List Token) :=
  match fuel with
  | 0 => none
  | fuel + 1 => do
    let k ← keyNode key
    let missing := match ts with
      | [] => true
      | t :: _ => (t.column = key.column && t.isWord) || t.column < key.column
    let (v, rest) ← if missing then some (Node.null, ts) else readNode fuel ts
    guard !(v.isVoid || (v.isString && isQuotedBelow key ts && !goesOn rest))
    readMoreFields fuel key.column [(k, v)] rest

/-- Reads further fields of a mapping, whose keys stand in a column. -/
def readMoreFields (fuel : Nat) (column : Int) (fields : List (Node × Node)) (ts : List Token) :
    Option (Node × List Token) :=
  match fuel, ts with
  | 0, _ => none
  | fuel + 1, t :: u :: rest =>
    if u.isMark .colon && t.column = column then do
      let (n, rest) ← readNode fuel (t :: u :: rest)
      match n with
      | .mapping false more => readMoreFields fuel column (fields ++ more) rest
      | _ => none
    else some (.mapping false fields, t :: u :: rest)
  | _ + 1, ts => some (.mapping false fields, ts)

end

/-- Reads documents as long as there are tokens. -/
def readDocuments (fuel : Nat) (ts : List Token) : Option (List Node) :=
  match fuel, ts with
  | 0, _ => none
  | _ + 1, [] => some []
  | fuel + 1, ts => do
    let (n, rest) ← readNode fuel ts
    let more ← readDocuments fuel rest
    match n with
    | .void => return more
    | .document body => return body :: more
    | _ => return n :: more

/-- How long readers may go on over some tokens. -/
def enoughFor (ts : List Token) : Nat := 4 * ts.length + 4

/-- The bodies of the documents in a text. -/
def documents (s : String) : Option (List Node) :=
  readDocuments (enoughFor (tokens s)) (tokens s)

end LazyLambda.Yaml
