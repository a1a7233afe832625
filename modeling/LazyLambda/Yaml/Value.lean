/-
# LazyLambda.Yaml.Value — what nodes stand for.

An alias stands for the node that was last given its name, so the names that are known are passed along
while nodes are looked at.
-/
import LazyLambda.Number.Shortest
import LazyLambda.Text.Base64
import LazyLambda.Yaml.Node

namespace LazyLambda.Yaml

/-- What a node stands for. -/
inductive Value where
  | absent
  | bool (b : Bool)
  | integer (n : Int)
  /-- A number that was asked for by a tag. It has a text and is no number for a setting. -/
  | count (n : Int)
  | fraction (b : Binary)
  | string (s : String)
  /-- What has parts, or is a moment in time. -/
  | compound
  deriving DecidableEq, Inhabited

namespace Value

/-- The value of a scalar. -/
def ofScalar : Scalar → Value
  | .null => .absent
  | .bool b => .bool b
  | .integer n => .integer n
  | .fraction b => .fraction b
  | .string s => .string s

/-- Whether it is nothing. -/
def isAbsent (v : Value) : Bool := v = .absent

/-- The text of a value; nothing, and what has parts, have none. -/
def text? : Value → Option String
  | .absent => none
  | .bool b => some (if b then "true" else "false")
  | .integer n => some (toString n)
  | .count n => some (toString n)
  | .fraction b => some b.render
  | .string s => some s
  | .compound => none

/-- The value under a tag for whole numbers. What does not spell one counts as zero. -/
def asCount (v : Value) : Value := .count (Scalar.nearestSigned ((v.text?.bind Text.int?).getD 0))

/-- The value under a tag for fractions. -/
def asFraction : Value → Value
  | .integer n => .fraction (Binary.ofDecimal (n < 0) n.natAbs 0)
  | .fraction b => .fraction b
  | .string s => .fraction ((Binary.parse? s.toList).getD (.finite false 0 Binary.minExponent))
  | _ => .count 0

/-- The value under a tag for bytes. -/
def asBytes : Value → Value
  | .string s => .string (Text.toString (Text.ofBytes (Base64.decode s)))
  | _ => .absent

/-- The value of what stands behind a tag. -/
def tagged (tag : String) (v : Value) : Value :=
  match tag with
  | "!!int" => v.asCount
  | "!!float" => v.asFraction
  | "!!binary" => v.asBytes
  | "!!str" => v
  | "!!map" => v
  | "!!timestamp" => .compound
  | _ => .absent

end Value

/-! ## Names of nodes -/

/-- The nodes that have been given names, the last first. -/
abbrev Anchors := List (String × Node)

mutual

/-- What a node stands for, and the names that are known after it has been looked at. -/
def Node.value (fuel : Nat) (known : Anchors) (n : Node) : Value × Anchors :=
  match fuel with
  | 0 => (.absent, known)
  | fuel + 1 =>
    match n with
    | .void => (.absent, known)
    | .scalar _ v => (.ofScalar v, known)
    | .mergeKey => (.absent, known)
    | .sequence items => (.compound, items.foldl (fun known n => (n.value fuel known).2) known)
    | .mapping _ fields => (.compound, fields.foldl (fieldNames fuel) known)
    | .tagged tag content =>
      let (v, known) := content.value fuel known
      (v.tagged tag, known)
    | .anchored name content =>
      let (v, known) := content.value fuel known
      (v, (name, content) :: known)
    | .alias name =>
      match known.lookup name with
      | some n => n.value fuel known
      | none => (.absent, known)
    | .explicitKey content => content.value fuel known
    | .document _ => (.absent, known)

/-- The names that are known after a field of a mapping has been looked at. Of what is merged in, the
fields are looked at if it is a mapping or stands for one. -/
def fieldNames (fuel : Nat) (known : Anchors) (f : Node × Node) : Anchors :=
  match fuel with
  | 0 => known
  | fuel + 1 =>
    match f with
    | (.mergeKey, .alias name) =>
      match known.lookup name with
      | some (.mapping _ fields) => fields.foldl (fieldNames fuel) known
      | _ => known
    | (.mergeKey, .mapping _ fields) => fields.foldl (fieldNames fuel) known
    | (.mergeKey, _) => known
    | (_, v) => (v.value fuel known).2

end

/-- The documents that stand for something, and the names that are known after all of them have been
looked at. -/
def presentDocuments (fuel : Nat) (known : Anchors) : List Node → List Node × Anchors
  | [] => ([], known)
  | n :: rest =>
    let (v, known) := n.value fuel known
    let (more, known) := presentDocuments fuel known rest
    (if v.isAbsent then more else n :: more, known)

/-! ## Parts -/

/-- The fields of a mapping in order, those merged in among them; nothing if the node is no mapping or a
key is no string. -/
def Node.fields? (fuel : Nat) (known : Anchors) (n : Node) : Option (List (String × Node)) :=
  match fuel with
  | 0 => none
  | fuel + 1 =>
    let own (fields : List (Node × Node)) : Option (List (String × Node)) := do
      let parts ← fields.mapM fun f =>
        match f with
        | (.mergeKey, v) => v.fields? fuel known
        | (.scalar _ (.string key), v) => some [(key, v)]
        | _ => none
      return parts.flatten
    match n with
    | .scalar _ .null => some []
    | .mapping _ fields => own fields
    | .anchored _ (.mapping _ fields) => own fields
    | .alias name =>
      match known.lookup name with
      | some (.mapping _ fields) => own fields
      | _ => none
    | _ => none

/-- The items of a sequence; nothing if the node is none. -/
def Node.items? (known : Anchors) : Node → Option (List Node)
  | .sequence items => some items
  | .anchored _ (.sequence items) => some items
  | .alias name =>
    match known.lookup name with
    | some (.sequence items) => some items
    | _ => none
  | _ => none

end LazyLambda.Yaml
