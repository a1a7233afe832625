/-
# LazyLambda.Settings.Decode — settings read from YAML.

A document names some of the settings; the others keep what they had. A value that does not fit its
field leaves that field alone, so that what comes of a bad document is known too.
-/
import LazyLambda.Settings.Basic
import LazyLambda.Yaml.Document
import LazyLambda.Yaml.Value

namespace LazyLambda.Settings

open Yaml (Anchors Node Value)

/-! ## Fields -/

/-- What a field holds. -/
inductive Content where
  | flag (b : Bool)
  | number (n : Int)
  | text (s : String)
  | texts (ss : List String)
  deriving DecidableEq, Inhabited

namespace Content

/-- The content that stands for nothing, in a field like this one. -/
def cleared : Content → Content
  | .flag _ => .flag false
  | .number _ => .number 0
  | .text _ => .text ""
  | .texts _ => .texts []

/-- Whether two contents fit the same fields. -/
def isLike : Content → Content → Bool
  | .flag _, .flag _ => true
  | .number _, .number _ => true
  | .text _, .text _ => true
  | .texts _, .texts _ => true
  | _, _ => false

/-- The content after a value has been given for the field. Nothing in the place of a value leaves a
flag or a text as it was; for a text there are numbers and truth values too; numbers have to fit in a
word of 64 bits, and fractions are cut. -/
def given : Content → Value → Option Content
  | .flag b, .absent => some (.flag b)
  | .flag _, .bool b => some (.flag b)
  | .text s, .absent => some (.text s)
  | .text _, v => v.text?.map .text
  | .number _, .integer n => if n < Int.pow 2 63 then some (.number n) else none
  | .number _, .fraction b => b.toWord?.map .number
  | _, _ => none

/-- The text in a content. -/
def text? : Content → Option String
  | .text s => some s
  | _ => none

end Content

/-- A field of the settings. -/
inductive Field where
  | prelude | libraries | maxSteps | historyFile | logLevel | color
  deriving DecidableEq, Inhabited

namespace Field

/-- The fields in the order in which they are set. -/
def all : List Field := [.prelude, .libraries, .maxSteps, .historyFile, .logLevel, .color]

/-- The name of a field in a document. -/
def key : Field → String
  | .prelude => "prelude"
  | .libraries => "library_dirs"
  | .maxSteps => "max_steps"
  | .historyFile => "history_file"
  | .logLevel => "log_level"
  | .color => "color"

/-- What a field of the settings holds. -/
def get (s : Settings) : Field → Content
  | .prelude => .flag s.prelude
  | .libraries => .texts s.libraries
  | .maxSteps => .number s.maxSteps
  | .historyFile => .text s.historyFile
  | .logLevel => .text s.logLevel
  | .color => .text s.color

/-- The settings with another content in a field; one that does not fit changes nothing. -/
def set (s : Settings) : Field → Content → Settings
  | .prelude, .flag b => { s with prelude := b }
  | .libraries, .texts ss => { s with libraries := ss }
  | .maxSteps, .number n => { s with maxSteps := n }
  | .historyFile, .text t => { s with historyFile := t }
  | .logLevel, .text t => { s with logLevel := t }
  | .color, .text t => { s with color := t }
  | _, _ => s

end Field

/-! ## Values for fields -/

/-- The names that a document gives. -/
structure Names where
  /-- The nodes with a name. -/
  known : Anchors
  /-- What fields have held for nodes with a name, as they were set first. -/
  held : List (String × Content) := []

namespace Names

/-- Keeps what a field holds, if its node has a name that is new. -/
def hold (names : Names) (n : Node) (c : Content) : Names :=
  match n with
  | .anchored name _ =>
    if (names.held.lookup name).isSome then names else { names with held := (name, c) :: names.held }
  | _ => names

/-- What was held for the node that an alias stands for. -/
def held? (names : Names) : Node → Option Content
  | .alias name => names.held.lookup name
  | _ => none

end Names

/-- What a node makes of a field with one value, if it fits. -/
def contentOf (fuel : Nat) (names : Names) (old : Content) (n : Node) : Option Content × Names :=
  match names.held? n with
  | some c => (if old.isLike c then some c else none, names)
  | none =>
    match n with
    | .scalar _ .null => (some old.cleared, names)
    | _ =>
      let (v, known) := n.value fuel names.known
      let new := old.given v
      (new, { names with known := known }.hold n (new.getD old))

/-- The texts of the items of a sequence, as far as they have one. -/
def textsOf (fuel : Nat) (names : Names) : List Node → List (Option String) × Names
  | [] => ([], names)
  | n :: rest =>
    let (c, names) := contentOf fuel names (.text "") n
    let (more, names) := textsOf fuel names rest
    (c.bind Content.text? :: more, names)

/-- What a node makes of a field with a list of texts, if it fits. -/
def listOf (fuel : Nat) (names : Names) (old : Content) (n : Node) : Option Content × Names :=
  match names.held? n with
  | some c => (if old.isLike c then some c else none, names)
  | none =>
    match n with
    | .scalar _ .null => (some old.cleared, names)
    | _ =>
      match n.items? names.known with
      | none => (none, names.hold n old)
      | some items =>
        let (texts, names) := textsOf fuel names items
        let new := if texts.all Option.isSome then some (.texts (texts.filterMap id)) else none
        (new, names.hold n (.texts (texts.filterMap id)))

/-- Sets a field from a node, and tells whether that went well. -/
def setField (fuel : Nat) (names : Names) (s : Settings) (f : Field) (n : Node) :
    Settings × Bool × Names :=
  let old := f.get s
  let (new, names) := match old with
    | .texts _ => listOf fuel names old n
    | _ => contentOf fuel names old n
  match new with
  | some c => (f.set s c, true, names)
  | none => (s, false, names)

/-! ## Documents -/

/-- Sets the fields that are named, where a name counts as it stands last, and tells whether all went
well. -/
def setFields (fuel : Nat) (names : Names) (s : Settings) (parts : List (String × Node)) :
    List Field → Settings × Bool
  | [] => (s, true)
  | f :: rest =>
    match parts.reverse.lookup f.key with
    | none => setFields fuel names s parts rest
    | some n =>
      let (s, fine, names) := setField fuel names s f n
      let (s, rest) := setFields fuel names s parts rest
      (s, fine && rest)

/-- Whether there is a field of that name. -/
def isKey (name : String) : Bool := Field.all.any fun f => f.key = name

/-- Why a text does not give settings. -/
inductive DecodeError where
  /-- The text is no YAML, or its values do not fit the fields. -/
  | malformed
  | objection (o : Objection)
  deriving DecidableEq, Inhabited

/-- The objection to settings, as an error of decoding. -/
def check (s : Settings) : Option DecodeError :=
  match s.validate with
  | .ok () => none
  | .error o => some (.objection o)

/-- What the first of some documents makes of settings, and what is wrong with it. -/
def ofDocuments (fuel : Nat) (s : Settings) (docs : List Node) : Settings × Option DecodeError :=
  match Yaml.presentDocuments fuel [] docs with
  | ([], _) => (s, check s)
  | (doc :: _, known) =>
    match doc.fields? fuel known with
    | none => (s, some .malformed)
    | some parts =>
      let (s, fine) := setFields fuel { known := known } s parts Field.all
      (s, if fine && parts.all fun p => isKey p.1 then check s else some .malformed)

/-- What a YAML text makes of settings, and what is wrong with it. -/
def decode (s : Settings) (text : String) : Settings × Option DecodeError :=
  match Yaml.documents text with
  | none => (s, some .malformed)
  | some docs => ofDocuments (Yaml.enoughFor (Yaml.tokens text)) s docs

end LazyLambda.Settings
