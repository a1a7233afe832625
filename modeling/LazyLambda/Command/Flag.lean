/-
# LazyLambda.Command.Flag — flags on a command line.

A flag starts with one or two hyphens. Its value follows an equals sign or is the next argument, except
that a toggle takes a value only after an equals sign. The first argument that is no flag ends the
flags, and so do two hyphens alone.
-/
import LazyLambda.Text.Quoted

namespace LazyLambda.Command

/-- A flag that a command knows. -/
structure Flag where
  name : String
  /-- What stands for the value where the flag is explained; a toggle has none. -/
  valueName : Option String
  description : String
  deriving DecidableEq, Inhabited

namespace Flag

/-- Whether the flag is on or off, and has no other value. -/
def isToggle (f : Flag) : Bool := f.valueName.isNone

/-- The lines that explain a flag. -/
def explain (f : Flag) : String :=
  let label := match f.valueName with
    | none => f.name
    | some v => f.name ++ " " ++ v
  s!"  -{label}\n    \t{f.description}\n"

/-- The text that explains the flags of a command. -/
def usage (command : String) (flags : List Flag) : String :=
  s!"Usage of {command}:\n" ++ String.join (flags.map explain)

end Flag

/-! ## Arguments -/

/-- Why arguments cannot be understood. -/
inductive FlagError where
  | badSyntax (arg : String)
  | undefined (name : String)
  | noValue (name : String)
  | badToggle (name value : String)
  | badValue (name value reason : String)
  deriving DecidableEq, Inhabited

/-- The error in words. -/
def FlagError.message : FlagError → String
  | .badSyntax arg => s!"bad flag syntax: {arg}"
  | .undefined name => s!"flag provided but not defined: -{name}"
  | .noValue name => s!"flag needs an argument: -{name}"
  | .badToggle name value => s!"invalid boolean value {Text.quote value} for -{name}: parse error"
  | .badValue name value reason => s!"invalid value {Text.quote value} for flag -{name}: {reason}"

/-- What ends the reading of flags early. -/
inductive Interruption where
  /-- The flags are to be explained. -/
  | help
  | error (e : FlagError)
  deriving DecidableEq, Inhabited

/-- One argument, taken by itself. -/
inductive Argument where
  /-- It is no flag. -/
  | plain
  /-- It ends the flags. -/
  | terminator
  | malformed
  | flag (name : String) (value : Option String)
  deriving DecidableEq, Inhabited

/-- The name and the value of a flag, at the first equals sign that is not at the start. -/
def splitFlag (cs : List Char) : Argument :=
  match cs with
  | [] => .malformed
  | '-' :: _ => .malformed
  | '=' :: _ => .malformed
  | c :: rest =>
    let name := String.ofList (c :: rest.takeWhile (· ≠ '='))
    match rest.dropWhile (· ≠ '=') with
    | [] => .flag name none
    | _ :: value => .flag name (some (String.ofList value))

/-- What an argument is by itself. -/
def Argument.ofString (s : String) : Argument :=
  match s.toList with
  | ['-', '-'] => .terminator
  | '-' :: '-' :: cs => splitFlag cs
  | '-' :: c :: cs => splitFlag (c :: cs)
  | _ => .plain

/-- The truth values that a toggle can be given. -/
def toggleWords : List (String × Bool) :=
  [("1", true), ("t", true), ("T", true), ("TRUE", true), ("true", true), ("True", true),
    ("0", false), ("f", false), ("F", false), ("FALSE", false), ("false", false), ("False", false)]

/-- The value that a flag gets. -/
inductive Setting where
  | toggle (on : Bool)
  | value (text : String)
  deriving DecidableEq, Inhabited

variable {σ : Type}

/-- Reads the flags at the start of some arguments one after another into a state, and gives the state
and the arguments after the flags. `set` takes the value of a flag into the state, or says what is
wrong with it. -/
def readFlags (flags : List Flag) (set : σ → Flag → Setting → Except String σ) (state : σ)
    (args : List String) : Except Interruption (σ × List String) :=
  match args with
  | [] => .ok (state, [])
  | arg :: rest =>
    match Argument.ofString arg with
    | .plain => .ok (state, arg :: rest)
    | .terminator => .ok (state, rest)
    | .malformed => .error (.error (.badSyntax arg))
    | .flag name value =>
      match flags.find? (·.name = name) with
      | none => .error (if name = "help" || name = "h" then .help else .error (.undefined name))
      | some f =>
        let put (setting : Setting) (text : String) :=
          (set state f setting).mapError fun e => Interruption.error (.badValue name text e)
        if f.isToggle then
          match value with
          | none => (put (.toggle true) "true").bind fun s => readFlags flags set s rest
          | some v =>
            match toggleWords.lookup v with
            | none => .error (.error (.badToggle name v))
            | some b => (put (.toggle b) v).bind fun s => readFlags flags set s rest
        else
          match value with
          | some v => (put (.value v) v).bind fun s => readFlags flags set s rest
          | none =>
            match rest with
            | [] => .error (.error (.noValue name))
            | v :: rest' => (put (.value v) v).bind fun s => readFlags flags set s rest'

end LazyLambda.Command
