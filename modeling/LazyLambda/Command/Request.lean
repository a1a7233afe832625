/-
# LazyLambda.Command.Request — what a command line asks for.
-/
import LazyLambda.Command.Flag
import LazyLambda.Text.Numeral

namespace LazyLambda.Command

/-- What the program can do with what it is given. -/
inductive Verb where
  /-- Print the syntax tree of a module. -/
  | parse
  /-- Evaluate a module. -/
  | eval
  /-- Hold a conversation. -/
  | shell
  deriving DecidableEq, Inhabited

/-- The word for a verb on the command line. -/
def Verb.word : Verb → String
  | .parse => "parse"
  | .eval => "eval"
  | .shell => "repl"

/-- The words that the first argument can be. -/
def commands : List String :=
  ["parse", "eval", "repl", "help", "install-completions", "uninstall-completions"]

/-- What the program says about itself. -/
def help : String :=
  "Usage: lcalc <command> [flags]\n\n" ++
  "Commands:\n" ++
  "  parse                  print the syntax tree of the module read from stdin\n" ++
  "  eval                   evaluate the module read from stdin" ++
  " (default when stdin is not a terminal)\n" ++
  "  repl                   start an interactive session (default when stdin is a terminal)\n" ++
  "  help                   show this help\n" ++
  "  install-completions    install shell completion for lcalc\n" ++
  "  uninstall-completions  remove shell completion for lcalc\n\n" ++
  "Every command accepts -config, -log-level and -color." ++
  " Run 'lcalc help <command>' for its flags.\n"

/-! ## Choosing a command -/

/-- What is to be done, before the flags are read. -/
inductive Choice where
  | help
  | unknown (word : String)
  /-- The completions of words in the system's shell are to be installed or removed. -/
  | completions
  | verb (v : Verb) (args : List String)
  deriving DecidableEq, Inhabited

/-- What a word asks for, with the arguments after it. -/
def chooseWord (word : String) (args : List String) : Choice :=
  match word with
  | "parse" => .verb .parse args
  | "eval" => .verb .eval args
  | "repl" => .verb .shell args
  | "help" | "-h" | "--help" => .help
  | "install-completions" | "uninstall-completions" => .completions
  | _ => .unknown word

/-- What some arguments ask for. Without a command it is the usual one, and help on a command stands for
its own request for help. -/
def choose (usual : Verb) (args : List String) : Choice :=
  match args with
  | [] => .verb usual []
  | word :: rest =>
    if word.toList.head? = some '-' && word ≠ "-h" && word ≠ "--help" then .verb usual args
    else match word, rest with
      | "help", topic :: _ =>
        if commands.contains topic then chooseWord topic ["-h"] else chooseWord word rest
      | _, _ => chooseWord word rest

/-! ## Options -/

/-- What the flags say. Empty texts say nothing. -/
structure Options where
  config : String := ""
  logLevel : String := ""
  color : String := ""
  json : Bool := false
  noPrelude : Bool := false
  libraries : List String := []
  maxSteps : Option Int := none
  deriving DecidableEq, Inhabited

namespace Flag

/-- When to colour. -/
def color : Flag :=
  ⟨"color", some "string", "colorize output: auto, always or never (default from config)"⟩

/-- Where the settings are. -/
def config : Flag :=
  ⟨"config", some "path", "read the configuration from path instead of the XDG config directory"⟩

/-- In which form to print. -/
def json : Flag := ⟨"json", none, "print the tree as JSON"⟩

/-- What to load. -/
def library : Flag := ⟨"lib", some "dir", "load the modules of dir after the prelude (repeatable)"⟩

/-- From which level on to log. -/
def logLevel : Flag :=
  ⟨"log-level", some "level", "log level: trace, debug, info, warn or error (default from config)"⟩

/-- How long to evaluate. -/
def maxSteps : Flag :=
  ⟨"max-steps", some "n", "bound evaluations to n reductions, 0 for none (default from config)"⟩

/-- What not to load. -/
def noPrelude : Flag := ⟨"no-prelude", none, "do not load the bundled library"⟩

end Flag

/-- The flags of a verb, by name. -/
def flagsOf : Verb → List Flag
  | .parse => [.color, .config, .json, .logLevel]
  | _ => [.color, .config, .library, .logLevel, .maxSteps, .noPrelude]

namespace Options

/-- Takes the value of a flag. -/
def set (o : Options) (f : Flag) (setting : Setting) : Except String Options :=
  match f.name, setting with
  | "config", .value v => .ok { o with config := v }
  | "log-level", .value v => .ok { o with logLevel := v }
  | "color", .value v => .ok { o with color := v }
  | "json", .toggle b => .ok { o with json := b }
  | "no-prelude", .toggle b => .ok { o with noPrelude := b }
  | "lib", .value v => .ok { o with libraries := o.libraries ++ [v] }
  | "max-steps", .value v =>
    match (Text.int64? v).filter (0 ≤ ·) with
    | some n => .ok { o with maxSteps := some n }
    | none => .error s!"invalid step count {Text.quote v}"
  | _, _ => .ok o

end Options

/-- The text that explains the flags of a verb. -/
def Verb.usage (v : Verb) : String := Flag.usage v.word (flagsOf v)

/-- Reads the flags of a verb, and gives the options and the arguments after them. -/
def Verb.readOptions (v : Verb) (args : List String) :
    Except Interruption (Options × List String) :=
  readFlags (flagsOf v) Options.set {} args

end LazyLambda.Command
