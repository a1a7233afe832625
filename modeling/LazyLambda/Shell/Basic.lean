/-
# LazyLambda.Shell.Basic — a conversation in lines.

The shell prompts for a line. As long as a parenthesis is open in what has been typed it prompts for
more, and what it then has is one input. Blank inputs and comments are passed over. An input that
starts with a colon is a command; any other is a module, which runs in the session and whose result is
shown.

Commands and modules go into the history, on one line.
-/
import LazyLambda.Module.Parser
import LazyLambda.Session.Run
import LazyLambda.Shell.Lines

namespace LazyLambda.Shell

/-! ## What is shown -/

/-- A piece of output. -/
inductive Output where
  | result (text : String)
  | error (text : String)
  | notice (text : String)
  /-- A notice that there is no such command. It repeats what was typed, stray bytes and all. -/
  | unknown (command : Text)
  /-- Text that ends its own lines and is never coloured. -/
  | plain (text : String)
  deriving DecidableEq, Inhabited

/-- A text in one of the basic colours of terminals. -/
def paint (colored : Bool) (color : Nat) (text : Text) : Text :=
  if colored then .ofString s!"\x1b[3{color}m" ++ text ++ .ofString "\x1b[0m" else text

/-- Errors are red. -/
def red : Nat := 1

/-- Results are green. -/
def green : Nat := 2

/-- Notices are yellow. -/
def yellow : Nat := 3

/-- The text that is written for a piece of output. -/
def Output.render (colored : Bool) : Output → Text
  | .result s => paint colored green (.ofString s) ++ [.char '\n']
  | .error s => paint colored red (.ofString s) ++ [.char '\n']
  | .notice s => paint colored yellow (.ofString s) ++ [.char '\n']
  | .unknown cmd =>
    paint colored yellow (.ofString "unknown command " ++ cmd ++ .ofString ", type :help for help")
      ++ [.char '\n']
  | .plain s => .ofString s

/-- The prompt for a new input. -/
def prompt : String := ">>> "

/-- The prompt for more of an input. -/
def morePrompt : String := "... "

/-- What the shell says about itself. -/
def help : String :=
  "Enter definitions like  name = \\x body  and expressions like  name arg.\n" ++
  "λ can be typed as \\. Parentheses may span several lines.\n" ++
  "Commands:\n" ++
  "  :names   list the defined names\n" ++
  "  :help    show this help\n" ++
  "  :quit    leave (also CTRL-D)\n"

/-! ## Inputs -/

/-- How many more parentheses a text opens than it closes. -/
def openParens (t : Text) : Int :=
  let tokens := (Lexed.ofText t).tokens
  (tokens.countP (·.kind = .lparen) : Int) - tokens.countP (·.kind = .rparen)

/-- The name of the modules that are typed in. -/
def moduleName : String := "<repl>"

/-- What an input comes to: the session after it, what is shown, and what goes into the history. -/
structure Response where
  session : Session
  events : List Event
  output : List Output
  history : Option Text
  quit : Bool

/-- Obeys a command. -/
def command (s : Session) (cmd : Text) : List Output × Bool :=
  match cmd.toString with
  | ":q" | ":quit" => ([], true)
  | ":names" =>
    if s.scope.names.isEmpty then ([.notice "no names defined"], false)
    else ([.plain (String.intercalate " " s.scope.names ++ "\n")], false)
  | ":help" => ([.plain help], false)
  | _ => ([.unknown cmd], false)

/-- Runs a module that was typed in. -/
def evaluate (s : Session) (input : Text) : Session × List Event × Output :=
  match Parser.parse moduleName input with
  | .error fs => (s, [], .error (Fault.messages fs))
  | .ok m =>
    let e := s.run m
    match e.result with
    | .ok t => (e.session, e.events, .result t.inspect)
    | .error err => (e.session, e.events, .error err.message)

/-- An input on one line. -/
def historyItem (input : Text) : Text :=
  input.map fun s => if s = .char '\n' then .char ' ' else s

/-- Responds to an input. -/
def respond (s : Session) (input : Text) : Response :=
  match input.trim with
  | [] => ⟨s, [], [], none, false⟩
  | .char '#' :: _ => ⟨s, [], [], none, false⟩
  | .char ':' :: cmd =>
    let (out, quit) := command s (.char ':' :: cmd)
    ⟨s, [], out, some (historyItem input), quit⟩
  | _ =>
    let (s', events, out) := evaluate s input
    ⟨s', events, [out], some (historyItem input), false⟩

/-! ## Conversations -/

/-- A shell: its session, and what has been typed of an input with open parentheses. -/
structure State where
  session : Session
  pending : Option Text

/-- One prompt, and what happens until the next. -/
structure Turn where
  prompt : String
  events : List Event
  output : List Output

/-- A conversation: its turns, what went into the history, the lines that were not read, the error it
ended with, and the session after it. -/
structure Transcript where
  turns : List Turn
  history : List Text
  left : Nat
  error : Option String
  session : Session

namespace State

/-- The prompt that is due. -/
def prompt (st : State) : String := if st.pending.isNone then Shell.prompt else morePrompt

/-- What has been typed, with one more line. -/
def typed (st : State) (line : Text) : Text :=
  match st.pending with
  | none => line
  | some text => text ++ .char '\n' :: line

/-- What a line comes to: more is needed, or the shell responds. -/
def enter (st : State) (line : Text) : State × Option Response :=
  let text := st.typed line
  if 0 < openParens text then (⟨st.session, some text⟩, none)
  else
    let r := respond st.session text
    (⟨r.session, none⟩, some r)

end State

/-- What is shown at the end of the lines. -/
def Ending.output : Ending → Output
  | .closed => .notice "CTRL-D"
  | .interrupted => .notice "CTRL-C"
  | .broken message => .error message

/-- The error that an ending is. -/
def Ending.error? : Ending → Option String
  | .broken message => some message
  | _ => none

/-- Holds a conversation over some lines that end in the given way. -/
def converse (st : State) (ending : Ending) : List Text → Transcript
  | [] => ⟨[⟨st.prompt, [], [ending.output]⟩], [], 0, ending.error?, st.session⟩
  | line :: rest =>
    match st.enter line with
    | (st', none) =>
      let t := converse st' ending rest
      { t with turns := ⟨st.prompt, [], []⟩ :: t.turns }
    | (st', some r) =>
      let turn : Turn := ⟨st.prompt, r.events, r.output⟩
      if r.quit then ⟨[turn], r.history.toList, rest.length, none, st'.session⟩
      else
        let t := converse st' ending rest
        { t with turns := turn :: t.turns, history := r.history.toList ++ t.history }

/-- Holds a conversation in a session. -/
def run (s : Session) (lines : List Text) (ending : Ending) : Transcript :=
  converse ⟨s, none⟩ ending lines

end LazyLambda.Shell
