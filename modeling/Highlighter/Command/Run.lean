import Highlighter.Command.Files
import Highlighter.Command.Invocation
import Highlighter.Dump
import Highlighter.Hover
import Highlighter.Json.Encoding
import Highlighter.Theme.Definition
import Highlighter.Theme.Paint

namespace Highlighter

inductive CommandError
  | unreadableSource (path : String) (failure : ReadFailure)
  | unreadableInput (failure : ReadFailure)
  | unusableTheme (path : String) (error : SetupError)
  | undocumented (word : String)
  deriving DecidableEq, Repr

namespace CommandError

def quotedText (s : String) : String :=
  String.ofList (quoted s.toList)

def message : CommandError → String
  | unreadableSource path failure =>
    "Failed to read source file: " ++ quotedText path ++ ": " ++ failure.message
  | unreadableInput failure => "Failed to read source from stdin: " ++ failure.message
  | unusableTheme path error =>
    let top := "Failed to load theme " ++ quotedText path ++ ": " ++ error.message
    match error.cause? with
    | none => top
    | some cause => top ++ ": " ++ cause
  | undocumented word => "No documentation for " ++ quotedText word

def report (color : Bool) (e : CommandError) : List Char :=
  Terminal.styled color ["1", "31"] "error".toList ++ (": " ++ e.message ++ "\n").toList

end CommandError

namespace Command

def line (text : List Char) : List Char :=
  text ++ ['\n']

def jsonLines (json : Json) : List Char :=
  line json.pretty

def hostRow (source : List Char) (t : HostToken) : List Char :=
  padLeft 5 (toString t.start).toList ++ ['.', '.'] ++ padRight 5 (toString t.stop).toList ++
    ' ' :: padRight 20 (t.style.getD "-").toList ++ ' ' :: quoted (slice source t.start t.stop)

def tokensOutput (host : Option Host) (format : OutputFormat) (source : List Char) : List Char :=
  match host, format with
  | none, .text => line (dump source (classify source))
  | none, .json => jsonLines (.array ((classify source).map Token.toJson))
  | some host, .text => (host.tokenizeDocument source).flatMap fun t ↦ line (hostRow source t)
  | some host, .json => jsonLines (.array ((host.tokenizeDocument source).map HostToken.toJson))

def renderOutput (color : Bool) (theme : Theme) (source : List Char) : List Char :=
  let painted := theme.paint color source (classify source)
  if source.getLast? = some '\n' then painted else line painted

def completionRow (color : Bool) (c : Completion) : List Char :=
  let kind := padRight 9 c.kind.name.toList
  match c.detail with
  | none => kind ++ ' ' :: c.label.toList
  | some detail =>
    kind ++ ' ' :: padRight 32 c.label.toList ++ ' ' ::
      Terminal.styled color ["2"] detail.toList

def completeOutput (color : Bool) (typed : String) (format : OutputFormat) : List Char :=
  let items := completions typed
  match format with
  | .text => items.flatMap fun c ↦ line (completionRow color c)
  | .json => jsonLines (.array (items.map Completion.toJson))

variable {m : Type → Type} [Monad m]

def readSource (access : Access m) : Source → m (Except CommandError String)
  | .standardInput => do return (← access.inputText).mapError .unreadableInput
  | .file path => do return (← access.fileText path).mapError (.unreadableSource path)

def loadTheme (access : Access m) (path : String) : m (Except SetupError Theme) := do
  match ← access.fileText path with
  | .error failure => return .error (.unreadable path failure)
  | .ok text => return Theme.ofText text.toList

def chooseTheme (access : Access m) : Option String → m (Except CommandError Theme)
  | none => return .ok Theme.simplicityDark
  | some path => do return (← loadTheme access path).mapError (.unusableTheme path)

/-- Carries out a command. A theme is loaded before the source is read. -/
def run (access : Access m) (color : Bool) : Command → m (Except CommandError (List Char))
  | .tokens source host format => do
    match ← readSource access source with
    | .error e => return .error e
    | .ok text => return .ok (tokensOutput host format text.toList)
  | .render source path => do
    match ← chooseTheme access path with
    | .error e => return .error e
    | .ok chosen =>
      match ← readSource access source with
      | .error e => return .error e
      | .ok text => return .ok (renderOutput color chosen text.toList)
  | .complete typed format => return .ok (completeOutput color typed format)
  | .hover word =>
    match Highlighter.hover word with
    | none => return .error (.undocumented word)
    | some contents => return .ok (contents.flatMap fun paragraph ↦ line paragraph.toList)
  | .language => return .ok (jsonLines configuration.toJson)
  | .theme path => do
    match ← chooseTheme access path with
    | .error e => return .error e
    | .ok chosen => return .ok (jsonLines chosen.definition)

end Command

inductive Outcome
  | success (output : List Char)
  | failure (report : List Char)
  | misuse
  deriving DecidableEq, Repr

namespace Outcome

def versionLine : List Char :=
  "simplicityhl-highlight 0.1.0\n".toList

def exitCode : Outcome → Nat
  | success _ => 0
  | failure _ => 1
  | misuse => 2

def ofArguments {m : Type → Type} [Monad m] (access : Access m) (color : Bool)
    (arguments : List String) : m Outcome :=
  match Invocation.read arguments with
  | none => return misuse
  | some .version => return success versionLine
  | some (.command command) => do
    match ← command.run access color with
    | .ok output => return success output
    | .error e => return failure (e.report color)

end Outcome

end Highlighter
