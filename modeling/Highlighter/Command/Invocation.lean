import Highlighter.Editor.Host

namespace Highlighter

inductive OutputFormat
  | text
  | json
  deriving DecidableEq, Repr

inductive Source
  | standardInput
  | file (path : String)
  deriving DecidableEq, Repr

inductive Command
  | tokens (source : Source) (host : Option Host) (format : OutputFormat)
  | render (source : Source) (theme : Option String)
  | complete (typed : String) (format : OutputFormat)
  | hover (word : String)
  | language
  | theme (theme : Option String)
  deriving DecidableEq, Repr

inductive Invocation
  | version
  | command (command : Command)
  deriving DecidableEq, Repr

structure Arguments where
  verbose : Bool := false
  options : List (String × String) := []
  positionals : List String := []
  deriving DecidableEq, Repr

namespace Arguments

def addOption (a : Arguments) (name value : String) : Option Arguments :=
  if (a.options.lookup name).isSome then none
  else some ⟨a.verbose, a.options ++ [(name, value)], a.positionals⟩

def addPositional (a : Arguments) (value : String) : Arguments :=
  ⟨a.verbose, a.options, a.positionals ++ [value]⟩

def setVerbose (a : Arguments) : Option Arguments :=
  if a.verbose then none else some ⟨true, a.options, a.positionals⟩

inductive Shape
  | positional
  | endOfOptions
  | verbose
  | long (name : String)
  | assigned (name value : String)
  | unknown
  deriving DecidableEq, Repr

def shapeOf (argument : String) : Shape :=
  match argument.toList with
  | ['-', '-'] => .endOfOptions
  | '-' :: '-' :: rest =>
    match rest.dropWhile (· != '=') with
    | '=' :: value => .assigned (String.ofList (rest.takeWhile (· != '='))) (String.ofList value)
    | _ => if rest = "verbose".toList then .verbose else .long (String.ofList rest)
  | ['-', 'v'] => .verbose
  | '-' :: _ :: _ => .unknown
  | _ => .positional

def isValue (argument : String) : Bool :=
  shapeOf argument = .positional

/-- Reads arguments, given the names of the options that take a value. -/
def readFrom (known : List String) (a : Arguments) : List String → Option Arguments
  | [] => some a
  | argument :: rest =>
    match shapeOf argument with
    | .positional => readFrom known (a.addPositional argument) rest
    | .endOfOptions => some (rest.foldl addPositional a)
    | .verbose => do readFrom known (← a.setVerbose) rest
    | .assigned name value =>
      if known.contains name then do readFrom known (← a.addOption name value) rest else none
    | .long name =>
      match rest with
      | [] => none
      | value :: rest =>
        if known.contains name && isValue value then do
          readFrom known (← a.addOption name value) rest
        else
          none
    | .unknown => none

def path? (a : Arguments) (name : String) : Option (Option String) :=
  match a.options.lookup name with
  | none => some none
  | some "" => none
  | some path => some (some path)

def host? (a : Arguments) : Option (Option Host) :=
  match a.options.lookup "host" with
  | none => some none
  | some name => (Host.ofName? name).map some

def format? (a : Arguments) : Option OutputFormat :=
  match a.options.lookup "format" with
  | none => some .text
  | some "text" => some .text
  | some "json" => some .json
  | some _ => none

def source? (a : Arguments) : Option Source :=
  match a.positionals with
  | ["-"] => some .standardInput
  | [path] => if path = "" then none else some (.file path)
  | _ => none

end Arguments

namespace Command

def read (name : String) (arguments : List String) : Option Command := do
  match name with
  | "tokens" =>
    let a ← Arguments.readFrom ["host", "format"] {} arguments
    return .tokens (← a.source?) (← a.host?) (← a.format?)
  | "render" =>
    let a ← Arguments.readFrom ["theme"] {} arguments
    return .render (← a.source?) (← a.path? "theme")
  | "complete" =>
    let a ← Arguments.readFrom ["format"] {} arguments
    match a.positionals with
    | [] => return .complete "" (← a.format?)
    | [typed] => return .complete typed (← a.format?)
    | _ => none
  | "hover" =>
    let a ← Arguments.readFrom [] {} arguments
    match a.positionals with
    | [word] => return .hover word
    | _ => none
  | "language" =>
    let a ← Arguments.readFrom [] {} arguments
    if a.positionals.isEmpty then return .language else none
  | "theme" =>
    let a ← Arguments.readFrom ["theme"] {} arguments
    if a.positionals.isEmpty then return .theme (← a.path? "theme") else none
  | _ => none

end Command

namespace Invocation

/-- What letters after one dash say before a command: `none` if a letter is unknown or repeated,
otherwise whether the version is asked for. -/
def readLetters (verbose : Bool) : List Char → Option Bool
  | [] => some false
  | 'V' :: _ => some true
  | 'v' :: letters => if verbose then none else readLetters true letters
  | _ :: _ => none

/-- Reads a command line. Asking for the version ends it. -/
def readFrom (verbose : Bool) : List String → Option Invocation
  | [] => none
  | argument :: rest =>
    match argument.toList with
    | '-' :: '-' :: name =>
      if name = "version".toList then some .version
      else if name = "verbose".toList && !verbose then readFrom true rest
      else none
    | '-' :: letter :: letters => do
      if ← readLetters verbose (letter :: letters) then return .version else readFrom true rest
    | _ => (Command.read argument rest).map .command

def read (arguments : List String) : Option Invocation :=
  readFrom false arguments

end Invocation

end Highlighter
