import Highlighter.Json.Error

namespace Highlighter

inductive ReadFailure
  | notFound
  | isDirectory
  | notDirectory
  | nameTooLong
  | nulInName
  | notText
  | other (reason : String)
  deriving DecidableEq, Repr

def ReadFailure.message : ReadFailure → String
  | notFound => "No such file or directory (os error 2)"
  | isDirectory => "Is a directory (os error 21)"
  | notDirectory => "Not a directory (os error 20)"
  | nameTooLong => "File name too long (os error 36)"
  | nulInName => "file name contained an unexpected NUL byte"
  | notText => "stream did not contain valid UTF-8"
  | other reason => reason

inductive SetupError
  | unreadable (path : String) (failure : ReadFailure)
  | malformedTheme (error : JsonError)
  /-- A colour that cannot be read, with the token or the colour key it is for. -/
  | invalidColor (subject value : String)
  | unknownCategory (token : String)
  | unknownHost (name : String)
  deriving DecidableEq, Repr

namespace SetupError

def message : SetupError → String
  | unreadable path failure => "failed to read " ++ path ++ ": " ++ failure.message
  | malformedTheme error => "invalid theme: " ++ error.message
  | invalidColor subject value =>
    "invalid colour '" ++ value ++ "' for " ++ subject ++ ": expected #RRGGBB"
  | unknownCategory token => "unknown token category '" ++ token ++ "' in theme"
  | unknownHost name =>
    "unknown editor host '" ++ name ++ "' (expected codemirror or monaco)"

def cause? : SetupError → Option String
  | unreadable _ failure => some failure.message
  | malformedTheme error => some error.message
  | invalidColor _ _ => none
  | unknownCategory _ => none
  | unknownHost _ => none

end SetupError

end Highlighter
