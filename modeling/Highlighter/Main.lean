import Highlighter.Command.Run

namespace Highlighter

/-- The failure behind a system error. Paths through files are told apart from directories by the
error number, which comes with either sign. -/
def readFailure : IO.Error → ReadFailure
  | .noFileOrDirectory _ _ _ => .notFound
  | .inappropriateType _ code _ =>
    if code = 20 ∨ code = 0 - 20 then .notDirectory else .isDirectory
  | e => .other (toString e)

def readText (read : IO ByteArray) : IO (Except ReadFailure String) := do
  try
    return Directory.decode (← read)
  catch e =>
    return .error (readFailure e)

def processAccess : Access IO where
  fileText path := readText (IO.FS.readBinFile path)
  inputText := do readText (← IO.getStdin).readBinToEnd

/-- Whether output is coloured: as the variables `CLICOLOR_FORCE`, `NO_COLOR` and `CLICOLOR` say,
or else on a terminal only. -/
def wantsColor : IO Bool := do
  let isSet (value : Option String) (absent : Bool) : Bool :=
    match value with
    | none => absent
    | some v => v != "0"
  if isSet (← IO.getEnv "CLICOLOR_FORCE") false then return true
  if (← IO.getEnv "NO_COLOR").isSome then return false
  return isSet (← IO.getEnv "CLICOLOR") true && (← (← IO.getStdout).isTty)

end Highlighter

def main (arguments : List String) : IO UInt32 := do
  let outcome ← Highlighter.Outcome.ofArguments Highlighter.processAccess
    (← Highlighter.wantsColor) arguments
  match outcome with
  | .success output => IO.print (String.ofList output)
  | .failure report => IO.eprint (String.ofList report)
  | .misuse => IO.eprintln "error: the arguments cannot be read"
  return outcome.exitCode.toUInt32
