import Highlighter.Language.Configuration
import Highlighter.SetupError
import Highlighter.Text.Bytes

namespace Highlighter

structure Access (m : Type → Type) where
  fileText : String → m (Except ReadFailure String)
  inputText : m (Except ReadFailure String)

/-- A working directory with files and nothing else in it. -/
structure Directory where
  files : List (String × ByteArray)

namespace Directory

def decode (bytes : ByteArray) : Except ReadFailure String :=
  match String.fromUTF8? bytes with
  | some text => .ok text
  | none => .error .notText

def nameLimit : Nat := 255

def pathLimit : Nat := 4095

def endsInDirectory (path : List Char) : Bool :=
  match (path.splitOn '/').getLast? with
  | some part => part == [] || part == ['.']
  | none => false

def readParts (d : Directory) (name : List Char) (parts : List (List Char)) (inside : Bool) :
    Except ReadFailure String :=
  match d.files.lookup (String.ofList name) with
  | some bytes => if parts.isEmpty && !inside then decode bytes else .error .notDirectory
  | none =>
    if nameLimit < byteLength name then .error .nameTooLong
    else if (name :: parts).all (· == ['.', '.']) then .error .isDirectory
    else .error .notFound

/-- Reads the file at a path. Nothing but directories is found outside this one. -/
def read (d : Directory) (path : String) : Except ReadFailure String :=
  let text := path.toList
  if text.contains '\x00' then .error .nulInName
  else if pathLimit < byteLength text then .error .nameTooLong
  else
    match text, pathParts text with
    | [], _ => .error .notFound
    | _, [] => .error .isDirectory
    | '/' :: _, _ => .error .notFound
    | _, name :: parts => d.readParts name parts (endsInDirectory text)

end Directory

end Highlighter
