import Highlighter.Text.Printable

namespace Highlighter

inductive JsonFound
  | null
  | boolean (value : Bool)
  | integer (value : Int)
  /-- A number that is no integer or too large for one, by its written form. -/
  | real (written : String)
  | string (value : List Char)
  | sequence
  | map
  deriving DecidableEq, Repr

inductive JsonWanted
  | string
  | boolean
  | sequence
  | map
  | record (name : String)
  deriving DecidableEq, Repr

inductive JsonError
  | endInValue
  | endInList
  | endInObject
  | endInString
  | expectedIdent
  | expectedValue
  | expectedColon
  | expectedListCommaOrEnd
  | expectedObjectCommaOrEnd
  | keyNotString
  | trailingComma
  | trailingCharacters
  | invalidNumber
  | numberOutOfRange
  | invalidEscape
  | loneSurrogate
  | unpairedSurrogate
  | controlCharacter
  | wrongType (found : JsonFound) (wanted : JsonWanted)
  | missingField (name : String)
  | duplicateField (name : String)
  /-- A record written as an array that ends before a field that must be there. -/
  | tooFewFields (present : Nat) (record : String) (total : Nat)
  deriving DecidableEq, Repr

def marked (word : String) : String :=
  "\x60" ++ word ++ "\x60"

def JsonFound.describe : JsonFound → String
  | null => "null"
  | boolean b => "boolean " ++ marked (if b then "true" else "false")
  | integer n => "integer " ++ marked (toString n)
  | real written => "floating point " ++ marked written
  | string s => "string " ++ String.ofList (quoted s)
  | sequence => "sequence"
  | map => "map"

def JsonWanted.describe : JsonWanted → String
  | string => "a string"
  | boolean => "a boolean"
  | sequence => "a sequence"
  | map => "a map"
  | record name => "struct " ++ name

def JsonError.message : JsonError → String
  | endInValue => "EOF while parsing a value"
  | endInList => "EOF while parsing a list"
  | endInObject => "EOF while parsing an object"
  | endInString => "EOF while parsing a string"
  | expectedIdent => "expected ident"
  | expectedValue => "expected value"
  | expectedColon => "expected " ++ marked ":"
  | expectedListCommaOrEnd => "expected " ++ marked "," ++ " or " ++ marked "]"
  | expectedObjectCommaOrEnd => "expected " ++ marked "," ++ " or " ++ marked "\x7d"
  | keyNotString => "key must be a string"
  | trailingComma => "trailing comma"
  | trailingCharacters => "trailing characters"
  | invalidNumber => "invalid number"
  | numberOutOfRange => "number out of range"
  | invalidEscape => "invalid escape"
  | loneSurrogate => "lone leading surrogate in hex escape"
  | unpairedSurrogate => "unexpected end of hex escape"
  | controlCharacter => "control character (\\u0000-\\u001F) found while parsing a string"
  | wrongType found wanted => "invalid type: " ++ found.describe ++ ", expected " ++ wanted.describe
  | missingField name => "missing field " ++ marked name
  | duplicateField name => "duplicate field " ++ marked name
  | tooFewFields present record total =>
    "invalid length " ++ toString present ++ ", expected struct " ++ record ++ " with " ++
      toString total ++ " elements"

end Highlighter
