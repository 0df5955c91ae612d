import Highlighter.Json.Reader

namespace Highlighter.Json

inductive Enclosure
  | list
  | object
  deriving DecidableEq, Repr

namespace Enclosure

def closer : Enclosure → Char
  | list => ']'
  | object => '}'

def endError : Enclosure → JsonError
  | list => .endInList
  | object => .endInObject

def commaError : Enclosure → JsonError
  | list => .expectedListCommaOrEnd
  | object => .expectedObjectCommaOrEnd

end Enclosure

def skipToValue : Enclosure → List Char → Except JsonError (List Char)
  | .list, text => .ok text
  | .object, text =>
    match skipBlanks text with
    | [] => .error .endInObject
    | '"' :: rest => do readColon (← skipString rest)
    | _ => .error .keyNotString

def skipScalar (text : List Char) : Except JsonError (List Char) :=
  match text with
  | [] => .error .endInValue
  | c :: rest =>
    if c = 'n' then readIdent ['u', 'l', 'l'] rest
    else if c = 't' then readIdent ['r', 'u', 'e'] rest
    else if c = 'f' then readIdent ['a', 'l', 's', 'e'] rest
    else if c = '-' ∨ c.isDigit then skipNumber text
    else if c = '"' then skipString rest
    else .error .expectedValue

/-- Closes enclosures after a value, until a comma leads to the next value or none is open. -/
def closeEnclosures : List Enclosure → List Char → Except JsonError (List Enclosure × List Char)
  | [], text => .ok ([], text)
  | e :: es, text =>
    match skipBlanks text with
    | [] => .error e.endError
    | c :: rest =>
      if c = ',' then do .ok (e :: es, ← skipToValue e rest)
      else if c = e.closer then closeEnclosures es rest
      else .error e.commaError

def openEnclosure (e : Enclosure) (es : List Enclosure) (text : List Char) :
    Except JsonError (List Enclosure × List Char × Bool) :=
  match skipBlanks text with
  | [] => .error e.endError
  | c :: rest =>
    if c = e.closer then do
      let (es, text) ← closeEnclosures es rest
      .ok (es, text, es.isEmpty)
    else do
      .ok (e :: es, ← skipToValue e (c :: rest), false)

def skipWithin : List Char → List Enclosure → List Char → Except JsonError (List Char)
  | [], _, _ => .error .endInValue
  | _ :: budget, es, text =>
    match skipBlanks text with
    | '[' :: rest => do
      let (es, text, done) ← openEnclosure .list es rest
      if done then .ok text else skipWithin budget es text
    | '{' :: rest => do
      let (es, text, done) ← openEnclosure .object es rest
      if done then .ok text else skipWithin budget es text
    | text => do
      let (es, text) ← closeEnclosures es (← skipScalar text)
      if es.isEmpty then .ok text else skipWithin budget es text

def skipValue (text : List Char) : Except JsonError (List Char) :=
  skipWithin (' ' :: text) [] text

end Highlighter.Json
