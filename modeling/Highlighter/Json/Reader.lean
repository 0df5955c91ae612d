import Highlighter.Json.Number
import Highlighter.Text.Bytes

namespace Highlighter.Json

def isJsonBlank (c : Char) : Bool :=
  c == ' ' || c == '\n' || c == '\t' || c == '\r'

def skipBlanks (text : List Char) : List Char :=
  text.dropWhile isJsonBlank

def readIdent : List Char → List Char → Except JsonError (List Char)
  | [], text => .ok text
  | _ :: _, [] => .error .endInValue
  | c :: cs, d :: text => if c = d then readIdent cs text else .error .expectedIdent

def hexValue? (c : Char) : Option Nat :=
  if c.isDigit then some (c.toNat - '0'.toNat)
  else if 'a' ≤ c ∧ c ≤ 'f' then some (c.toNat - 'a'.toNat + 10)
  else if 'A' ≤ c ∧ c ≤ 'F' then some (c.toNat - 'A'.toNat + 10)
  else none

def readHex4 (text : List Char) : Except JsonError (Nat × List Char) :=
  match text with
  | a :: b :: c :: d :: rest =>
    match hexValue? a, hexValue? b, hexValue? c, hexValue? d with
    | some a, some b, some c, some d => .ok (((a * 16 + b) * 16 + c) * 16 + d, rest)
    | _, _, _, _ => .error .invalidEscape
  | _ => if 4 ≤ byteLength text then .error .invalidEscape else .error .endInString

def isLeadingSurrogate (n : Nat) : Bool :=
  0xd800 ≤ n && n ≤ 0xdbff

def isTrailingSurrogate (n : Nat) : Bool :=
  0xdc00 ≤ n && n ≤ 0xdfff

def joinSurrogates (leading trailing : Nat) : Char :=
  Char.ofNat (0x10000 + (leading - 0xd800) * 0x400 + (trailing - 0xdc00))

/-- The character of a `\u` escape. A leading surrogate needs a trailing one in a second escape. -/
def readCodePoint (text : List Char) : Except JsonError (Char × List Char) := do
  let (n, rest) ← readHex4 text
  if isTrailingSurrogate n then
    .error .loneSurrogate
  else if isLeadingSurrogate n then
    match rest with
    | [] => .error .endInString
    | ['\\'] => .error .endInString
    | '\\' :: 'u' :: rest =>
      let (m, rest) ← readHex4 rest
      if isTrailingSurrogate m then .ok (joinSurrogates n m, rest) else .error .loneSurrogate
    | _ => .error .unpairedSurrogate
  else
    .ok (Char.ofNat n, rest)

def shortEscape? (c : Char) : Option Char :=
  if c = '"' ∨ c = '\\' ∨ c = '/' then some c
  else if c = 'b' then some '\x08'
  else if c = 'f' then some '\x0c'
  else if c = 'n' then some '\n'
  else if c = 'r' then some '\r'
  else if c = 't' then some '\t'
  else none

def readEscape (text : List Char) : Except JsonError (Char × List Char) :=
  match text with
  | [] => .error .endInString
  | 'u' :: rest => readCodePoint rest
  | c :: rest =>
    match shortEscape? c with
    | some d => .ok (d, rest)
    | none => .error .invalidEscape

def readCharsWithin : List Char → List Char → Except JsonError (List Char × List Char)
  | _, [] => .error .endInString
  | [], _ => .error .endInString
  | _ :: budget, c :: rest =>
    if c = '"' then .ok ([], rest)
    else if c = '\\' then do
      let (d, rest) ← readEscape rest
      let (ds, rest) ← readCharsWithin budget rest
      .ok (d :: ds, rest)
    else if c < ' ' then .error .controlCharacter
    else do
      let (cs, rest) ← readCharsWithin budget rest
      .ok (c :: cs, rest)

def readString (text : List Char) : Except JsonError (List Char × List Char) :=
  readCharsWithin text text

/-- Passes over an escape. The code points of two escapes need not fit together. -/
def skipEscape (text : List Char) : Except JsonError (List Char) :=
  match text with
  | [] => .error .endInString
  | 'u' :: rest => do
    let (_, rest) ← readHex4 rest
    .ok rest
  | c :: rest => if (shortEscape? c).isSome then .ok rest else .error .invalidEscape

def skipCharsWithin : List Char → List Char → Except JsonError (List Char)
  | _, [] => .error .endInString
  | [], _ => .error .endInString
  | _ :: budget, c :: rest =>
    if c = '"' then .ok rest
    else if c = '\\' then do skipCharsWithin budget (← skipEscape rest)
    else if c < ' ' then .error .controlCharacter
    else skipCharsWithin budget rest

def skipString (text : List Char) : Except JsonError (List Char) :=
  skipCharsWithin text text

/-- What stands where something else was wanted. Numbers, words and strings are read to describe
them, so an error in one of them comes first. -/
def wrongType {α : Type} (wanted : JsonWanted) (text : List Char) : Except JsonError α :=
  match text with
  | [] => .error .expectedValue
  | c :: rest =>
    if c = 'n' then do
      let _ ← readIdent ['u', 'l', 'l'] rest
      .error (.wrongType .null wanted)
    else if c = 't' then do
      let _ ← readIdent ['r', 'u', 'e'] rest
      .error (.wrongType (.boolean true) wanted)
    else if c = 'f' then do
      let _ ← readIdent ['a', 'l', 's', 'e'] rest
      .error (.wrongType (.boolean false) wanted)
    else if c = '-' ∨ c.isDigit then do
      let (found, _) ← readNumber text
      .error (.wrongType found wanted)
    else if c = '"' then do
      let (s, _) ← readString rest
      .error (.wrongType (.string s) wanted)
    else if c = '[' then .error (.wrongType .sequence wanted)
    else if c = '{' then .error (.wrongType .map wanted)
    else .error .expectedValue

def readStringValue (text : List Char) : Except JsonError (String × List Char) :=
  match skipBlanks text with
  | [] => .error .endInValue
  | '"' :: rest => do
    let (s, rest) ← readString rest
    .ok (String.ofList s, rest)
  | text => wrongType .string text

def readOptionalString (text : List Char) : Except JsonError (Option String × List Char) :=
  match skipBlanks text with
  | [] => .error .endInValue
  | 'n' :: rest => do .ok (none, ← readIdent ['u', 'l', 'l'] rest)
  | text => do
    let (s, rest) ← readStringValue text
    .ok (some s, rest)

def readBoolean (text : List Char) : Except JsonError (Bool × List Char) :=
  match skipBlanks text with
  | [] => .error .endInValue
  | 't' :: rest => do .ok (true, ← readIdent ['r', 'u', 'e'] rest)
  | 'f' :: rest => do .ok (false, ← readIdent ['a', 'l', 's', 'e'] rest)
  | text => wrongType .boolean text

/-- Goes to the next item of a list, if there is one. `first` says that no item came before. At the
closing bracket the text stays where it is. -/
def nextItem (first : Bool) (text : List Char) : Except JsonError (Bool × List Char) :=
  match skipBlanks text with
  | [] => .error .endInList
  | ']' :: rest => .ok (false, ']' :: rest)
  | c :: rest =>
    if first then .ok (true, c :: rest)
    else if c = ',' then
      match skipBlanks rest with
      | [] => .error .endInValue
      | ']' :: _ => .error .trailingComma
      | rest => .ok (true, rest)
    else .error .expectedListCommaOrEnd

def closeList (text : List Char) : Except JsonError (List Char) :=
  match skipBlanks text with
  | [] => .error .endInList
  | ']' :: rest => .ok rest
  | ',' :: rest =>
    match skipBlanks rest with
    | ']' :: _ => .error .trailingComma
    | _ => .error .trailingCharacters
  | _ => .error .trailingCharacters

def nextKey (first : Bool) (text : List Char) :
    Except JsonError (Option (List Char) × List Char) :=
  match skipBlanks text with
  | [] => .error .endInObject
  | '}' :: rest => .ok (none, rest)
  | c :: rest =>
    if first then
      if c = '"' then do
        let (key, rest) ← readString rest
        .ok (some key, rest)
      else .error .keyNotString
    else if c = ',' then
      match skipBlanks rest with
      | [] => .error .endInValue
      | '"' :: rest => do
        let (key, rest) ← readString rest
        .ok (some key, rest)
      | '}' :: _ => .error .trailingComma
      | _ => .error .keyNotString
    else .error .expectedObjectCommaOrEnd

def readColon (text : List Char) : Except JsonError (List Char) :=
  match skipBlanks text with
  | [] => .error .endInObject
  | ':' :: rest => .ok rest
  | _ => .error .expectedColon

def readItemsWithin {α : Type} (item : List Char → Except JsonError (α × List Char)) :
    List Char → Bool → List Char → Except JsonError (List α × List Char)
  | [], _, _ => .error .endInList
  | _ :: budget, first, text => do
    let (more, text) ← nextItem first text
    if more then
      let (a, text) ← item text
      let (as, text) ← readItemsWithin item budget false text
      .ok (a :: as, text)
    else
      .ok ([], ← closeList text)

def readList {α : Type} (item : List Char → Except JsonError (α × List Char))
    (text : List Char) : Except JsonError (List α × List Char) :=
  match skipBlanks text with
  | [] => .error .endInValue
  | '[' :: rest => readItemsWithin item ('[' :: rest) true rest
  | text => wrongType .sequence text

def readFieldsWithin {σ : Type}
    (field : σ → List Char → List Char → Except JsonError (σ × List Char)) :
    List Char → Bool → σ → List Char → Except JsonError (σ × List Char)
  | [], _, _, _ => .error .endInObject
  | _ :: budget, first, s, text => do
    match ← nextKey first text with
    | (none, text) => .ok (s, text)
    | (some key, text) =>
      let (s, text) ← field s key text
      readFieldsWithin field budget false s text

def readFields {σ : Type} (field : σ → List Char → List Char → Except JsonError (σ × List Char))
    (s : σ) (text : List Char) : Except JsonError (σ × List Char) :=
  readFieldsWithin field ('{' :: text) true s text

def readStringMap (text : List Char) : Except JsonError (List (String × String) × List Char) :=
  match skipBlanks text with
  | [] => .error .endInValue
  | '{' :: rest => do
    let (entries, rest) ← readFields (fun entries key text ↦ do
      let (value, text) ← readStringValue (← readColon text)
      .ok ((String.ofList key, value) :: entries, text)) [] rest
    .ok (entries.reverse, rest)
  | text => wrongType .map text

def readEnd (text : List Char) : Except JsonError Unit :=
  if (skipBlanks text).isEmpty then .ok () else .error .trailingCharacters

end Highlighter.Json
