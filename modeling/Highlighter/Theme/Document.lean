import Highlighter.Json.Skip
import Highlighter.OrderedMap

namespace Highlighter

structure ThemeRule where
  token : String
  foreground : Option String := none
  fontStyle : String := ""
  deriving DecidableEq, Repr

structure ThemeDocument where
  name : Option String := none
  inherit : Bool := true
  rules : List ThemeRule := []
  colors : OrderedMap String String := .empty
  deriving DecidableEq

namespace Json

def readNew {α : Type} (name : String) (old : Option α)
    (read : List Char → Except JsonError (α × List Char)) (text : List Char) :
    Except JsonError (Option α × List Char) :=
  match old with
  | some _ => .error (.duplicateField name)
  | none => do
    let (a, text) ← read (← readColon text)
    .ok (some a, text)

def skipField (text : List Char) : Except JsonError (List Char) := do
  skipValue (← readColon text)

/-- The next field of a record written as an array, or what stands for it where the array ends. -/
def readNext {α : Type} (first : Bool) (absent : Except JsonError α)
    (read : List Char → Except JsonError (α × List Char)) (text : List Char) :
    Except JsonError (α × List Char) := do
  let (more, text) ← nextItem first text
  if more then read text else .ok (← absent, text)

def readRecord {α : Type} (name : String)
    (fields items : List Char → Except JsonError (α × List Char)) (text : List Char) :
    Except JsonError (α × List Char) :=
  match skipBlanks text with
  | [] => .error .endInValue
  | '{' :: rest => fields rest
  | '[' :: rest => do
    let (a, rest) ← items rest
    .ok (a, ← closeList rest)
  | text => wrongType (.record name) text

end Json

namespace ThemeRule

open Json

structure Fields where
  token : Option String := none
  foreground : Option (Option String) := none
  fontStyle : Option String := none

def readField (s : Fields) (key text : List Char) : Except JsonError (Fields × List Char) := do
  if key = "token".toList then
    let (token, text) ← readNew "token" s.token readStringValue text
    .ok (⟨token, s.foreground, s.fontStyle⟩, text)
  else if key = "foreground".toList then
    let (foreground, text) ← readNew "foreground" s.foreground readOptionalString text
    .ok (⟨s.token, foreground, s.fontStyle⟩, text)
  else if key = "fontStyle".toList then
    let (fontStyle, text) ← readNew "fontStyle" s.fontStyle readStringValue text
    .ok (⟨s.token, s.foreground, fontStyle⟩, text)
  else
    .ok (s, ← skipField text)

def Fields.rule (s : Fields) : Except JsonError ThemeRule :=
  match s.token with
  | none => .error (.missingField "token")
  | some token => .ok ⟨token, s.foreground.getD none, s.fontStyle.getD ""⟩

def ofFields (text : List Char) : Except JsonError (ThemeRule × List Char) := do
  let (s, text) ← readFields readField {} text
  .ok (← s.rule, text)

def ofItems (text : List Char) : Except JsonError (ThemeRule × List Char) := do
  let absent {α : Type} (n : Nat) : Except JsonError α := .error (.tooFewFields n "ThemeRule" 3)
  let (token, text) ← readNext true (absent 0) readStringValue text
  let (foreground, text) ← readNext false (absent 1) readOptionalString text
  let (fontStyle, text) ← readNext false (.ok "") readStringValue text
  .ok (⟨token, foreground, fontStyle⟩, text)

def read : List Char → Except JsonError (ThemeRule × List Char) :=
  readRecord "ThemeRule" ofFields ofItems

end ThemeRule

namespace ThemeDocument

open Json

structure Fields where
  name : Option (Option String) := none
  inherit : Option Bool := none
  rules : Option (List ThemeRule) := none
  colors : Option (List (String × String)) := none

def readField (s : Fields) (key text : List Char) : Except JsonError (Fields × List Char) := do
  if key = "name".toList then
    let (name, text) ← readNew "name" s.name readOptionalString text
    .ok (⟨name, s.inherit, s.rules, s.colors⟩, text)
  else if key = "inherit".toList then
    let (inherit, text) ← readNew "inherit" s.inherit readBoolean text
    .ok (⟨s.name, inherit, s.rules, s.colors⟩, text)
  else if key = "rules".toList then
    let (rules, text) ← readNew "rules" s.rules (readList ThemeRule.read) text
    .ok (⟨s.name, s.inherit, rules, s.colors⟩, text)
  else if key = "colors".toList then
    let (colors, text) ← readNew "colors" s.colors readStringMap text
    .ok (⟨s.name, s.inherit, s.rules, colors⟩, text)
  else
    .ok (s, ← skipField text)

/-- The document of its fields. A document inherits unless it says otherwise. -/
def Fields.document (s : Fields) : ThemeDocument :=
  ⟨s.name.getD none, s.inherit.getD true, s.rules.getD [], .ofList (s.colors.getD [])⟩

def ofFields (text : List Char) : Except JsonError (ThemeDocument × List Char) := do
  let (s, text) ← readFields readField {} text
  .ok (s.document, text)

def ofItems (text : List Char) : Except JsonError (ThemeDocument × List Char) := do
  let (name, text) ←
    readNext true (.error (.tooFewFields 0 "ThemeFile" 4)) readOptionalString text
  let (inherit, text) ← readNext false (.ok true) readBoolean text
  let (rules, text) ← readNext false (.ok []) (readList ThemeRule.read) text
  let (colors, text) ← readNext false (.ok []) readStringMap text
  .ok (⟨name, inherit, rules, .ofList colors⟩, text)

def parse (text : List Char) : Except JsonError ThemeDocument := do
  let (document, rest) ← readRecord "ThemeFile" ofFields ofItems text
  readEnd rest
  .ok document

end ThemeDocument

end Highlighter
