namespace Highlighter

/-- A JSON value. The fields of an object are written in their order. -/
inductive Json
  | null
  | bool (value : Bool)
  | count (value : Nat)
  | string (value : String)
  | array (items : List Json)
  | object (fields : List (String × Json))

namespace Json

def ofOption {α : Type} (write : α → Json) : Option α → Json
  | none => null
  | some a => write a

def strings (list : List String) : Json :=
  array (list.map string)

def escapeChar (c : Char) : List Char :=
  if c = '"' then ['\\', '"']
  else if c = '\\' then ['\\', '\\']
  else if c = '\n' then ['\\', 'n']
  else if c = '\r' then ['\\', 'r']
  else if c = '\t' then ['\\', 't']
  else if c = '\x08' then ['\\', 'b']
  else if c = '\x0c' then ['\\', 'f']
  else if c < ' ' then
    ['\\', 'u', '0', '0', Nat.digitChar (c.toNat / 16), Nat.digitChar (c.toNat % 16)]
  else [c]

def renderString (s : String) : List Char :=
  '"' :: (s.toList.flatMap escapeChar ++ ['"'])

mutual

def render : Json → List Char
  | null => "null".toList
  | bool b => (if b then "true" else "false").toList
  | count n => (toString n).toList
  | string s => renderString s
  | array items => '[' :: (renderItems items ++ [']'])
  | object fields => '{' :: (renderFields fields ++ ['}'])

def renderItems : List Json → List Char
  | [] => []
  | [j] => render j
  | j :: js => render j ++ ',' :: renderItems js

def renderFields : List (String × Json) → List Char
  | [] => []
  | [(k, j)] => renderString k ++ ':' :: render j
  | (k, j) :: fs => renderString k ++ ':' :: render j ++ ',' :: renderFields fs

end

def newLine (depth : Nat) : List Char :=
  '\n' :: List.replicate (2 * depth) ' '

mutual

/-- Written with each item and field on a line of its own, inside `depth` levels. Empty arrays and
objects stay on one line. -/
def prettyAt (depth : Nat) : Json → List Char
  | null => "null".toList
  | bool b => (if b then "true" else "false").toList
  | count n => (toString n).toList
  | string s => renderString s
  | array [] => ['[', ']']
  | array (j :: js) => '[' :: (prettyItems (depth + 1) (j :: js) ++ newLine depth ++ [']'])
  | object [] => ['{', '}']
  | object (f :: fs) => '{' :: (prettyFields (depth + 1) (f :: fs) ++ newLine depth ++ ['}'])

def prettyItems (depth : Nat) : List Json → List Char
  | [] => []
  | [j] => newLine depth ++ prettyAt depth j
  | j :: js => newLine depth ++ prettyAt depth j ++ ',' :: prettyItems depth js

def prettyFields (depth : Nat) : List (String × Json) → List Char
  | [] => []
  | [(k, j)] => newLine depth ++ renderString k ++ [':', ' '] ++ prettyAt depth j
  | (k, j) :: fs =>
    newLine depth ++ renderString k ++ [':', ' '] ++ prettyAt depth j ++
      ',' :: prettyFields depth fs

end

def pretty (j : Json) : List Char :=
  j.prettyAt 0

end Json

end Highlighter
