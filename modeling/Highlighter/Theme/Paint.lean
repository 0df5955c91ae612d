import Highlighter.Theme.Basic
import Highlighter.Token

namespace Highlighter

namespace Terminal

def sequence (codes : List String) : List Char :=
  ['\x1b', '['] ++ (String.intercalate ";" codes).toList ++ ['m']

def reset : List Char :=
  ['\x1b', '[', '0', 'm']

def reopen (opening : List Char) : List Char → List Char
  | '\x1b' :: '[' :: '0' :: 'm' :: cs => reset ++ opening ++ reopen opening cs
  | c :: cs => c :: reopen opening cs
  | [] => []

/-- Shows a part with display codes. Without colours or without a code the part stands bare. -/
def styled (color : Bool) (codes : List String) (part : List Char) : List Char :=
  if !color || codes.isEmpty then part
  else sequence codes ++ reopen (sequence codes) part ++ reset

end Terminal

def Style.codes (s : Style) : List String :=
  (if s.bold then ["1"] else []) ++ (if s.italic then ["3"] else []) ++
    match s.foreground with
    | none => []
    | some color =>
      ["38;2;" ++ toString color.red.toNat ++ ";" ++ toString color.green.toNat ++ ";" ++
        toString color.blue.toNat]

/-- Paints a text line by line, so that no style spans a line feed. -/
def Style.paint (s : Style) (color : Bool) (text : List Char) : List Char :=
  List.intercalate ['\n'] <| (text.splitOn '\n').map fun part ↦
    if part.isEmpty then part else Terminal.styled color s.codes part

namespace Theme

def paintToken (t : Theme) (color : Bool) (source : List Char) (token : Token) : List Char :=
  match t.style? token.category with
  | none => token.text source
  | some style => style.paint color (token.text source)

def paint (t : Theme) (color : Bool) (source : List Char) (tokens : List Token) : List Char :=
  tokens.flatMap (t.paintToken color source)

end Theme

end Highlighter
