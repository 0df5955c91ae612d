import Highlighter.Text.Printable
import Highlighter.Token

namespace Highlighter

def blanks (n : Nat) : List Char :=
  List.replicate n ' '

def padRight (width : Nat) (text : List Char) : List Char :=
  text ++ blanks (width - text.length)

def padLeft (width : Nat) (text : List Char) : List Char :=
  blanks (width - text.length) ++ text

def centre (width : Nat) (text : List Char) : List Char :=
  let fill := width - text.length
  blanks (fill / 2) ++ text ++ blanks (fill - fill / 2)

structure Position where
  line : Nat := 1
  column : Nat := 1
  deriving DecidableEq, Repr

namespace Position

def advance (p : Position) (c : Char) : Position :=
  if c = '\n' then ⟨p.line + 1, 1⟩ else ⟨p.line, p.column + 1⟩

def advanceOver (p : Position) (text : List Char) : Position :=
  text.foldl advance p

def along (p : Position) : List Char → List Position
  | [] => [p]
  | c :: cs => p :: along (p.advance c) cs

def render (p : Position) : String :=
  toString p.line ++ ":" ++ toString p.column

@[simp]
theorem advanceOver_append (p : Position) (a b : List Char) :
    p.advanceOver (a ++ b) = (p.advanceOver a).advanceOver b :=
  List.foldl_append

end Position

def dumpRow (position : Position) (category : Category) (text : List Char) : List Char :=
  padLeft 6 position.render.toList ++ ' ' :: padRight 18 category.name.toList ++ ' ' :: quoted text

/-- Rows of tokens whose texts lie in `rest`, which starts at byte `offset` of the source and at
`position`. The position moves from token to token. -/
def dumpRowsFrom (position : Position) (offset : Nat) (rest : List Char) :
    List Token → List (List Char)
  | [] => []
  | t :: ts =>
    let position := position.advanceOver (takeBytes (t.start - offset) rest)
    let rest := dropBytes (t.start - offset) rest
    dumpRow position t.category (takeBytes t.length rest) :: dumpRowsFrom position t.start rest ts

def dumpRows (source : List Char) (tokens : List Token) : List (List Char) :=
  dumpRowsFrom {} 0 source tokens

def dump (source : List Char) (tokens : List Token) : List Char :=
  List.intercalate ['\n'] (dumpRows source tokens)

end Highlighter
