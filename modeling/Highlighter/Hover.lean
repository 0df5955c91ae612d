import Highlighter.Language.Catalogue
import Highlighter.Pattern
import Highlighter.Text.Bytes

namespace Highlighter

/-- The jet of a bare name or of a name with one `jet::` before it. -/
def Jet.find? (name : String) : Option Jet :=
  let full := name.toList
  let qualifier := Jet.qualifier.toList
  let bare := if qualifier.isPrefixOf full then full.drop qualifier.length else full
  Jet.catalogue.find? (·.name.toList == bare)

def Jet.hover (jet : Jet) : List String :=
  ["**" ++ jet.qualifiedName ++ "**", "\x60" ++ jet.signature ++ "\x60", jet.description]

def hover (word : String) : Option (List String) :=
  (Jet.find? word).map Jet.hover

structure WordSpan where
  start : Nat
  stop : Nat
  word : List Char
  deriving DecidableEq, Repr

/-- A line cut in three: what stands before a word, backwards, the word, and what stands after. -/
structure WordCut where
  before : List Char
  word : List Char
  after : List Char
  deriving DecidableEq, Repr

namespace WordCut

def around (before after : List Char) : WordCut :=
  ⟨before.dropWhile isWordChar,
    (before.takeWhile isWordChar).reverse ++ after.takeWhile isWordChar,
    after.dropWhile isWordChar⟩

/-- Takes `jet::` before the word into it, or `::` and a word after the word `jet`. The `jet`
before `::` has to be a word of its own. -/
def widen (cut : WordCut) : WordCut :=
  let qualifier := Jet.qualifier.toList.reverse
  let farther := cut.before.drop qualifier.length
  if qualifier.isPrefixOf cut.before && !farther.head?.any isWordChar then
    ⟨farther, Jet.qualifier.toList ++ cut.word, cut.after⟩
  else if cut.word = ['j', 'e', 't'] then
    match cut.after with
    | ':' :: ':' :: c :: after =>
      if isWordChar c then
        ⟨cut.before, cut.word ++ ':' :: ':' :: c :: after.takeWhile isWordChar,
          after.dropWhile isWordChar⟩
      else
        cut
    | _ => cut
  else
    cut

def span (cut : WordCut) : WordSpan :=
  let start := byteLength cut.before
  ⟨start, start + byteLength cut.word, cut.word⟩

end WordCut

/-- The word under byte `column` of a line, jets with their namespace. There is none between
characters that belong to no word, inside a character, or beyond the line. -/
def wordAt (line : List Char) (column : Nat) : Option WordSpan :=
  if isBoundary column line then
    let cut := WordCut.around (takeBytes column line).reverse (dropBytes column line)
    if cut.word.isEmpty then none else some cut.widen.span
  else
    none

end Highlighter
