import Highlighter.State
import Highlighter.Text.Bytes

namespace Highlighter

inductive Category
  | comment
  | keyword
  | literalConstant
  | typeName
  | builtin
  | namespaceName
  | identifier
  | functionReference
  | definitionName
  | constantReference
  | number
  | string
  | operator
  | bracketOpen
  | bracketClose
  | punctuation
  | macroInvocation
  | plainText
  deriving DecidableEq, Repr

namespace Category

def all : List Category :=
  [comment, keyword, literalConstant, typeName, builtin, namespaceName, identifier,
    functionReference, definitionName, constantReference, number, string, operator, bracketOpen,
    bracketClose, punctuation, macroInvocation, plainText]

def name : Category → String
  | comment => "comment"
  | keyword => "keyword"
  | literalConstant => "literal-constant"
  | typeName => "type-name"
  | builtin => "builtin"
  | namespaceName => "namespace"
  | identifier => "identifier"
  | functionReference => "function-reference"
  | definitionName => "definition-name"
  | constantReference => "constant-reference"
  | number => "number"
  | string => "string"
  | operator => "operator"
  | bracketOpen => "bracket-open"
  | bracketClose => "bracket-close"
  | punctuation => "punctuation"
  | macroInvocation => "macro-invocation"
  | plainText => "plain-text"

def ofName? (name : String) : Option Category :=
  all.find? (·.name == name)

/-- An opening bracket nests one level deeper and a closing bracket one level shallower. -/
def indentDelta : Category → Int
  | bracketOpen => 1
  | bracketClose => -1
  | _ => 0

def index (c : Category) : Nat :=
  all.idxOf c

theorem mem_all (c : Category) : c ∈ all := by
  cases c <;> decide

theorem ofName?_name (c : Category) : ofName? c.name = some c := by
  cases c <;> rfl

end Category

/-- A classified lexeme. Offsets count bytes of the classified text, and `mode` is the mode the
scanner was in. -/
structure Token where
  start : Nat
  stop : Nat
  category : Category
  mode : Mode
  deriving DecidableEq, Repr

namespace Token

def length (t : Token) : Nat :=
  t.stop - t.start

def isEmpty (t : Token) : Bool :=
  t.start == t.stop

def shifted (t : Token) (offset : Nat) : Token :=
  ⟨t.start + offset, t.stop + offset, t.category, t.mode⟩

def text (t : Token) (source : List Char) : List Char :=
  slice source t.start t.stop

end Token

end Highlighter
