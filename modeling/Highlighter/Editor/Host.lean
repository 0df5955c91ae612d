import Highlighter.Token

namespace Highlighter

inductive Host
  | codeMirror
  | monaco
  deriving DecidableEq, Repr

namespace Host

def name : Host → String
  | codeMirror => "codemirror"
  | monaco => "monaco"

def ofName? (name : String) : Option Host :=
  let folded := name.toList.map Char.toLower
  if folded = "codemirror".toList ∨ folded = "cm".toList then some codeMirror
  else if folded = "monaco".toList then some monaco
  else none

def codeMirrorStyle : Category → Option String
  | .comment => some "comment"
  | .keyword => some "keyword"
  | .literalConstant => some "atom"
  | .typeName => some "builtin"
  | .builtin => some "builtin"
  | .namespaceName => some "builtin"
  | .identifier => some "variable"
  | .functionReference => some "variable-2"
  | .definitionName => some "def"
  | .constantReference => some "variable-3"
  | .number => some "number"
  | .string => some "string"
  | .operator => some "operator"
  | .macroInvocation => some "meta"
  | .bracketOpen => none
  | .bracketClose => none
  | .punctuation => none
  | .plainText => none

def monacoScope : Category → Option String
  | .comment => some "comment"
  | .keyword => some "keyword"
  | .literalConstant => some "constant"
  | .typeName => some "type"
  | .builtin => some "predefined"
  | .namespaceName => some "namespace"
  | .identifier => some "identifier"
  | .functionReference => some "function"
  | .definitionName => some "function.definition"
  | .constantReference => some "variable.witness"
  | .number => some "number"
  | .string => some "string"
  | .operator => some "operator"
  | .bracketOpen => some "delimiter.bracket"
  | .bracketClose => some "delimiter.bracket"
  | .punctuation => some "delimiter"
  | .macroInvocation => some "macro"
  | .plainText => none

def scopeCategories (scope : String) : List Category :=
  Category.all.filter (monacoScope · == some scope)

theorem ofName?_name (h : Host) : ofName? h.name = some h := by
  cases h <;> rfl

end Host

end Highlighter
