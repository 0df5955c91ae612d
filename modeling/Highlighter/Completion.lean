import Highlighter.Language.Catalogue
import Highlighter.Language.Vocabulary

namespace Highlighter

inductive CompletionKind
  | function
  | keyword
  | type
  | snippet
  deriving DecidableEq, Repr

def CompletionKind.name : CompletionKind → String
  | function => "function"
  | keyword => "keyword"
  | type => "type"
  | snippet => "snippet"

structure Completion where
  label : String
  kind : CompletionKind
  insertText : String
  isSnippet : Bool := false
  detail : Option String := none
  documentation : Option String := none
  group : Option JetGroup := none
  deriving DecidableEq, Repr

def startsWith (text typed : String) : Bool :=
  typed.toList.isPrefixOf text.toList

namespace Completion

def ofJet (jet : Jet) : Completion where
  label := jet.qualifiedName
  kind := .function
  insertText := jet.qualifiedName
  detail := some jet.signature
  documentation := some jet.description
  group := some jet.group

def ofWord (kind : CompletionKind) (word : String) : Completion where
  label := word
  kind := kind
  insertText := word

def ofSnippet (snippet : Snippet) : Completion where
  label := snippet.label
  kind := .snippet
  insertText := snippet.template
  isSnippet := true
  documentation := some snippet.description

def wordLists : List (CompletionKind × List String) :=
  [(.keyword, Vocabulary.keywords), (.keyword, Vocabulary.constants),
   (.keyword, Vocabulary.variants), (.type, Vocabulary.primitiveTypes),
   (.type, Vocabulary.builtinTypes), (.function, Vocabulary.builtinFunctions)]

/-- The jets that match, by group and within a group in the order of the catalogue. A jet matches
by its bare or by its qualified name. -/
def jets (typed : String) : List Jet :=
  (Jet.catalogue.filter fun jet ↦ startsWith jet.name typed || startsWith jet.qualifiedName typed)
    |>.mergeSort fun a b ↦ a.group.rank ≤ b.group.rank

def wordsMatching (typed : String) : List Completion :=
  wordLists.flatMap fun (kind, list) ↦ (list.filter (startsWith · typed)).map (ofWord kind)

def snippets (typed : String) : List Snippet :=
  Snippet.all.filter fun snippet ↦ startsWith snippet.label typed

end Completion

def completions (typed : String) : List Completion :=
  (Completion.jets typed).map .ofJet ++ Completion.wordsMatching typed ++
    (Completion.snippets typed).map .ofSnippet

end Highlighter
