import Highlighter.Token
import Highlighter.State
import Highlighter.Pattern
import Highlighter.Language.Vocabulary

namespace Highlighter

structure Piece where
  pattern : Pattern
  category : Category

/-- A rule matches its pieces one after the other and may then change the mode. -/
structure Rule where
  name : String
  pieces : List Piece
  transition : Option Transition := none

structure RuleMatch where
  rule : Rule
  cuts : List Point

namespace RuleMatch

def finish (m : RuleMatch) (text : List Char) : Point :=
  m.cuts.getLast?.getD (Point.atStart text)

end RuleMatch

/-- The ways to match pieces from `p`, each as the places where its pieces end, the preferred one
first. -/
def cutsOf : List Piece → Point → List (List Point)
  | [], _ => [[]]
  | piece :: pieces, p =>
    (piece.pattern.ends p).flatMap fun q ↦ (cutsOf pieces q).map (q :: ·)

/-- The preferred match at the front of the text. A match of no text does not count. That the search
gives up on a long text is assumed not to happen, so the absence of a match is never an error. -/
def Rule.match? (rule : Rule) (text : List Char) : Option RuleMatch :=
  match cutsOf rule.pieces (Point.atStart text) with
  | [] => none
  | cuts :: _ =>
    let m : RuleMatch := ⟨rule, cuts⟩
    if (m.finish text).offset = 0 then none else some m

namespace Grammar

open Pattern

def whole (name : String) (category : Category) (pattern : Pattern)
    (transition : Option Transition := none) : Rule :=
  ⟨name, [⟨pattern, category⟩], transition⟩

def isLowerStart (c : Char) : Bool :=
  c.isLower || c == '_'

def isUpperStart (c : Char) : Bool :=
  c.isUpper || c == '_'

def isGap (c : Char) : Bool :=
  c == ' ' || c == '\t'

def isHexDigit (c : Char) : Bool :=
  c.isDigit || ('a' ≤ c && c ≤ 'f') || ('A' ≤ c && c ≤ 'F')

def anyOnLine : Pattern :=
  one (· != '\n')

def lineEnd : Pattern :=
  optional (char '\n')

def wordTail : Pattern :=
  greedy (one isWordChar)

def knownWord (words : List String) : Pattern :=
  all [boundary, anyWord words, boundary]

def reference (space : Namespace) : Rule :=
  let qualifier : Piece := ⟨all [boundary, literal space.word], .namespaceName⟩
  let separator : Piece := ⟨literal "::", .operator⟩
  match space.naming with
  | .snake =>
    ⟨"namespace-reference",
      [qualifier, separator, ⟨all [one isLowerStart, wordTail], .functionReference⟩], none⟩
  | .upperSnake =>
    ⟨"namespace-reference",
      [qualifier, separator,
        ⟨all [one isUpperStart, greedy (one fun c ↦ isUpperStart c || c.isDigit), boundary],
          .constantReference⟩], none⟩

def commentRules : List Rule :=
  [whole "line-comment" .comment (all [literal "//", greedy anyOnLine]),
   whole "block-comment" .comment (all [literal "/*", reluctant anyOnLine, literal "*/"]),
   whole "block-comment-open" .comment (all [literal "/*", greedy anyOnLine, lineEnd])
    (some (.push .comment))]

def wordRules : List Rule :=
  [whole "macro" .macroInvocation
    (all [boundary, one isLowerStart, wordTail, char '!', notAhead (char '=')]),
   ⟨"function-definition",
    [⟨all [boundary, literal "fn"], .keyword⟩, ⟨greedy1 (one isGap), .plainText⟩],
    some (.goto .functionName)⟩,
   whole "keyword" .keyword (knownWord Vocabulary.keywords),
   whole "constant" .literalConstant (knownWord Vocabulary.constants),
   whole "variant" .literalConstant (knownWord Vocabulary.variants),
   whole "primitive-type" .typeName (knownWord Vocabulary.primitiveTypes),
   whole "builtin-type" .typeName (knownWord Vocabulary.builtinTypes),
   whole "capitalized-type" .typeName (all [boundary, one Char.isUpper, wordTail, boundary]),
   whole "builtin-function" .builtin (knownWord Vocabulary.builtinFunctions)]

def numberRules : List Rule :=
  [whole "hex-number" .number
    (all [boundary, literal "0x", greedy1 (one fun c ↦ isHexDigit c || c == '_'), boundary]),
   whole "binary-number" .number
    (all [boundary, literal "0b", greedy1 (one fun c ↦ c == '0' || c == '1' || c == '_'),
      boundary]),
   whole "decimal-number" .number
    (all [boundary, one Char.isDigit, greedy (one fun c ↦ c.isDigit || c == '_'), boundary])]

def stringRule : Rule :=
  whole "string" .string
    (all [char '"',
      reluctant (orElse (one fun c ↦ c != '\\' && c != '"' && c != '\n')
        (seq (char '\\') anyOnLine)),
      char '"'])

def callRule : Rule :=
  whole "function-call" .functionReference
    (all [boundary, one isLowerStart, wordTail, ahead (all [greedy (one isGap), char '('])])

def symbolRules : List Rule :=
  [whole "compound-operator" .operator
    (anyWord ["->", "=>", "::", "==", "!=", "<=", ">=", "&&", "||"]),
   whole "operator" .operator (one ("+-*/%&|^!~<>=:".toList.contains ·)),
   whole "bracket-open" .bracketOpen (one (['{', '[', '('].contains ·)),
   whole "bracket-close" .bracketClose (one (['}', ']', ')'].contains ·)),
   whole "punctuation" .punctuation (one ([';', ',', '.'].contains ·))]

def identifierRule : Rule :=
  whole "identifier" .identifier (all [boundary, one isLowerStart, wordTail, boundary])

/-- The rules outside comments. Comments come first, so nothing in a comment is classified
otherwise; words the language knows come before words in general. -/
def startRules : List Rule :=
  commentRules ++ wordRules ++ Namespace.all.map reference ++ numberRules ++
    [stringRule, callRule] ++ symbolRules ++ [identifierRule]

def insideCommentRules : List Rule :=
  [whole "block-comment-close" .comment (all [reluctant anyOnLine, literal "*/"]) (some .pop),
   whole "block-comment-line" .comment (all [greedy anyOnLine, lineEnd])]

def definitionRules : List Rule :=
  [whole "definition-name" .definitionName
    (all [one fun c ↦ c.isAlpha || c == '_', wordTail]) (some (.goto .start)),
   whole "blank" .plainText (greedy1 (one isGap))]

end Grammar

namespace Mode

def rules : Mode → List Rule
  | start => Grammar.startRules
  | comment => Grammar.insideCommentRules
  | functionName => Grammar.definitionRules

/-- The transition taken, with no text consumed, where no rule of the mode matches. -/
def fallThrough : Mode → Option Transition
  | start => none
  | comment => none
  | functionName => some (.goto .start)

def find? (m : Mode) (text : List Char) : Option RuleMatch :=
  m.rules.findSome? (·.match? text)

end Mode

end Highlighter
