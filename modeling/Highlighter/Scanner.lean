import Highlighter.Grammar
import Highlighter.Text.Lines
import Highlighter.Token

namespace Highlighter

/-- A group of a match: the bytes it took, counted from the front of the match, unless the match
went without it, and the category the rule gives it. -/
structure Group where
  span : Option (Nat × Nat)
  category : Category

namespace RuleMatch

def spanTokens (mode : Mode) (base start stop : Nat) (category : Category) : List Token :=
  if start < stop then [⟨base + start, base + stop, category, mode⟩] else []

/-- The tokens of groups, in order, where the match is read up to `done` and ends at `stop`. What
the groups leave out is plain text. -/
def groupTokens (mode : Mode) (base stop : Nat) : Nat → List Group → List Token
  | done, [] => spanTokens mode base done stop .plainText
  | done, ⟨none, _⟩ :: more => groupTokens mode base stop done more
  | done, ⟨some (first, last), category⟩ :: more =>
    spanTokens mode base done first .plainText ++ spanTokens mode base first last category ++
      groupTokens mode base stop (max done last) more

def groupsOf : Nat → List (Piece × Point) → List Group
  | _, [] => []
  | done, (piece, cut) :: more =>
    ⟨some (done, cut.offset), piece.category⟩ :: groupsOf cut.offset more

def length (m : RuleMatch) : Nat :=
  (m.cuts.getLast?.map (·.offset)).getD 0

def tokens (m : RuleMatch) (mode : Mode) (base : Nat) : List Token :=
  groupTokens mode base m.length 0 (groupsOf 0 (m.rule.pieces.zip m.cuts))

end RuleMatch

namespace ScanState

def nestAll (s : ScanState) (tokens : List Token) : ScanState :=
  tokens.foldl (fun s t ↦ s.nest t.category.indentDelta) s

/-- Falls through from mode to mode, at most `limit` times, until a rule matches or the mode falls
no further. -/
def settle : Nat → ScanState → List Char → ScanState × Option RuleMatch
  | 0, s, text => (s, s.mode.find? text)
  | limit + 1, s, text =>
    match s.mode.find? text with
    | some m => (s, some m)
    | none =>
      match s.mode.fallThrough with
      | none => (s, none)
      | some t => settle limit (s.follow t) text

end ScanState

structure Scanner where
  state : ScanState
  offset : Nat
  rest : List Char
  deriving DecidableEq, Repr

namespace Scanner

def ofText (text : List Char) (state : ScanState) : Scanner :=
  ⟨state, 0, text⟩

/-- How often a step may fall through. No mode falls through to a mode that falls through, so one
would do; one for each mode is always enough. -/
def fallLimit : Nat :=
  Mode.all.length

/-- Takes the match of one rule, or one character as plain text. The tokens of a match carry the
mode the rule belongs to; its transition comes after them. -/
def step (s : Scanner) : List Token × Scanner :=
  match s.rest with
  | [] => ([], s)
  | c :: cs =>
    match s.state.settle fallLimit s.rest with
    | (state, some m) =>
      let finish := m.finish s.rest
      let tokens := m.tokens state.mode s.offset
      (tokens,
        ⟨(state.nestAll tokens).follow? m.rule.transition, s.offset + finish.offset, finish.rest⟩)
    | (state, none) =>
      let stop := s.offset + c.utf8Size
      ([⟨s.offset, stop, .plainText, state.mode⟩], ⟨state, stop, cs⟩)

def runWithin : List Char → Scanner → List Token × Scanner
  | [], s => ([], s)
  | _ :: budget, s =>
    match s.rest with
    | [] => ([], s)
    | _ :: _ =>
      let (tokens, next) := s.step
      let (later, final) := runWithin budget next
      (tokens ++ later, final)

/-- Steps to the end of the text. A step reads at least one character, so the text itself bounds
the number of steps. -/
def run (s : Scanner) : List Token × Scanner :=
  runWithin s.rest s

end Scanner

/-- The tokens of a text read from `state`, and the state after it. -/
def classifyFrom (state : ScanState) (text : List Char) : List Token × ScanState :=
  let (tokens, final) := (Scanner.ofText text state).run
  (tokens, final.state)

def classify (text : List Char) : List Token :=
  (classifyFrom {} text).1

structure ClassifiedLine where
  offset : Nat
  text : List Char
  tokens : List Token
  state : ScanState

def classifyLinesFrom (state : ScanState) : List (Nat × List Char) → List ClassifiedLine
  | [] => []
  | (offset, line) :: more =>
    let (tokens, next) := classifyFrom state line
    ⟨offset, line, tokens.map (·.shifted offset), next⟩ :: classifyLinesFrom next more

def classifyLines (state : ScanState) (text : List Char) : List ClassifiedLine :=
  classifyLinesFrom state (withOffsets 0 (lines text))

end Highlighter
