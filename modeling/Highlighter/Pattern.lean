namespace Highlighter

/-- A place in a text: the character just before it, if there is one, the text after it, and its
byte offset from where matching began. -/
structure Point where
  before : Option Char
  rest : List Char
  offset : Nat
  deriving DecidableEq, Repr

def isWordChar (c : Char) : Bool :=
  c.isAlphanum || c == '_'

namespace Point

/-- The place where matching begins. No character stands before it. -/
def atStart (text : List Char) : Point :=
  ⟨none, text, 0⟩

def isWordBoundary (p : Point) : Bool :=
  p.before.any isWordChar != p.rest.head?.any isWordChar

def advance? (test : Char → Bool) (p : Point) : Option Point :=
  match p.rest with
  | [] => none
  | c :: cs => if test c then some ⟨some c, cs, p.offset + c.utf8Size⟩ else none

end Point

inductive Pattern
  | empty
  | fail
  | one (test : Char → Bool)
  | seq (first second : Pattern)
  | orElse (first second : Pattern)
  /-- As many repetitions as possible, or else fewer. -/
  | greedy (body : Pattern)
  /-- As few repetitions as possible, or else more. -/
  | reluctant (body : Pattern)
  | boundary
  | ahead (body : Pattern)
  | notAhead (body : Pattern)

namespace Pattern

/-- The places after no step, one step and so on while a step moves forward, the last place first,
with `reached` after them. Each step spends one character of the budget. -/
def runs (step : Point → Option Point) : List Char → Point → List Point → List Point
  | [], p, reached => p :: reached
  | _ :: budget, p, reached =>
    match step p with
    | none => p :: reached
    | some q => if p.offset < q.offset then runs step budget q (p :: reached) else p :: reached

/-- The places where a match from `p` can end, the preferred one first. The search is assumed to
have no limit and never gives up. A repetition is assumed to need no more than the preferred match
of its body each time, as where the body has one match at most. -/
def ends : Pattern → Point → List Point
  | empty, p => [p]
  | fail, _ => []
  | one test, p => (p.advance? test).toList
  | seq first second, p => (first.ends p).flatMap second.ends
  | orElse first second, p => first.ends p ++ second.ends p
  | greedy body, p => runs (fun q ↦ (body.ends q).head?) p.rest p []
  | reluctant body, p => (runs (fun q ↦ (body.ends q).head?) p.rest p []).reverse
  | boundary, p => if p.isWordBoundary then [p] else []
  | ahead body, p => if (body.ends p).isEmpty then [] else [p]
  | notAhead body, p => if (body.ends p).isEmpty then [p] else []

def all : List Pattern → Pattern
  | [] => empty
  | [p] => p
  | p :: ps => seq p (all ps)

def any : List Pattern → Pattern
  | [] => fail
  | [p] => p
  | p :: ps => orElse p (any ps)

def char (c : Char) : Pattern :=
  one (· == c)

def literal (word : String) : Pattern :=
  all (word.toList.map char)

def anyWord (words : List String) : Pattern :=
  any (words.map literal)

def greedy1 (body : Pattern) : Pattern :=
  seq body (greedy body)

def optional (body : Pattern) : Pattern :=
  orElse body empty

end Pattern

end Highlighter
