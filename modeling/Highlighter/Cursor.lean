import Highlighter.Scanner

namespace Highlighter

structure Cursor where
  pending : List Token
  scanner : Scanner
  deriving DecidableEq, Repr

namespace Cursor

def ofText (text : List Char) (state : ScanState) : Cursor :=
  ⟨[], Scanner.ofText text state⟩

/-- The state of the scanner, which covers the tokens that wait. -/
def state (c : Cursor) : ScanState :=
  c.scanner.state

/-- Delivers a token. The scanner steps only when none waits. -/
def next (c : Cursor) : Option Token × Cursor :=
  match c.pending with
  | t :: ts => (some t, ⟨ts, c.scanner⟩)
  | [] =>
    match c.scanner.step with
    | ([], s) => (none, ⟨[], s⟩)
    | (t :: ts, s) => (some t, ⟨ts, s⟩)

def skip : Nat → Cursor → Nat × Cursor
  | 0, c => (0, c)
  | count + 1, c =>
    match c.next with
    | (none, c) => (0, c)
    | (some _, c) =>
      let (passed, c) := skip count c
      (passed + 1, c)

def drain (c : Cursor) : List Token × Cursor :=
  let (later, s) := c.scanner.run
  (c.pending ++ later, ⟨[], s⟩)

end Cursor

end Highlighter
