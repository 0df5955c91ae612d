import Highlighter.Editor.Host
import Highlighter.Language.Configuration
import Highlighter.Scanner
import Highlighter.Text.Lines

namespace Highlighter

structure HostToken where
  start : Nat
  stop : Nat
  style : Option String
  deriving DecidableEq, Repr

namespace HostToken

def ofToken (style : Category → Option String) (t : Token) : HostToken :=
  ⟨t.start, t.stop, style t.category⟩

def shifted (t : HostToken) (offset : Nat) : HostToken :=
  ⟨t.start + offset, t.stop + offset, t.style⟩

def mergeRuns : List HostToken → List HostToken
  | [] => []
  | t :: ts =>
    match mergeRuns ts with
    | [] => [t]
    | u :: us =>
      if t.style = u.style ∧ t.stop = u.start then ⟨t.start, u.stop, t.style⟩ :: us
      else t :: u :: us

end HostToken

/-- What each host binding offers. A line is read from a state and leaves the state for the next
line, and unless a binding says otherwise its tokens are the classified ones. -/
structure LineTokenizer where
  style : Category → Option String
  tokenizeLine : ScanState → List Char → List HostToken × ScanState :=
    fun state line ↦
      let (tokens, next) := classifyFrom state line
      (tokens.map (HostToken.ofToken style), next)

namespace LineTokenizer

def codeMirror : LineTokenizer where
  style := Host.codeMirrorStyle

def monaco : LineTokenizer where
  style := Host.monacoScope
  tokenizeLine := fun state line ↦
    let (tokens, next) := classifyFrom state line
    (HostToken.mergeRuns (tokens.map (HostToken.ofToken Host.monacoScope)), next)

def tokenizeLines (h : LineTokenizer) (state : ScanState) :
    List (Nat × List Char) → List HostToken
  | [] => []
  | (offset, line) :: more =>
    let (tokens, next) := h.tokenizeLine state line
    tokens.map (·.shifted offset) ++ h.tokenizeLines next more

def tokenizeDocument (h : LineTokenizer) (text : List Char) : List HostToken :=
  h.tokenizeLines {} (withOffsets 0 (lines text))

end LineTokenizer

namespace Host

def style : Host → Category → Option String
  | codeMirror => LineTokenizer.codeMirror.style
  | monaco => LineTokenizer.monaco.style

def tokenizeLine : Host → ScanState → List Char → List HostToken × ScanState
  | codeMirror => LineTokenizer.codeMirror.tokenizeLine
  | monaco => LineTokenizer.monaco.tokenizeLine

/-- A host chosen at run time hands each call on to its binding. -/
def lineTokenizer (host : Host) : LineTokenizer where
  style := host.style
  tokenizeLine := host.tokenizeLine

def tokenizeDocument (host : Host) : List Char → List HostToken :=
  host.lineTokenizer.tokenizeDocument

@[simp]
theorem snd_tokenizeLine (host : Host) (state : ScanState) (line : List Char) :
    (host.tokenizeLine state line).2 = (classifyFrom state line).2 := by
  cases host <;> rfl

end Host

def opensWithCloser (line : List Char) : Bool :=
  match trimStart line with
  | [] => false
  | c :: _ => configuration.brackets.any (·.2 == c)

/-- The column at which a line starts, `step` columns for each bracket that is open. A line that
opens with a closing bracket sits one level shallower. -/
def indentation (s : ScanState) (line : List Char) (step : Nat) : Nat :=
  (if opensWithCloser line then s.depth - 1 else s.depth) * step

def isElectric (c : Char) : Bool :=
  configuration.electricChars.contains c

end Highlighter
