import Highlighter.Cursor
import Highlighter.Editor.Binding
import Highlighter.Main
import Highlighter.Scanner.Progress
import Highlighter.Proofs.OrderedMap
import Highlighter.Proofs.Text.Ascii
import Highlighter.Proofs.Text.Lines
import Highlighter.Proofs.Text.Position
import Highlighter.Proofs.Text.Words
import Highlighter.Proofs.Json.RoundTrip
import Highlighter.Proofs.Pattern.Closer
import Highlighter.Proofs.Pattern.Edge
import Highlighter.Proofs.Pattern.Follow
import Highlighter.Proofs.Pattern.Line
import Highlighter.Proofs.Pattern.Literal
import Highlighter.Proofs.Pattern.Number
import Highlighter.Proofs.Pattern.Place
import Highlighter.Proofs.Pattern.Repetition
import Highlighter.Proofs.Pattern.Start
import Highlighter.Proofs.Pattern.Word
import Highlighter.Proofs.Scanner.Brackets
import Highlighter.Proofs.Scanner.Chunks
import Highlighter.Proofs.Scanner.Code
import Highlighter.Proofs.Scanner.Comment
import Highlighter.Proofs.Scanner.CommentTokens
import Highlighter.Proofs.Scanner.Coverage
import Highlighter.Proofs.Scanner.Definition
import Highlighter.Proofs.Scanner.Depth
import Highlighter.Proofs.Scanner.Lexeme
import Highlighter.Proofs.Scanner.Literal
import Highlighter.Proofs.Scanner.Origin
import Highlighter.Proofs.Scanner.Plain
import Highlighter.Proofs.Scanner.Stackless
import Highlighter.Proofs.Scanner.Steps
import Highlighter.Proofs.Scanner.Symbol
import Highlighter.Proofs.Scanner.Turns
import Highlighter.Proofs.Scanner.Word
import Highlighter.Proofs.Scanner.WordEdge
import Highlighter.Proofs.Theme.Color
import Highlighter.Proofs.Theme.Document
import Highlighter.Proofs.Theme.Loaded
import Highlighter.Proofs.Theme.Overlay
import Highlighter.Proofs.Theme.Painting
import Highlighter.Proofs.Theme.Reload
import Highlighter.Proofs.Theme.Scopes
import Highlighter.Proofs.Theme.Terminal
import Highlighter.Proofs.Editor.Indentation
import Highlighter.Proofs.Editor.Runs
import Highlighter.Proofs.Editor.Tokenize
import Highlighter.Proofs.Completion
import Highlighter.Proofs.Cursor
import Highlighter.Proofs.Dump
import Highlighter.Proofs.Hover
