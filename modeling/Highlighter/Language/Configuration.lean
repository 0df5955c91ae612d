namespace Highlighter

structure Configuration where
  id : String
  aliases : List String
  extensions : List String
  mimeTypes : List String
  lineComment : String
  blockComment : String × String
  brackets : List (Char × Char)
  autoClosingPairs : List (Char × Char)
  surroundingPairs : List (Char × Char)
  electricChars : List Char
  foldingStart : String
  foldingEnd : String

def bracketPairs : List (Char × Char) :=
  [('{', '}'), ('[', ']'), ('(', ')')]

def enclosingPairs : List (Char × Char) :=
  bracketPairs ++ [('"', '"'), ('\'', '\'')]

def configuration : Configuration where
  id := "simplicityhl"
  aliases := ["SimplicityHL", "Simfony", "simplicityhl"]
  extensions := [".simf"]
  mimeTypes := ["text/x-simplicityhl", "text/x-simfony", "text/x-simf"]
  lineComment := "//"
  blockComment := ("/*", "*/")
  brackets := bracketPairs
  autoClosingPairs := enclosingPairs
  surroundingPairs := enclosingPairs
  electricChars := ['{', '}', '[', ']']
  foldingStart := "^\\s*//\\s*#?region\\b"
  foldingEnd := "^\\s*//\\s*#?endregion\\b"

/-- The parts of a path between slashes that name something. A part `.` names the directory it is
in and is left out. -/
def pathParts (path : List Char) : List (List Char) :=
  (path.splitOn '/').filter fun part ↦ part != [] && part != ['.']

/-- The last part of a path, unless the path ends at a parent directory or has no part. -/
def fileName? (path : List Char) : Option (List Char) :=
  (pathParts path).getLast?.filter (· != ['.', '.'])

def Configuration.matchesPath (c : Configuration) (path : String) : Bool :=
  match fileName? path.toList with
  | none => false
  | some name => c.extensions.any fun extension ↦ extension.toList.isSuffixOf name

def defaultSource : String :=
  "// Welcome to Simplicity IDE\n" ++
  "// Write your Simplicity contract here\n" ++
  "\n" ++
  "fn main() \x7b\n" ++
  "    // Example: Simple assertion\n" ++
  "    assert!(true)\n" ++
  "\x7d"

end Highlighter
