import Highlighter.Completion
import Highlighter.Editor.Binding
import Highlighter.Json.Value
import Highlighter.Language.Configuration

namespace Highlighter

def Token.toJson (t : Token) : Json :=
  .object
    [("start", .count t.start), ("end", .count t.stop), ("category", .string t.category.name),
     ("mode", .string t.mode.name)]

def HostToken.toJson (t : HostToken) : Json :=
  .object
    [("start", .count t.start), ("end", .count t.stop), ("style", Json.ofOption .string t.style)]

def Json.optionalField (key : String) : Option String → List (String × Json)
  | none => []
  | some value => [(key, .string value)]

def Completion.toJson (c : Completion) : Json :=
  .object <|
    [("label", .string c.label), ("kind", .string c.kind.name),
     ("insertText", .string c.insertText), ("isSnippet", .bool c.isSnippet)] ++
    Json.optionalField "detail" c.detail ++
    Json.optionalField "documentation" c.documentation ++
    Json.optionalField "group" (c.group.map JetGroup.name)

def Jet.toJson (jet : Jet) : Json :=
  .object
    [("name", .string jet.name), ("signature", .string jet.signature),
     ("description", .string jet.description), ("group", .string jet.group.name)]

def Snippet.toJson (s : Snippet) : Json :=
  .object
    [("label", .string s.label), ("template", .string s.template),
     ("description", .string s.description)]

def Namespace.toJson (n : Namespace) : Json :=
  .array [.string n.word, .string n.naming.name]

def Json.pairs (list : List (Char × Char)) : Json :=
  .array (list.map fun (a, b) ↦ Json.strings [String.singleton a, String.singleton b])

def Configuration.toJson (c : Configuration) : Json :=
  .object
    [("id", .string c.id),
     ("aliases", Json.strings c.aliases),
     ("extensions", Json.strings c.extensions),
     ("mimeTypes", Json.strings c.mimeTypes),
     ("lineComment", .string c.lineComment),
     ("blockComment", Json.strings [c.blockComment.1, c.blockComment.2]),
     ("brackets", Json.pairs c.brackets),
     ("autoClosingPairs", Json.pairs c.autoClosingPairs),
     ("surroundingPairs", Json.pairs c.surroundingPairs),
     ("electricChars", .string (String.ofList c.electricChars)),
     ("foldingStart", .string c.foldingStart),
     ("foldingEnd", .string c.foldingEnd)]

end Highlighter
