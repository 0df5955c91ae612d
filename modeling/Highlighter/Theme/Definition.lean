import Highlighter.Json.Value
import Highlighter.Theme.Basic

namespace Highlighter

namespace Style

def ruleFields (s : Style) (scope : String) : List (String × Json) :=
  let fontStyle := if s.fontStyle = "" then [] else [("fontStyle", Json.string s.fontStyle)]
  let foreground :=
    match s.foreground with
    | none => []
    | some color => [("foreground", Json.string (String.ofList color.digits))]
  fontStyle ++ foreground ++ [("token", Json.string scope)]

def toJson (s : Style) : Json :=
  .object
    [("foreground", Json.ofOption (fun color ↦ .string color.render) s.foreground),
     ("bold", .bool s.bold), ("italic", .bool s.italic)]

end Style

namespace Theme

def definitionRules (t : Theme) : List Json :=
  t.styles.entries.filterMap fun (c, style) ↦
    (Host.monacoScope c).map fun scope ↦ .object (style.ruleFields scope)

def sortedColors (t : Theme) : List (String × Rgb) :=
  t.colors.entries.mergeSort fun a b ↦ a.1 ≤ b.1

/-- The definition of a theme. Its keys are in ascending order. -/
def definition (t : Theme) : Json :=
  .object
    [("base", .string "vs-dark"),
     ("colors", .object (t.sortedColors.map fun (key, color) ↦ (key, .string color.render))),
     ("inherit", .bool true),
     ("name", .string t.name),
     ("rules", .array t.definitionRules)]

def reload (t : Theme) : Except SetupError Theme :=
  ofText t.definition.render

def toJson (t : Theme) : Json :=
  .object
    [("name", .string t.name),
     ("styles", .object (t.styles.entries.map fun (c, style) ↦ (c.name, style.toJson))),
     ("colors", .object (t.colors.entries.map fun (key, color) ↦ (key, .string color.render)))]

end Theme

end Highlighter
