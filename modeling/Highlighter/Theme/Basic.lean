import Highlighter.Editor.Host
import Highlighter.SetupError
import Highlighter.Theme.Document
import Highlighter.Theme.Style

namespace Highlighter

structure Theme where
  name : String
  styles : OrderedMap Category Style
  colors : OrderedMap String Rgb
  deriving DecidableEq

namespace Theme

def defaultName : String :=
  "simplicity-dark"

def defaultStyles : List (Category × Style) :=
  [(.comment, ⟨some ⟨0x6a, 0x99, 0x55⟩, false, true⟩),
   (.keyword, ⟨some ⟨0xc5, 0x86, 0xc0⟩, true, false⟩),
   (.literalConstant, .ofColor ⟨0x56, 0x9c, 0xd6⟩),
   (.typeName, ⟨some ⟨0x4e, 0xc9, 0xb0⟩, true, false⟩),
   (.builtin, .ofColor ⟨0x4e, 0xc9, 0xb0⟩),
   (.namespaceName, .ofColor ⟨0x4e, 0xc9, 0xb0⟩),
   (.functionReference, .ofColor ⟨0xdc, 0xdc, 0xaa⟩),
   (.definitionName, .ofColor ⟨0xdc, 0xdc, 0xaa⟩),
   (.constantReference, ⟨some ⟨0x9c, 0xdc, 0xfe⟩, false, true⟩),
   (.number, .ofColor ⟨0xb5, 0xce, 0xa8⟩),
   (.string, .ofColor ⟨0xce, 0x91, 0x78⟩),
   (.operator, .ofColor ⟨0xd4, 0xd4, 0xd4⟩),
   (.macroInvocation, .ofColor ⟨0xc5, 0x86, 0xc0⟩)]

def defaultColors : List (String × Rgb) :=
  [("editor.background", ⟨0x1e, 0x1e, 0x1e⟩),
   ("editor.foreground", ⟨0xd4, 0xd4, 0xd4⟩),
   ("editor.lineHighlightBackground", ⟨0x2a, 0x2a, 0x2a⟩),
   ("editorCursor.foreground", ⟨0xae, 0xaf, 0xad⟩),
   ("editor.selectionBackground", ⟨0x26, 0x4f, 0x78⟩),
   ("editor.inactiveSelectionBackground", ⟨0x3a, 0x3d, 0x41⟩)]

def simplicityDark : Theme :=
  ⟨defaultName, .ofList defaultStyles, .ofList defaultColors⟩

def blank : Theme :=
  ⟨"", .empty, .empty⟩

def builtin? (name : String) : Option Theme :=
  if name = defaultName then some simplicityDark else none

def style? (t : Theme) (c : Category) : Option Style :=
  t.styles.get? c

def same (a b : Theme) : Bool :=
  a.name == b.name && a.styles.same b.styles && a.colors.same b.colors

/-- The categories a rule is for: the one of that name, or else those of that scope. -/
def ruleCategories (token : String) : List Category :=
  match Category.ofName? token with
  | some c => [c]
  | none => Host.scopeCategories token

def readColor (subject value : String) : Except SetupError Rgb :=
  match Rgb.parse? value.toList with
  | some color => .ok color
  | none => .error (.invalidColor subject value)

def readForeground (subject : String) : Option String → Except SetupError (Option Rgb)
  | none => .ok none
  | some value => do .ok (some (← readColor subject value))

/-- The styles a rule sets. The rule states the whole style of its categories. -/
def ruleStyles (rule : ThemeRule) : Except SetupError (List (Category × Style)) := do
  let categories := ruleCategories rule.token
  if categories.isEmpty then
    .error (.unknownCategory rule.token)
  let foreground ← readForeground rule.token rule.foreground
  .ok (categories.map fun c ↦ (c, Style.ofFontStyle foreground rule.fontStyle))

def layRules (styles : OrderedMap Category Style) :
    List ThemeRule → Except SetupError (OrderedMap Category Style)
  | [] => .ok styles
  | rule :: rules => do layRules (styles.insertAll (← ruleStyles rule)) rules

def layColors (colors : OrderedMap String Rgb) :
    List (String × String) → Except SetupError (OrderedMap String Rgb)
  | [] => .ok colors
  | (key, value) :: more => do layColors (colors.insert key (← readColor key value)) more

def ofDocument (d : ThemeDocument) : Except SetupError Theme := do
  let base := if d.inherit then simplicityDark else blank
  let styles ← layRules base.styles d.rules
  let colors ← layColors base.colors d.colors.entries
  .ok ⟨d.name.getD base.name, styles, colors⟩

def ofText (text : List Char) : Except SetupError Theme :=
  match ThemeDocument.parse text with
  | .ok document => ofDocument document
  | .error error => .error (.malformedTheme error)

end Theme

end Highlighter
