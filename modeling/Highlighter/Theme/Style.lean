import Highlighter.Text.Lines
import Highlighter.Theme.Color

namespace Highlighter

structure Style where
  foreground : Option Rgb := none
  bold : Bool := false
  italic : Bool := false
  deriving DecidableEq, Repr

namespace Style

def ofColor (color : Rgb) : Style :=
  ⟨some color, false, false⟩

def mentions (text : String) (word : String) : Bool :=
  (words text.toList).contains word.toList

/-- The style of a font style text: words other than `bold` and `italic` do not matter. -/
def ofFontStyle (foreground : Option Rgb) (fontStyle : String) : Style :=
  ⟨foreground, mentions fontStyle "bold", mentions fontStyle "italic"⟩

def fontStyleText : Bool → Bool → String
  | true, true => "bold italic"
  | true, false => "bold"
  | false, true => "italic"
  | false, false => ""

def fontStyle (s : Style) : String :=
  fontStyleText s.bold s.italic

theorem mentions_bold (bold italic : Bool) :
    mentions (fontStyleText bold italic) "bold" = bold := by
  cases bold <;> cases italic <;> decide

theorem mentions_italic (bold italic : Bool) :
    mentions (fontStyleText bold italic) "italic" = italic := by
  cases bold <;> cases italic <;> decide

theorem ofFontStyle_fontStyle (s : Style) : ofFontStyle s.foreground s.fontStyle = s := by
  obtain ⟨foreground, bold, italic⟩ := s
  simp [ofFontStyle, fontStyle, mentions_bold, mentions_italic]

end Style

end Highlighter
