import Highlighter.Proofs.Json.RoundTrip
import Highlighter.Proofs.OrderedMap
import Highlighter.Proofs.Theme.Color
import Highlighter.Theme.Definition

namespace Highlighter

open Json

def Style.writtenRule (s : Style) (scope : String) : ThemeRule :=
  ⟨scope, s.foreground.map fun c ↦ String.ofList c.digits, s.fontStyle⟩

namespace ThemeRule

theorem fieldsLead_ruleFields (s : Style) (scope : String) :
    FieldsLead readField {} (s.ruleFields scope)
      ⟨some scope, s.foreground.map fun c ↦ some (String.ofList c.digits),
        if s.fontStyle = "" then none else some s.fontStyle⟩ := by
  have hfontStyle : FieldsLead readField {}
      (if s.fontStyle = "" then [] else [("fontStyle", .string s.fontStyle)])
      ⟨none, none, if s.fontStyle = "" then none else some s.fontStyle⟩ := by
    split
    · exact .nil _
    · exact .cons (readNew_render (readsAs_string _) "fontStyle" fun x ↦ Fields.mk none none x)
        (.nil _)
  generalize (if s.fontStyle = "" then none else some s.fontStyle) = fontStyle at hfontStyle ⊢
  have htoken : ∀ foreground, FieldsLead readField ⟨none, foreground, fontStyle⟩
      [("token", .string scope)] ⟨some scope, foreground, fontStyle⟩ := by
    intro foreground
    exact .cons (readNew_render (readsAs_string _) "token" fun x ↦ Fields.mk x foreground fontStyle)
      (.nil _)
  refine .append (hfontStyle.append ?_) (htoken _)
  cases s.foreground with
  | none => exact .nil _
  | some c =>
    exact .cons (readNew_render (readsAs_optionalString _) "foreground" fun x ↦
      Fields.mk none x fontStyle) (.nil _)

theorem readsAs_ruleFields (s : Style) (scope : String) :
    ReadsAs ThemeRule.read (.object (s.ruleFields scope)) (s.writtenRule scope) := by
  apply readRecord_render
  intro rest
  have hforeground : (s.foreground.map fun c ↦ some (String.ofList c.digits)).getD none =
      s.foreground.map fun c ↦ String.ofList c.digits := by
    cases s.foreground <;> rfl
  have hfontStyle : (if s.fontStyle = "" then none else some s.fontStyle).getD "" =
      s.fontStyle := by
    split
    · rename_i hempty
      exact hempty.symm
    · rfl
  unfold ThemeRule.ofFields
  rw [readFields_render (fieldsLead_ruleFields s scope)]
  change Except.ok (ThemeRule.mk scope _ _, rest) = _
  rw [hforeground, hfontStyle]
  rfl

end ThemeRule

namespace Theme

def writtenRules (t : Theme) : List ThemeRule :=
  t.styles.entries.filterMap fun (c, style) ↦ (Host.monacoScope c).map style.writtenRule

def writtenColors (t : Theme) : List (String × String) :=
  t.sortedColors.map fun e ↦ (e.1, e.2.render)

theorem forall₂_definitionRules (t : Theme) :
    List.Forall₂ (ReadsAs ThemeRule.read) t.definitionRules t.writtenRules := by
  unfold definitionRules writtenRules
  induction t.styles.entries with
  | nil => exact .nil
  | cons e entries ih =>
    obtain ⟨c, style⟩ := e
    cases hscope : Host.monacoScope c with
    | none => simpa [hscope] using ih
    | some scope => simpa [hscope] using ⟨ThemeRule.readsAs_ruleFields style scope, ih⟩

theorem readsAs_definitionColors (t : Theme) :
    ReadsAs readStringMap
      (.object (t.sortedColors.map fun (key, color) ↦ (key, .string color.render)))
      t.writtenColors := by
  have hread := readsAs_stringMap t.writtenColors
  unfold writtenColors at hread
  rwa [List.map_map] at hread

def writtenDocument (t : Theme) : ThemeDocument :=
  ⟨some t.name, true, t.writtenRules, .ofList t.writtenColors⟩

theorem readsAs_definition (t : Theme) :
    ReadsAs (readRecord "ThemeFile" ThemeDocument.ofFields ThemeDocument.ofItems) t.definition
      t.writtenDocument := by
  have hlead : FieldsLead ThemeDocument.readField {}
      [("base", .string "vs-dark"),
        ("colors", .object (t.sortedColors.map fun (key, color) ↦ (key, .string color.render))),
        ("inherit", .bool true), ("name", .string t.name), ("rules", .array t.definitionRules)]
      ⟨some (some t.name), some true, some t.writtenRules, some t.writtenColors⟩ := by
    -- the base is passed over; the other fields come in the order of their keys
    refine .cons (fun rest ↦ rfl) ?_
    refine .cons (readNew_render t.readsAs_definitionColors "colors"
      (ThemeDocument.Fields.mk none none none)) ?_
    refine .cons (readNew_render (readsAs_bool true) "inherit"
      (ThemeDocument.Fields.mk none · none _)) ?_
    refine .cons (readNew_render (readsAs_optionalString _) "name"
      (ThemeDocument.Fields.mk · _ none _)) ?_
    exact .cons (readNew_render (readsAs_array t.forall₂_definitionRules) "rules"
      (ThemeDocument.Fields.mk _ _ · _)) (.nil _)
  apply readRecord_render
  intro rest
  unfold ThemeDocument.ofFields
  rw [readFields_render hlead]
  rfl

theorem parse_definition (t : Theme) :
    ThemeDocument.parse t.definition.render = .ok t.writtenDocument := by
  have hread := t.readsAs_definition []
  rw [List.append_nil] at hread
  unfold ThemeDocument.parse
  rw [hread]
  rfl

end Theme

end Highlighter
