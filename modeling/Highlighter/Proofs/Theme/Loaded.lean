import Highlighter.Proofs.Theme.Overlay
import Highlighter.Proofs.Theme.Reload

namespace Highlighter

namespace Theme

theorem coversDefault_of_ofDocument {d : ThemeDocument} {t : Theme} (h : ofDocument d = .ok t)
    (hinherit : d.inherit = true) : t.CoversDefault := by
  have hsound := exists_ofDocument_eq_ok_iff.mp ⟨t, h⟩
  have hbase : baseOf d = simplicityDark := if_pos hinherit
  rw [ofDocument_of_sound hsound, hbase] at h
  obtain rfl := Except.ok.inj h
  constructor
  · intro c hc
    exact OrderedMap.isSome_get?_iff.mpr (OrderedMap.mem_keys_insertAll hc _)
  · intro key hkey
    exact OrderedMap.isSome_get?_iff.mpr (OrderedMap.mem_keys_insertAll hkey _)

/-- A theme loaded from a document can be exported and loaded. It comes back the same exactly when
it styles no plain text and both brackets alike, and the document inherits or else leaves out
nothing of the default theme. -/
theorem reload_of_ofText (text : List Char) (t : Theme) (h : ofText text = .ok t) :
    ∃ d t', ThemeDocument.parse text = .ok d ∧ t.reload = .ok t' ∧
      (t'.same t = true ↔ (d.inherit = true ∨ t.CoversDefault) ∧
        t.style? .plainText = none ∧ t.style? .bracketOpen = t.style? .bracketClose) := by
  rw [ofText] at h
  cases hparse : ThemeDocument.parse text with
  | error error =>
    rw [hparse] at h
    cases h
  | ok d =>
    rw [hparse] at h
    refine ⟨d, t.reloaded, rfl, t.reload_eq, ?_⟩
    rw [same_reloaded_iff]
    constructor
    · rintro ⟨hcovers, hplain, hbrackets⟩
      exact ⟨.inr hcovers, hplain, hbrackets⟩
    · rintro ⟨hinherit | hcovers, hplain, hbrackets⟩
      · exact ⟨coversDefault_of_ofDocument h hinherit, hplain, hbrackets⟩
      · exact ⟨hcovers, hplain, hbrackets⟩

theorem reload_of_ofText_renamed :
    ofText "\x7b\"name\": \"dusk\"\x7d".toList =
        .ok ⟨"dusk", simplicityDark.styles, simplicityDark.colors⟩ ∧
      ∃ t', reload ⟨"dusk", simplicityDark.styles, simplicityDark.colors⟩ = .ok t' ∧
        t'.same ⟨"dusk", simplicityDark.styles, simplicityDark.colors⟩ = true := by
  have hload : ofText "\x7b\"name\": \"dusk\"\x7d".toList =
      .ok ⟨"dusk", simplicityDark.styles, simplicityDark.colors⟩ := rfl
  obtain ⟨d, t', hparse, hreload, hsame⟩ := reload_of_ofText _ _ hload
  have hinherit : d.inherit = true := by
    obtain rfl := Except.ok.inj hparse
    rfl
  exact ⟨hload, t', hreload, hsame.mpr ⟨.inl hinherit, by decide, by decide⟩⟩

/-- A theme that styles nothing comes back with the styles of the default theme. -/
theorem exists_theme_not_loading_back :
    ¬∀ text t, ofText text = .ok t → ∃ t', t.reload = .ok t' ∧ t'.same t = true := by
  intro hall
  obtain ⟨t', hreload, hsame⟩ :=
    hall "\x7b\"inherit\": false, \"name\": \"x\"\x7d".toList ⟨"x", .empty, .empty⟩ rfl
  rw [reload_eq] at hreload
  obtain rfl := Except.ok.inj hreload
  have hstyled := ((same_reloaded_iff _).mp hsame).styles .comment (by decide)
  cases hstyled

end Theme

end Highlighter
