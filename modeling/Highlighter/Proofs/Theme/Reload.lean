import Highlighter.Proofs.Theme.Document
import Highlighter.Proofs.Theme.Scopes
import Mathlib.Data.List.Sort

namespace Highlighter

namespace Theme

section Colors

def sortedEntries (entries : List (String × Rgb)) : List (String × Rgb) :=
  entries.mergeSort fun a b ↦ a.1 ≤ b.1

def relayColors (colors : OrderedMap String Rgb) : OrderedMap String Rgb :=
  simplicityDark.colors.insertAll (sortedEntries colors.entries)

theorem sortedEntries_perm (entries : List (String × Rgb)) :
    (sortedEntries entries).Perm entries :=
  List.mergeSort_perm entries _

theorem pairwise_keys_sortedEntries (entries : List (String × Rgb)) :
    ((sortedEntries entries).map Prod.fst).Pairwise (· ≤ ·) := by
  rw [List.pairwise_map]
  have htrans : ∀ a b c : String × Rgb, decide (a.1 ≤ b.1) = true → decide (b.1 ≤ c.1) = true →
      decide (a.1 ≤ c.1) = true := by
    intro a b c hab hbc
    exact decide_eq_true (String.le_trans (of_decide_eq_true hab) (of_decide_eq_true hbc))
  have htotal : ∀ a b : String × Rgb, (decide (a.1 ≤ b.1) || decide (b.1 ≤ a.1)) = true := by
    intro a b
    simpa using String.le_total a.1 b.1
  apply (List.pairwise_mergeSort htrans htotal entries).imp
  intro a b
  exact of_decide_eq_true

theorem nodup_keys_sortedEntries (colors : OrderedMap String Rgb) :
    ((sortedEntries colors.entries).map Prod.fst).Nodup :=
  ((sortedEntries_perm colors.entries).map Prod.fst).nodup_iff.mpr colors.nodup

theorem keys_relayColors (colors : OrderedMap String Rgb) :
    (relayColors colors).keys = simplicityDark.colors.keys ++
      ((sortedEntries colors.entries).map Prod.fst).filter (· ∉ simplicityDark.colors.keys) := by
  rw [relayColors, OrderedMap.keys_insertAll, addKeys_of_nodup (nodup_keys_sortedEntries colors)]

theorem get?_relayColors (colors : OrderedMap String Rgb) (key : String) :
    (relayColors colors).get? key = (colors.get? key).or (simplicityDark.colors.get? key) := by
  apply OrderedMap.get?_insertAll
  intro v
  rw [(sortedEntries_perm colors.entries).mem_iff]
  exact OrderedMap.get?_eq_some_iff.symm

theorem get?_relayColors_eq_iff {colors : OrderedMap String Rgb} :
    (∀ key, (relayColors colors).get? key = colors.get? key) ↔
      ∀ key ∈ simplicityDark.colors.keys, (colors.get? key).isSome = true := by
  constructor
  · intro h key hkey
    rw [← h, OrderedMap.isSome_get?_iff]
    exact OrderedMap.mem_keys_insertAll hkey _
  · intro h key
    rw [get?_relayColors]
    exact OrderedMap.get?_or_get? h key

theorem relayColors_relayColors (colors : OrderedMap String Rgb) :
    relayColors (relayColors colors) = relayColors colors := by
  apply OrderedMap.ext_of_keys
  · -- the keys that the default theme lacks come in ascending order both times
    rw [keys_relayColors, keys_relayColors colors]
    congr 1
    have hperm : (((sortedEntries (relayColors colors).entries).map Prod.fst).filter
        (· ∉ simplicityDark.colors.keys)).Perm
        (((sortedEntries colors.entries).map Prod.fst).filter
          (· ∉ simplicityDark.colors.keys)) := by
      have hkeys := ((sortedEntries_perm (relayColors colors).entries).map Prod.fst).filter
        (· ∉ simplicityDark.colors.keys)
      have hnone : simplicityDark.colors.keys.filter (· ∉ simplicityDark.colors.keys) = [] := by
        simp [List.filter_eq_nil_iff]
      change (List.filter _ _).Perm ((relayColors colors).keys.filter _) at hkeys
      rw [keys_relayColors, List.filter_append, hnone, List.nil_append] at hkeys
      simpa using hkeys
    refine hperm.eq_of_pairwise ?_ ((pairwise_keys_sortedEntries _).filter _)
      ((pairwise_keys_sortedEntries _).filter _)
    intro a b _ _
    exact String.le_antisymm
  · apply get?_relayColors_eq_iff.mpr
    intro key hkey
    rw [OrderedMap.isSome_get?_iff]
    exact OrderedMap.mem_keys_insertAll hkey _

end Colors

section Reading

theorem readForeground_written (subject : String) (foreground : Option Rgb) :
    readForeground subject (foreground.map fun c ↦ String.ofList c.digits) = .ok foreground := by
  cases foreground with
  | none => rfl
  | some c =>
    have hread : readColor subject (String.ofList c.digits) = .ok c := by
      rw [readColor, String.toList_ofList, Rgb.parse?_digits]
    change (do Except.ok (some (← readColor subject (String.ofList c.digits)))) = _
    rw [hread]
    rfl

theorem ruleStyles_writtenRule {c : Category} {scope : String} (h : Host.monacoScope c = some scope)
    (style : Style) :
    ruleStyles (style.writtenRule scope) = .ok ((scopeMates c).map fun d ↦ (d, style)) := by
  have hmates : scopeMates c = ruleCategories scope := by
    rw [scopeMates, h]
  have hne : c ≠ .plainText := by
    rintro rfl
    cases h
  have hsome : (ruleCategories scope).isEmpty = false := by
    rw [← hmates, List.isEmpty_eq_false_iff_exists_mem]
    exact ⟨c, mem_scopeMates_self hne⟩
  unfold ruleStyles Style.writtenRule
  rw [hmates, readForeground_written]
  simp only [hsome, Bool.false_eq_true, if_false]
  change Except.ok ((ruleCategories scope).map fun c ↦
    (c, Style.ofFontStyle style.foreground style.fontStyle)) = _
  rw [Style.ofFontStyle_fontStyle]

theorem layRules_written (entries : List (Category × Style)) (styles : OrderedMap Category Style) :
    layRules styles (entries.filterMap fun (c, style) ↦
        (Host.monacoScope c).map style.writtenRule) =
      .ok (styles.insertAll (mateEntries entries)) := by
  induction entries generalizing styles with
  | nil => rfl
  | cons e entries ih =>
    obtain ⟨c, style⟩ := e
    rw [mateEntries, List.flatMap_cons, OrderedMap.insertAll_append, ← mateEntries]
    cases hscope : Host.monacoScope c with
    | none =>
      have hmates : scopeMates c = [] := by
        rw [scopeMates, hscope]
      simp only [List.filterMap_cons, hscope, Option.map_none, hmates]
      exact ih styles
    | some scope =>
      rw [← ih]
      simp only [List.filterMap_cons, hscope, Option.map_some, layRules,
        ruleStyles_writtenRule hscope]
      rfl

theorem layColors_written (entries : List (String × Rgb)) (colors : OrderedMap String Rgb) :
    layColors colors (entries.map fun e ↦ (e.1, e.2.render)) = .ok (colors.insertAll entries) := by
  induction entries generalizing colors with
  | nil => rfl
  | cons e entries ih =>
    have hread : readColor e.1 e.2.render = .ok e.2 := by
      rw [readColor, Rgb.parse?_render]
    rw [List.map_cons, layColors, hread]
    exact ih (colors.insert e.1 e.2)

end Reading

def reloaded (t : Theme) : Theme :=
  ⟨t.name, relay t.styles, relayColors t.colors⟩

theorem ofDocument_writtenDocument (t : Theme) :
    ofDocument t.writtenDocument = .ok t.reloaded := by
  have hcolors : (OrderedMap.ofList t.writtenColors).entries = t.writtenColors := by
    apply OrderedMap.entries_ofList
    rw [writtenColors, List.map_map]
    exact nodup_keys_sortedEntries t.colors
  change (do
    let styles ← layRules simplicityDark.styles t.writtenRules
    let colors ← layColors simplicityDark.colors (OrderedMap.ofList t.writtenColors).entries
    Except.ok (Theme.mk t.name styles colors)) = _
  rw [hcolors, writtenRules, layRules_written, writtenColors, layColors_written]
  rfl

theorem reload_eq (t : Theme) : t.reload = .ok t.reloaded := by
  rw [reload, ofText, parse_definition]
  exact ofDocument_writtenDocument t

theorem reloaded_reloaded (t : Theme) : t.reloaded.reloaded = t.reloaded := by
  rw [reloaded, reloaded, relay_relay, relayColors_relayColors]

def reloads : Nat → Theme → Except SetupError Theme
  | 0, t => .ok t
  | n + 1, t => do reloads n (← t.reload)

theorem reloads_of_reload_eq {t : Theme} (h : t.reload = .ok t) (n : Nat) :
    t.reloads n = .ok t := by
  induction n with
  | zero => rfl
  | succ n ih =>
    rw [reloads, h]
    exact ih

structure CoversDefault (t : Theme) : Prop where
  styles : ∀ c ∈ simplicityDark.styles.keys, (t.style? c).isSome = true
  colors : ∀ key ∈ simplicityDark.colors.keys, (t.colors.get? key).isSome = true

/-- A theme that its definition says all about: laying it over the default theme adds nothing, it
has no style for the category without a scope, and one style for the two of one scope. -/
structure LoadsBack (t : Theme) : Prop extends CoversDefault t where
  plainText : t.style? .plainText = none
  brackets : t.style? .bracketOpen = t.style? .bracketClose

theorem same_reloaded_iff (t : Theme) : t.reloaded.same t = true ↔ t.LoadsBack := by
  have hname : (t.reloaded.name == t.name) = true := beq_self_eq_true t.name
  unfold same
  rw [hname, Bool.true_and, Bool.and_eq_true, OrderedMap.same_iff, OrderedMap.same_iff]
  change (∀ c, (relay t.styles).get? c = t.styles.get? c) ∧
    (∀ key, (relayColors t.colors).get? key = t.colors.get? key) ↔ _
  rw [get?_relay_eq_iff, get?_relayColors_eq_iff]
  constructor
  · rintro ⟨⟨hstyles, hplain, hbrackets⟩, hcolors⟩
    exact ⟨⟨hstyles, hcolors⟩, hplain, hbrackets⟩
  · rintro ⟨⟨hstyles, hcolors⟩, hplain, hbrackets⟩
    exact ⟨⟨hstyles, hplain, hbrackets⟩, hcolors⟩

/-- Any theme can be exported and loaded. Doing so again and again changes nothing after the first
time, not even an order, and changes nothing at all in the themes that load back. -/
theorem reload_settles (t : Theme) :
    ∃ t', t.reload = .ok t' ∧ t'.reload = .ok t' ∧ (∀ n, t.reloads (n + 1) = .ok t') ∧
      (t'.same t = true ↔ t.LoadsBack) := by
  have hsettled : t.reloaded.reload = .ok t.reloaded := by
    rw [reload_eq, reloaded_reloaded]
  refine ⟨t.reloaded, t.reload_eq, hsettled, ?_, t.same_reloaded_iff⟩
  intro n
  rw [reloads, reload_eq]
  exact reloads_of_reload_eq hsettled n

end Theme

end Highlighter
