import Highlighter.Proofs.OrderedMap
import Highlighter.Theme.Basic

namespace Highlighter

instance Category.decidableForall {p : Category → Prop} [DecidablePred p] : Decidable (∀ c, p c) :=
  decidable_of_iff (∀ c ∈ all, p c) ⟨fun h c ↦ h c c.mem_all, fun h c _ ↦ h c⟩

namespace Theme

/-- The categories styled by the rule that is exported for a category. -/
def scopeMates (c : Category) : List Category :=
  match Host.monacoScope c with
  | none => []
  | some scope => ruleCategories scope

section ScopeMates

variable {c d : Category}

theorem scopeMates_of_mem : d ∈ scopeMates c → scopeMates d = scopeMates c := by
  revert c d
  decide

theorem mem_scopeMates_self : c ≠ .plainText → c ∈ scopeMates c := by
  revert c
  decide

theorem ne_plainText_of_mem_scopeMates : d ∈ scopeMates c → d ≠ .plainText := by
  revert c d
  decide

theorem nodup_scopeMates (c : Category) : (scopeMates c).Nodup := by
  revert c
  decide

theorem mem_scopeMates_comm (h : d ∈ scopeMates c) : c ∈ scopeMates d := by
  have hne : c ≠ .plainText := by
    rintro rfl
    cases h
  rw [scopeMates_of_mem h]
  exact mem_scopeMates_self hne

/-- Only the two kinds of bracket are mates of one another. -/
theorem eq_or_brackets_of_mem_scopeMates : d ∈ scopeMates c →
    d = c ∨ c = .bracketOpen ∧ d = .bracketClose ∨ c = .bracketClose ∧ d = .bracketOpen := by
  revert c d
  decide

end ScopeMates

def mateEntries (entries : List (Category × Style)) : List (Category × Style) :=
  entries.flatMap fun e ↦ (scopeMates e.1).map fun d ↦ (d, e.2)

theorem keys_mateEntries (entries : List (Category × Style)) :
    (mateEntries entries).map Prod.fst = (entries.map Prod.fst).flatMap scopeMates := by
  induction entries with
  | nil => rfl
  | cons e entries ih =>
    rw [List.map_cons, List.flatMap_cons, ← ih, mateEntries, List.flatMap_cons, List.map_append,
      List.map_map]
    congr 1
    exact List.map_id _

theorem mem_mateEntries {entries : List (Category × Style)} {c : Category} {style : Style} :
    (c, style) ∈ mateEntries entries ↔ ∃ d, (d, style) ∈ entries ∧ c ∈ scopeMates d := by
  simp [mateEntries]

def relay (styles : OrderedMap Category Style) : OrderedMap Category Style :=
  simplicityDark.styles.insertAll (mateEntries styles.entries)

section Keys

/-- Keys whose mates, taken in turn, add nothing to the default keys but these keys in order. -/
def KeysSettled (keys : List Category) : Prop :=
  addKeys simplicityDark.styles.keys (keys.flatMap scopeMates) = keys

theorem KeysSettled.mem_of_mates {keys : List Category} (h : KeysSettled keys) {c d : Category}
    (hc : c ∈ keys) (hd : d ∈ scopeMates c) : d ∈ keys := by
  rw [← h, mem_addKeys]
  exact .inr (List.mem_flatMap.mpr ⟨c, hc, hd⟩)

theorem flatMap_scopeMates_subset (c : Category) :
    (scopeMates c).flatMap scopeMates ⊆ scopeMates c := by
  intro e he
  obtain ⟨d, hd, he⟩ := List.mem_flatMap.mp he
  rwa [scopeMates_of_mem hd] at he

theorem addKeys_flatMap_scopeMates (keys : List Category) (c : Category) :
    addKeys keys ((scopeMates c).flatMap scopeMates) = addKeys keys (scopeMates c) := by
  cases hmates : scopeMates c with
  | nil => rfl
  | cons d mates =>
    have hd : scopeMates d = d :: mates := by
      rw [← hmates]
      exact scopeMates_of_mem (by rw [hmates]; exact List.mem_cons_self)
    have hlater : mates.flatMap scopeMates ⊆ d :: mates := by
      have hsubset := flatMap_scopeMates_subset c
      rw [hmates, List.flatMap_cons] at hsubset
      exact (List.append_subset.mp hsubset).2
    rw [List.flatMap_cons, addKeys_append, hd]
    apply addKeys_of_subset
    intro e he
    exact mem_addKeys.mpr (.inr (hlater he))

/-- A category comes with its mates or not at all. -/
theorem KeysSettled.addMates {keys : List Category} (h : KeysSettled keys) (c : Category) :
    KeysSettled (addKeys keys (scopeMates c)) := by
  by_cases hsome : ∃ d ∈ scopeMates c, d ∈ keys
  · obtain ⟨d, hd, hkeys⟩ := hsome
    have hsubset : scopeMates c ⊆ keys := by
      intro e he
      rw [← scopeMates_of_mem hd] at he
      exact h.mem_of_mates hkeys he
    rwa [addKeys_of_subset hsubset]
  · have hnew : (scopeMates c).filter (· ∉ keys) = scopeMates c := by
      rw [List.filter_eq_self]
      intro d hd
      simpa using fun hkeys ↦ hsome ⟨d, hd, hkeys⟩
    have hkeys : addKeys keys (scopeMates c) = keys ++ scopeMates c := by
      rw [addKeys_of_nodup (nodup_scopeMates c), hnew]
    unfold KeysSettled at h ⊢
    rw [hkeys, List.flatMap_append, addKeys_append, h, addKeys_flatMap_scopeMates, hkeys]

theorem KeysSettled.addAllMates {keys : List Category} (h : KeysSettled keys) (cs : List Category) :
    KeysSettled (addKeys keys (cs.flatMap scopeMates)) := by
  induction cs generalizing keys with
  | nil => exact h
  | cons c cs ih =>
    rw [List.flatMap_cons, addKeys_append]
    exact ih (h.addMates c)

theorem keysSettled_relay (styles : OrderedMap Category Style) :
    KeysSettled (relay styles).keys := by
  have hdefault : KeysSettled simplicityDark.styles.keys := by
    unfold KeysSettled
    decide
  rw [relay, OrderedMap.keys_insertAll, keys_mateEntries]
  exact hdefault.addAllMates _

theorem keys_relay_of_keysSettled {styles : OrderedMap Category Style}
    (h : KeysSettled styles.keys) : (relay styles).keys = styles.keys := by
  rw [relay, OrderedMap.keys_insertAll, keys_mateEntries]
  exact h

end Keys

section Values

variable {styles : OrderedMap Category Style}

def MatesAgree (styles : OrderedMap Category Style) : Prop :=
  ∀ c, ∀ d ∈ scopeMates c, styles.get? d = styles.get? c

theorem matesAgree_iff :
    MatesAgree styles ↔ styles.get? .bracketOpen = styles.get? .bracketClose := by
  constructor
  · intro h
    exact h .bracketClose .bracketOpen (by decide)
  · intro h c d hd
    rcases eq_or_brackets_of_mem_scopeMates hd with rfl | ⟨rfl, rfl⟩ | ⟨rfl, rfl⟩
    · rfl
    · exact h.symm
    · exact h

theorem MatesAgree.insertAll (h : MatesAgree styles) (c : Category) (style : Style) :
    MatesAgree (styles.insertAll ((scopeMates c).map fun d ↦ (d, style))) := by
  have hget : ∀ d, (styles.insertAll ((scopeMates c).map fun d ↦ (d, style))).get? d =
      (if d ∈ scopeMates c then some style else none).or (styles.get? d) := by
    intro d
    apply OrderedMap.get?_insertAll
    intro v
    simp
  intro e d hd
  have hmem : d ∈ scopeMates c ↔ e ∈ scopeMates c := by
    constructor
    · intro hdc
      rw [← scopeMates_of_mem hdc]
      exact mem_scopeMates_comm hd
    · intro hec
      rwa [← scopeMates_of_mem hec]
  rw [hget, hget, h e d hd]
  simp only [hmem]

theorem MatesAgree.insertMates (h : MatesAgree styles) (entries : List (Category × Style)) :
    MatesAgree (styles.insertAll (mateEntries entries)) := by
  induction entries generalizing styles with
  | nil => exact h
  | cons e entries ih =>
    rw [mateEntries, List.flatMap_cons, OrderedMap.insertAll_append]
    exact ih (h.insertAll e.1 e.2)

theorem matesAgree_relay (styles : OrderedMap Category Style) : MatesAgree (relay styles) := by
  apply MatesAgree.insertMates
  exact matesAgree_iff.mpr (by decide)

theorem get?_relay_plainText (styles : OrderedMap Category Style) :
    (relay styles).get? .plainText = none := by
  have hnone : ∀ v, (.plainText, v) ∈ mateEntries styles.entries ↔
      (none : Option Style) = some v := by
    intro v
    rw [mem_mateEntries]
    constructor
    · rintro ⟨d, _, hd⟩
      exact absurd rfl (ne_plainText_of_mem_scopeMates hd)
    · intro h
      cases h
  rw [relay, OrderedMap.get?_insertAll hnone]
  rfl

theorem get?_relay (h : MatesAgree styles) {c : Category} (hc : c ≠ .plainText) :
    (relay styles).get? c = (styles.get? c).or (simplicityDark.styles.get? c) := by
  apply OrderedMap.get?_insertAll
  intro v
  rw [mem_mateEntries]
  constructor
  · rintro ⟨d, hd, hcd⟩
    rw [h d c hcd]
    exact OrderedMap.get?_eq_some_iff.mpr hd
  · intro hv
    exact ⟨c, OrderedMap.get?_eq_some_iff.mp hv, mem_scopeMates_self hc⟩

/-- Exactly the styles that style all the default theme styles, that style no plain text and that
style both brackets alike come back. -/
theorem get?_relay_eq_iff :
    (∀ c, (relay styles).get? c = styles.get? c) ↔
      (∀ c ∈ simplicityDark.styles.keys, (styles.get? c).isSome = true) ∧
        styles.get? .plainText = none ∧ styles.get? .bracketOpen = styles.get? .bracketClose := by
  constructor
  · intro h
    refine ⟨?_, ?_, ?_⟩
    · intro c hc
      rw [← h, OrderedMap.isSome_get?_iff]
      exact OrderedMap.mem_keys_insertAll hc _
    · rw [← h]
      exact get?_relay_plainText styles
    · rw [← h, ← h]
      exact matesAgree_iff.mp (matesAgree_relay styles)
  · rintro ⟨hdefault, hplain, hbrackets⟩ c
    by_cases hc : c = .plainText
    · rw [hc, hplain]
      exact get?_relay_plainText styles
    · rw [get?_relay (matesAgree_iff.mpr hbrackets) hc]
      exact OrderedMap.get?_or_get? hdefault c

theorem relay_relay (styles : OrderedMap Category Style) : relay (relay styles) = relay styles := by
  apply OrderedMap.ext_of_keys
  · exact keys_relay_of_keysSettled (keysSettled_relay styles)
  · apply get?_relay_eq_iff.mpr
    refine ⟨?_, get?_relay_plainText styles, matesAgree_iff.mp (matesAgree_relay styles)⟩
    intro c hc
    rw [OrderedMap.isSome_get?_iff]
    exact OrderedMap.mem_keys_insertAll hc _

end Values

end Theme

end Highlighter
