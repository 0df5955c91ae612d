import Highlighter.Proofs.OrderedMap
import Highlighter.Proofs.Text.Words
import Highlighter.Theme.Basic

namespace Highlighter

/-- The error of the first member at fault, behind members that are good. -/
def Earliest {α : Type} (good : α → Prop) (fault : α → SetupError → Prop) (l : List α)
    (e : SetupError) : Prop :=
  ∃ before a after, l = before ++ a :: after ∧ (∀ b ∈ before, good b) ∧ fault a e

theorem forall_or_earliest {α : Type} {good : α → Prop} {fault : α → SetupError → Prop}
    (h : ∀ a, good a ∨ ∃ e, fault a e) (l : List α) :
    (∀ a ∈ l, good a) ∨ ∃ e, Earliest good fault l e := by
  induction l with
  | nil => exact .inl fun _ ha ↦ by cases ha
  | cons a l ih =>
    rcases h a with ha | ⟨e, ha⟩
    · rcases ih with hl | ⟨e, before, b, after, rfl, hbefore, hb⟩
      · exact .inl (List.forall_mem_cons.mpr ⟨ha, hl⟩)
      · exact .inr ⟨e, a :: before, b, after, rfl, List.forall_mem_cons.mpr ⟨ha, hbefore⟩, hb⟩
    · exact .inr ⟨e, [], a, l, rfl, fun _ hb ↦ (by cases hb), ha⟩

def IsColor (value : String) : Prop :=
  ∃ color, Rgb.parse? value.toList = some color

namespace ThemeRule

/-- The token is the name of the category, or no category has that name and it is its scope. -/
def Concerns (r : ThemeRule) (c : Category) : Prop :=
  r.token = c.name ∨ (∀ d : Category, r.token ≠ d.name) ∧ Host.monacoScope c = some r.token

def Known (r : ThemeRule) : Prop :=
  ∃ c : Category, r.token = c.name ∨ Host.monacoScope c = some r.token

structure Sound (r : ThemeRule) : Prop where
  known : r.Known
  foreground : ∀ value ∈ r.foreground, IsColor value

/-- What is wrong with a rule. The token is looked at before the foreground. -/
inductive Fault (r : ThemeRule) : SetupError → Prop
  | unknownCategory (h : ¬r.Known) : Fault r (.unknownCategory r.token)
  | invalidColor {value : String} (hknown : r.Known) (hvalue : r.foreground = some value)
      (h : ¬IsColor value) : Fault r (.invalidColor r.token value)

end ThemeRule

namespace ThemeDocument

def Sound (d : ThemeDocument) : Prop :=
  (∀ r ∈ d.rules, r.Sound) ∧ ∀ e ∈ d.colors.entries, IsColor e.2

/-- The error of the first rule at fault or else, where the rules are sound, of the first colour at
fault. -/
def FirstFault (d : ThemeDocument) (e : SetupError) : Prop :=
  Earliest ThemeRule.Sound ThemeRule.Fault d.rules e ∨
    (∀ r ∈ d.rules, r.Sound) ∧
      Earliest (fun c ↦ IsColor c.2) (fun c e ↦ ¬IsColor c.2 ∧ e = .invalidColor c.1 c.2)
        d.colors.entries e

end ThemeDocument

/-- The theme is the document laid over the default theme, or over nothing. What is there already
keeps its place, and what is new follows in the order of the document. -/
structure Theme.Overlays (t : Theme) (d : ThemeDocument) : Prop where
  name : t.name = d.name.getD (if d.inherit then defaultName else "")
  style_of_last_rule : ∀ before r after c, d.rules = before ++ r :: after → r.Concerns c →
    (∀ s ∈ after, ¬s.Concerns c) → ∃ style, t.style? c = some style ∧
      style.foreground = r.foreground.bind (Rgb.parse? ·.toList) ∧
      (style.bold = true ↔ IsWordOf "bold".toList r.fontStyle.toList) ∧
      (style.italic = true ↔ IsWordOf "italic".toList r.fontStyle.toList)
  style_without_rule : ∀ c, (∀ r ∈ d.rules, ¬r.Concerns c) →
    t.style? c = if d.inherit then simplicityDark.style? c else none
  color : ∀ key, t.colors.get? key =
    ((d.colors.get? key).bind (Rgb.parse? ·.toList)).or
      (if d.inherit then simplicityDark.colors.get? key else none)
  style_keys : t.styles.keys = addKeys (if d.inherit then simplicityDark.styles.keys else [])
    (d.rules.flatMap fun r ↦ ruleCategories r.token)
  color_keys : t.colors.keys =
    addKeys (if d.inherit then simplicityDark.colors.keys else []) d.colors.keys

theorem IsColor.readColor {value : String} (h : IsColor value) (subject : String) :
    ∃ color, Rgb.parse? value.toList = some color ∧ Theme.readColor subject value = .ok color := by
  obtain ⟨color, hcolor⟩ := h
  exact ⟨color, hcolor, by rw [Theme.readColor, hcolor]⟩

theorem readColor_of_not_isColor {subject value : String} (h : ¬IsColor value) :
    Theme.readColor subject value = .error (.invalidColor subject value) := by
  have hnone : Rgb.parse? value.toList = none :=
    Option.eq_none_iff_forall_ne_some.mpr (not_exists.mp h)
  rw [Theme.readColor, hnone]

theorem Style.mentions_iff {text word : String} :
    mentions text word = true ↔ IsWordOf word.toList text.toList := by
  rw [mentions, List.contains_iff_mem, mem_words_iff]

theorem Category.ofName?_eq_some_iff {name : String} {c : Category} :
    ofName? name = some c ↔ name = c.name := by
  constructor
  · intro h
    rw [ofName?] at h
    have hname := List.find?_some h
    exact (beq_iff_eq.mp hname).symm
  · rintro rfl
    exact c.ofName?_name

theorem Category.ofName?_eq_none_iff {name : String} :
    ofName? name = none ↔ ∀ c : Category, name ≠ c.name := by
  rw [Option.eq_none_iff_forall_ne_some]
  exact forall_congr' fun c ↦ not_congr ofName?_eq_some_iff

theorem Host.mem_scopeCategories {scope : String} {c : Category} :
    c ∈ scopeCategories scope ↔ monacoScope c = some scope := by
  rw [scopeCategories, List.mem_filter, beq_iff_eq, and_iff_right c.mem_all]

namespace ThemeRule

variable {r : ThemeRule} {c : Category} {e : SetupError}

theorem mem_ruleCategories : c ∈ Theme.ruleCategories r.token ↔ r.Concerns c := by
  rw [Theme.ruleCategories, Concerns]
  cases hname : Category.ofName? r.token with
  | some d =>
    have htoken := Category.ofName?_eq_some_iff.mp hname
    have hnot : ¬∀ d : Category, r.token ≠ d.name := fun h ↦ h d htoken
    rw [← Category.ofName?_eq_some_iff, hname]
    simp [hnot, eq_comm]
  | none =>
    have hnone := Category.ofName?_eq_none_iff.mp hname
    simp only [Host.mem_scopeCategories, hnone c, hnone, ne_eq, not_false_eq_true, implies_true,
      false_or, true_and]

theorem ruleCategories_eq_nil_iff : Theme.ruleCategories r.token = [] ↔ ¬r.Known := by
  rw [List.eq_nil_iff_forall_not_mem]
  simp only [mem_ruleCategories, Concerns]
  constructor
  · rintro h ⟨c, hc⟩
    have hname : ∀ d : Category, r.token ≠ d.name := fun d hd ↦ h d (.inl hd)
    exact h c (hc.imp_right fun hc ↦ ⟨hname, hc⟩)
  · exact fun h c hc ↦ h ⟨c, hc.imp_right And.right⟩

theorem isEmpty_ruleCategories (h : r.Known) : (Theme.ruleCategories r.token).isEmpty = false :=
  List.isEmpty_eq_false_iff.mpr fun hnil ↦ ruleCategories_eq_nil_iff.mp hnil h

def style (r : ThemeRule) : Style :=
  .ofFontStyle (r.foreground.bind (Rgb.parse? ·.toList)) r.fontStyle

def entries (r : ThemeRule) : List (Category × Style) :=
  (Theme.ruleCategories r.token).map fun c ↦ (c, r.style)

theorem mem_entries {style : Style} : (c, style) ∈ r.entries ↔ r.Concerns c ∧ style = r.style := by
  rw [entries, ← mem_ruleCategories]
  simp [eq_comm]

theorem sound_or_fault (r : ThemeRule) : r.Sound ∨ ∃ e, r.Fault e := by
  by_cases hknown : r.Known
  · by_cases hcolor : ∀ value ∈ r.foreground, IsColor value
    · exact .inl ⟨hknown, hcolor⟩
    · obtain ⟨value, hvalue, hbad⟩ := not_forall₂.mp hcolor
      exact .inr ⟨_, .invalidColor hknown hvalue hbad⟩
  · exact .inr ⟨_, .unknownCategory hknown⟩

theorem ruleStyles_of_sound (h : r.Sound) : Theme.ruleStyles r = .ok r.entries := by
  rw [entries, style, Theme.ruleStyles, isEmpty_ruleCategories h.known]
  cases hforeground : r.foreground with
  | none => rfl
  | some value =>
    obtain ⟨color, hcolor, hread⟩ := (h.foreground value hforeground).readColor r.token
    rw [Option.bind_some, hcolor, Theme.readForeground, hread]
    rfl

theorem ruleStyles_of_fault (h : r.Fault e) : Theme.ruleStyles r = .error e := by
  rw [Theme.ruleStyles]
  cases h with
  | unknownCategory hunknown =>
    rw [ruleCategories_eq_nil_iff.mpr hunknown]
    rfl
  | @invalidColor value hknown hvalue hbad =>
    rw [isEmpty_ruleCategories hknown, hvalue, Theme.readForeground, readColor_of_not_isColor hbad]
    rfl

end ThemeRule

namespace Theme

variable {styles : OrderedMap Category Style} {colors : OrderedMap String Rgb} {e : SetupError}

def colorEntries (written : List (String × String)) : List (String × Rgb) :=
  written.filterMap fun c ↦ (Rgb.parse? c.2.toList).map fun color ↦ (c.1, color)

theorem layRules_of_sound (styles : OrderedMap Category Style) {rules : List ThemeRule}
    (h : ∀ r ∈ rules, r.Sound) (later : List ThemeRule) : layRules styles (rules ++ later) =
      layRules (styles.insertAll (rules.flatMap ThemeRule.entries)) later := by
  induction rules generalizing styles with
  | nil => rfl
  | cons r rules ih =>
    obtain ⟨hr, hrules⟩ := List.forall_mem_cons.mp h
    rw [List.cons_append, layRules, ThemeRule.ruleStyles_of_sound hr, List.flatMap_cons,
      OrderedMap.insertAll_append]
    exact ih _ hrules

theorem layColors_of_isColor (colors : OrderedMap String Rgb) {written : List (String × String)}
    (h : ∀ c ∈ written, IsColor c.2) (later : List (String × String)) :
    layColors colors (written ++ later) =
      layColors (colors.insertAll (colorEntries written)) later := by
  induction written generalizing colors with
  | nil => rfl
  | cons c written ih =>
    obtain ⟨hc, hwritten⟩ := List.forall_mem_cons.mp h
    obtain ⟨color, hcolor, hread⟩ := hc.readColor c.1
    have hentries : colorEntries (c :: written) = (c.1, color) :: colorEntries written := by
      rw [colorEntries, List.filterMap_cons, hcolor]
      rfl
    rw [List.cons_append, layColors, hread, hentries]
    exact ih _ hwritten

theorem layRules_of_earliest {rules : List ThemeRule}
    (h : Earliest ThemeRule.Sound ThemeRule.Fault rules e) : layRules styles rules = .error e := by
  obtain ⟨before, r, after, rfl, hbefore, hr⟩ := h
  rw [layRules_of_sound styles hbefore, layRules, ThemeRule.ruleStyles_of_fault hr]
  rfl

theorem layColors_of_earliest {written : List (String × String)}
    (h : Earliest (fun c ↦ IsColor c.2) (fun c e ↦ ¬IsColor c.2 ∧ e = .invalidColor c.1 c.2)
      written e) : layColors colors written = .error e := by
  obtain ⟨before, c, after, rfl, hbefore, hc, rfl⟩ := h
  rw [layColors_of_isColor colors hbefore, layColors, readColor_of_not_isColor hc]
  rfl

variable {d : ThemeDocument}

def baseOf (d : ThemeDocument) : Theme :=
  if d.inherit then simplicityDark else blank

theorem ofDocument_of_sound (h : d.Sound) : ofDocument d =
    .ok ⟨d.name.getD (baseOf d).name,
      (baseOf d).styles.insertAll (d.rules.flatMap ThemeRule.entries),
      (baseOf d).colors.insertAll (colorEntries d.colors.entries)⟩ := by
  have hstyles := layRules_of_sound (baseOf d).styles h.1 []
  have hcolors := layColors_of_isColor (baseOf d).colors h.2 []
  rw [List.append_nil] at hstyles hcolors
  rw [baseOf] at hstyles hcolors ⊢
  rw [ofDocument, hstyles]
  simp only [layRules, bind, Except.bind, hcolors]
  rfl

theorem ofDocument_of_firstFault (h : d.FirstFault e) : ofDocument d = .error e := by
  rw [ofDocument]
  rcases h with h | ⟨hrules, h⟩
  · rw [layRules_of_earliest h]
    rfl
  · have hstyles := layRules_of_sound (baseOf d).styles hrules []
    rw [List.append_nil, baseOf] at hstyles
    rw [hstyles, layColors_of_earliest h]
    rfl

end Theme

theorem ThemeDocument.sound_or_firstFault (d : ThemeDocument) :
    d.Sound ∨ ∃ e, d.FirstFault e := by
  rcases forall_or_earliest ThemeRule.sound_or_fault d.rules with hrules | ⟨e, he⟩
  · have hcolor : ∀ c : String × String, IsColor c.2 ∨
        ∃ e, ¬IsColor c.2 ∧ e = SetupError.invalidColor c.1 c.2 :=
      fun c ↦ (em (IsColor c.2)).imp_right fun hc ↦ ⟨_, hc, rfl⟩
    rcases forall_or_earliest hcolor d.colors.entries with hcolors | ⟨e, he⟩
    · exact .inl ⟨hrules, hcolors⟩
    · exact .inr ⟨e, .inr ⟨hrules, he⟩⟩
  · exact .inr ⟨e, .inl he⟩

namespace Theme

variable {styles : OrderedMap Category Style} {rules : List ThemeRule} {c : Category}
variable {d : ThemeDocument}

theorem get?_insertAll_entries {r : ThemeRule} (h : r.Concerns c) :
    (styles.insertAll r.entries).get? c = some r.style := by
  rw [OrderedMap.get?_insertAll (o := some r.style), Option.some_or]
  intro style
  rw [ThemeRule.mem_entries, and_iff_right h, Option.some_inj, eq_comm]

theorem get?_insertAll_of_forall_not (h : ∀ r ∈ rules, ¬r.Concerns c) :
    (styles.insertAll (rules.flatMap ThemeRule.entries)).get? c = styles.get? c := by
  rw [OrderedMap.get?_insertAll (o := none), Option.none_or]
  intro style
  refine ⟨fun hmem ↦ ?_, fun hnone ↦ by cases hnone⟩
  obtain ⟨r, hr, hentry⟩ := List.mem_flatMap.mp hmem
  exact (h r hr (ThemeRule.mem_entries.mp hentry).1).elim

theorem get?_insertAll_colorEntries (colors : OrderedMap String Rgb)
    (written : OrderedMap String String) (key : String) :
    (colors.insertAll (colorEntries written.entries)).get? key =
      ((written.get? key).bind (Rgb.parse? ·.toList)).or (colors.get? key) := by
  apply OrderedMap.get?_insertAll
  intro color
  rw [Option.bind_eq_some_iff, colorEntries, List.mem_filterMap]
  constructor
  · rintro ⟨⟨key', value⟩, hentry, hcolor⟩
    obtain ⟨color', hparse, heq⟩ := Option.map_eq_some_iff.mp hcolor
    obtain ⟨rfl, rfl⟩ := Prod.mk.inj heq
    exact ⟨value, OrderedMap.get?_eq_some_iff.mpr hentry, hparse⟩
  · rintro ⟨value, hvalue, hparse⟩
    refine ⟨(key, value), OrderedMap.get?_eq_some_iff.mp hvalue, ?_⟩
    rw [hparse]
    rfl

theorem keys_entries (rules : List ThemeRule) : (rules.flatMap ThemeRule.entries).map Prod.fst =
    rules.flatMap fun r ↦ ruleCategories r.token := by
  have hkeys : ∀ r : ThemeRule, r.entries.map Prod.fst = ruleCategories r.token := by
    intro r
    rw [ThemeRule.entries, List.map_map]
    exact List.map_id _
  rw [List.map_flatMap, funext hkeys]

theorem keys_colorEntries {written : List (String × String)} (h : ∀ c ∈ written, IsColor c.2) :
    (colorEntries written).map Prod.fst = written.map Prod.fst := by
  induction written with
  | nil => rfl
  | cons c written ih =>
    obtain ⟨⟨color, hcolor⟩, hwritten⟩ := List.forall_mem_cons.mp h
    rw [colorEntries, List.filterMap_cons, hcolor]
    exact congrArg (c.1 :: ·) (ih hwritten)

theorem overlays_of_sound (h : d.Sound) {t : Theme} (ht : ofDocument d = .ok t) :
    t.Overlays d := by
  rw [ofDocument_of_sound h] at ht
  obtain rfl := Except.ok.inj ht
  have hbase : baseOf d = if d.inherit then simplicityDark else blank := rfl
  constructor
  case name => cases hinherit : d.inherit <;> rw [hinherit] at hbase <;> rw [hbase] <;> rfl
  case style_of_last_rule =>
    intro before r after c hrules hr hafter
    refine ⟨r.style, ?_, rfl, Style.mentions_iff, Style.mentions_iff⟩
    have hsplit : d.rules.flatMap ThemeRule.entries =
        before.flatMap ThemeRule.entries ++ r.entries ++ after.flatMap ThemeRule.entries := by
      rw [hrules, List.flatMap_append, List.flatMap_cons, List.append_assoc]
    -- the rules behind `r` leave the category alone, and `r` replaces what the rules before it set
    rw [style?, hsplit, OrderedMap.insertAll_append, OrderedMap.insertAll_append,
      get?_insertAll_of_forall_not hafter, get?_insertAll_entries hr]
  case style_without_rule =>
    intro c hc
    rw [style?, get?_insertAll_of_forall_not hc, hbase]
    cases d.inherit <;> rfl
  case color =>
    intro key
    rw [get?_insertAll_colorEntries, hbase]
    cases d.inherit <;> rfl
  case style_keys =>
    rw [OrderedMap.keys_insertAll, keys_entries, hbase]
    cases d.inherit <;> rfl
  case color_keys =>
    rw [OrderedMap.keys_insertAll, keys_colorEntries h.2, hbase]
    cases d.inherit <;> rfl

theorem exists_ofDocument_eq_ok_iff : (∃ t, ofDocument d = .ok t) ↔ d.Sound := by
  constructor
  · rintro ⟨t, ht⟩
    rcases d.sound_or_firstFault with hsound | ⟨e, he⟩
    · exact hsound
    · rw [ofDocument_of_firstFault he] at ht
      cases ht
  · exact fun h ↦ ⟨_, ofDocument_of_sound h⟩

theorem ofDocument_eq_error_iff {e : SetupError} : ofDocument d = .error e ↔ d.FirstFault e := by
  constructor
  · intro herror
    rcases d.sound_or_firstFault with hsound | ⟨e', he'⟩
    · rw [ofDocument_of_sound hsound] at herror
      cases herror
    · rw [ofDocument_of_firstFault he'] at herror
      exact Except.error.inj herror ▸ he'
  · exact ofDocument_of_firstFault

/-- A document that can be read is loaded exactly when it has no fault, and otherwise its first
fault is reported. The theme that is loaded is the document laid over the default theme, or over
nothing. -/
theorem ofText_overlays (text : List Char) (d : ThemeDocument)
    (h : ThemeDocument.parse text = .ok d) :
    ((∃ t, ofText text = .ok t) ↔ d.Sound) ∧
      (∀ e, ofText text = .error e ↔ d.FirstFault e) ∧
      ∀ t, ofText text = .ok t → t.Overlays d := by
  have hload : ofText text = ofDocument d := by rw [ofText, h]
  rw [hload]
  refine ⟨exists_ofDocument_eq_ok_iff, fun e ↦ ofDocument_eq_error_iff, fun t ht ↦ ?_⟩
  exact overlays_of_sound (exists_ofDocument_eq_ok_iff.mp ⟨t, ht⟩) ht

theorem ofText_overlays_replaced_string :
    ThemeDocument.parse
        "\x7b\"rules\": [[\"string\", \"010203\"], [\"string\", null, \"x bold\"]]\x7d".toList =
      .ok ⟨none, true, [⟨"string", some "010203", ""⟩, ⟨"string", none, "x bold"⟩], .empty⟩ ∧
    ∃ t style,
      ofText "\x7b\"rules\": [[\"string\", \"010203\"], [\"string\", null, \"x bold\"]]\x7d".toList =
        .ok t ∧
      t.style? .string = some style ∧ style.foreground = none ∧ style.bold = true := by
  have hparse : ThemeDocument.parse
        "\x7b\"rules\": [[\"string\", \"010203\"], [\"string\", null, \"x bold\"]]\x7d".toList =
      .ok ⟨none, true, [⟨"string", some "010203", ""⟩, ⟨"string", none, "x bold"⟩], .empty⟩ := rfl
  obtain ⟨hloads, -, hoverlays⟩ := ofText_overlays _ _ hparse
  have hfirst : (ThemeRule.mk "string" (some "010203") "").Sound := by
    refine ⟨⟨.string, .inl rfl⟩, fun value hvalue ↦ ?_⟩
    obtain rfl := Option.some.inj hvalue
    exact ⟨⟨1, 2, 3⟩, rfl⟩
  have hlast : (ThemeRule.mk "string" none "x bold").Sound :=
    ⟨⟨.string, .inl rfl⟩, fun _ hvalue ↦ by cases hvalue⟩
  have hword : IsWordOf "bold".toList "x bold".toList := mem_words_iff.mp (by decide)
  obtain ⟨t, ht⟩ := hloads.mpr ⟨by simp [hfirst, hlast], fun _ he ↦ by cases he⟩
  obtain ⟨style, hstyle, hforeground, hbold, -⟩ := (hoverlays t ht).style_of_last_rule
    [⟨"string", some "010203", ""⟩] ⟨"string", none, "x bold"⟩ [] .string rfl (.inl rfl)
    fun _ hs ↦ by cases hs
  exact ⟨hparse, t, style, ht, hstyle, hforeground, hbold.mpr hword⟩

end Theme

end Highlighter
