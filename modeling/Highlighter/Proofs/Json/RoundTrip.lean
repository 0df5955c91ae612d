import Highlighter.Json.Value
import Highlighter.Theme.Document
import Mathlib.Data.List.Forall2
import Mathlib.Tactic.SplitIfs

namespace Highlighter.Json

/-- No list of texts with a character each is longer than the texts together. -/
theorem length_le_length_flatMap {α : Type} {f : α → List Char} (hf : ∀ a, f a ≠ []) (l : List α) :
    l.length ≤ (l.flatMap f).length := by
  induction l with
  | nil => exact Nat.le_refl 0
  | cons a l ih =>
    have hpos := List.length_pos_iff.mpr (hf a)
    rw [List.flatMap_cons, List.length_append, List.length_cons]
    omega

section Strings

theorem hexValue?_digitChar : ∀ n < 16, hexValue? (Nat.digitChar n) = some n := by
  decide

/-- A character is escaped by one letter, by its code point, or not at all. -/
theorem escapeChar_cases (c : Char) :
    (∃ d, escapeChar c = ['\\', d] ∧ d ≠ 'u' ∧ shortEscape? d = some c) ∨
    (escapeChar c =
        ['\\', 'u', '0', '0', Nat.digitChar (c.toNat / 16), Nat.digitChar (c.toNat % 16)] ∧
      c.toNat < 32) ∨
    (escapeChar c = [c] ∧ c ≠ '"' ∧ c ≠ '\\' ∧ ¬c < ' ') := by
  unfold escapeChar
  split_ifs with h1 h2 h3 h4 h5 h6 h7 h8
  · exact .inl ⟨'"', rfl, by decide, by rw [h1]; rfl⟩
  · exact .inl ⟨'\\', rfl, by decide, by rw [h2]; rfl⟩
  · exact .inl ⟨'n', rfl, by decide, by rw [h3]; rfl⟩
  · exact .inl ⟨'r', rfl, by decide, by rw [h4]; rfl⟩
  · exact .inl ⟨'t', rfl, by decide, by rw [h5]; rfl⟩
  · exact .inl ⟨'b', rfl, by decide, by rw [h6]; rfl⟩
  · exact .inl ⟨'f', rfl, by decide, by rw [h7]; rfl⟩
  · exact .inr (.inl ⟨rfl, h8⟩)
  · exact .inr (.inr ⟨rfl, h1, h2, h8⟩)

theorem escapeChar_ne_nil (c : Char) : escapeChar c ≠ [] := by
  rcases escapeChar_cases c with ⟨d, h, _⟩ | ⟨h, _⟩ | ⟨h, _⟩
  all_goals
    rw [h]
    exact List.cons_ne_nil _ _

theorem readHex4_digits {n : Nat} (hn : n < 32) (rest : List Char) :
    readHex4 ('0' :: '0' :: Nat.digitChar (n / 16) :: Nat.digitChar (n % 16) :: rest) =
      .ok (n, rest) := by
  have hzero : hexValue? '0' = some 0 := rfl
  have hhigh := hexValue?_digitChar (n / 16) (by omega)
  have hlow := hexValue?_digitChar (n % 16) (by omega)
  simp only [readHex4, hzero, hhigh, hlow]
  have hvalue : ((0 * 16 + 0) * 16 + n / 16) * 16 + n % 16 = n := by omega
  rw [hvalue]

theorem readEscape_codePoint {c : Char} (hc : c.toNat < 32) (rest : List Char) :
    readEscape ('u' :: '0' :: '0' :: Nat.digitChar (c.toNat / 16) :: Nat.digitChar (c.toNat % 16) ::
      rest) = .ok (c, rest) := by
  have htrailing : isTrailingSurrogate c.toNat = false := by
    simp only [isTrailingSurrogate, Bool.and_eq_false_iff, decide_eq_false_iff_not]
    omega
  have hleading : isLeadingSurrogate c.toNat = false := by
    simp only [isLeadingSurrogate, Bool.and_eq_false_iff, decide_eq_false_iff_not]
    omega
  change readHex4 ('0' :: '0' :: _ :: _ :: rest) >>= _ = _
  rw [readHex4_digits hc]
  simp [bind, Except.bind, htrailing, hleading]

theorem readEscape_letter {c d : Char} (hd : d ≠ 'u') (h : shortEscape? d = some c)
    (rest : List Char) : readEscape (d :: rest) = .ok (c, rest) := by
  unfold readEscape
  split
  · contradiction
  · rename_i heq
    exact absurd (List.cons.inj heq).1 hd
  · rename_i heq
    obtain ⟨rfl, rfl⟩ := List.cons.inj heq
    rw [h]

theorem readCharsWithin_escapeChar (b c : Char) (budget rest : List Char) :
    readCharsWithin (b :: budget) (escapeChar c ++ rest) =
      readCharsWithin budget rest >>= fun r ↦ .ok (c :: r.1, r.2) := by
  rcases escapeChar_cases c with ⟨d, h, hd, hshort⟩ | ⟨h, hlt⟩ | ⟨h, hquote, hslash, hlt⟩
  · rw [h]
    change readEscape (d :: rest) >>= _ = _
    rw [readEscape_letter hd hshort]
    rfl
  · rw [h]
    change readEscape ('u' :: '0' :: '0' :: _ :: _ :: rest) >>= _ = _
    rw [readEscape_codePoint hlt]
    rfl
  · rw [h, List.singleton_append, readCharsWithin, if_neg hquote, if_neg hslash, if_neg hlt]

theorem readCharsWithin_flatMap {s budget : List Char} (h : s.length < budget.length)
    (rest : List Char) :
    readCharsWithin budget (s.flatMap escapeChar ++ '"' :: rest) = .ok (s, rest) := by
  induction s generalizing budget with
  | nil =>
    obtain ⟨b, budget, rfl⟩ := List.exists_cons_of_length_pos h
    rfl
  | cons c s ih =>
    obtain ⟨b, budget, rfl⟩ := List.exists_cons_of_length_pos (Nat.zero_lt_of_lt h)
    rw [List.flatMap_cons, List.append_assoc, readCharsWithin_escapeChar,
      ih (Nat.lt_of_succ_lt_succ h)]
    rfl

theorem renderString_append (s : String) (rest : List Char) :
    renderString s ++ rest = '"' :: (s.toList.flatMap escapeChar ++ '"' :: rest) := by
  simp [renderString]

theorem readString_render (s : String) (rest : List Char) :
    readString (s.toList.flatMap escapeChar ++ '"' :: rest) = .ok (s.toList, rest) := by
  apply readCharsWithin_flatMap
  have hle := length_le_length_flatMap escapeChar_ne_nil s.toList
  rw [List.length_append, List.length_cons]
  omega

end Strings

/-- The reader takes the written value for `a` and leaves what follows it. -/
def ReadsAs {α : Type} (read : List Char → Except JsonError (α × List Char)) (j : Json) (a : α) :
    Prop :=
  ∀ rest, read (j.render ++ rest) = .ok (a, rest)

theorem readsAs_string (s : String) : ReadsAs readStringValue (.string s) s := by
  intro rest
  change readStringValue (renderString s ++ rest) = _
  rw [renderString_append]
  change readString _ >>= _ = _
  rw [readString_render]
  change Except.ok (String.ofList s.toList, rest) = _
  rw [String.ofList_toList]

theorem readsAs_optionalString (s : String) :
    ReadsAs readOptionalString (.string s) (some s) := by
  intro rest
  have hread := readsAs_string s rest
  change readStringValue (renderString s ++ rest) = _ at hread
  change readOptionalString (renderString s ++ rest) = _
  rw [renderString_append] at hread ⊢
  change readStringValue _ >>= _ = _
  rw [hread]
  rfl

theorem readsAs_bool (b : Bool) : ReadsAs readBoolean (.bool b) b := by
  intro rest
  cases b <;> rfl

section Lists

variable {α : Type} {item : List Char → Except JsonError (α × List Char)} {js : List Json}
  {as : List α}

theorem renderItems_cons (j : Json) (js : List Json) :
    renderItems (j :: js) = j.render ++ js.flatMap fun j ↦ ',' :: j.render := by
  induction js generalizing j with
  | nil => exact (List.append_nil _).symm
  | cons j' js ih =>
    rw [renderItems, ih]
    · rfl
    · intro h
      cases h

/-- No value begins with a blank or with the end of a list. -/
theorem exists_cons_render (j : Json) :
    ∃ c cs, j.render = c :: cs ∧ isJsonBlank c = false ∧ c ≠ ']' := by
  cases j with
  | null => exact ⟨'n', _, rfl, by decide⟩
  | bool b => cases b <;> exact ⟨_, _, rfl, by decide⟩
  | count n =>
    obtain ⟨c, cs, h⟩ := List.exists_cons_of_ne_nil (Nat.toDigits_ne_nil (n := n) (b := 10))
    have hmem : c ∈ Nat.toDigits 10 n := by
      rw [h]
      exact List.mem_cons_self
    have hdigit := Nat.isDigit_of_mem_toDigits (by omega) (by omega) hmem
    refine ⟨c, cs, Nat.toList_repr.trans h, ?_, ?_⟩
    · rw [Bool.eq_false_iff]
      intro hblank
      simp only [isJsonBlank, Bool.or_eq_true, beq_iff_eq] at hblank
      rcases hblank with ((rfl | rfl) | rfl) | rfl <;> cases hdigit
    · rintro rfl
      cases hdigit
  | string s => exact ⟨'"', _, rfl, by decide⟩
  | array js => exact ⟨'[', _, rfl, by decide⟩
  | object fs => exact ⟨'{', _, rfl, by decide⟩

theorem nextItem_true_render (j : Json) (rest : List Char) :
    nextItem true (j.render ++ rest) = .ok (true, j.render ++ rest) := by
  obtain ⟨c, cs, h, hblank, hend⟩ := exists_cons_render j
  simp [nextItem, skipBlanks, h, hblank]

theorem nextItem_false_render (j : Json) (rest : List Char) :
    nextItem false (',' :: (j.render ++ rest)) = .ok (true, j.render ++ rest) := by
  obtain ⟨c, cs, h, hblank, hend⟩ := exists_cons_render j
  have hcomma : isJsonBlank ',' = false := rfl
  simp [nextItem, skipBlanks, h, hblank, hend, hcomma]

theorem readItemsWithin_later (h : List.Forall₂ (ReadsAs item) js as) {budget : List Char}
    (hbudget : js.length < budget.length) (rest : List Char) :
    readItemsWithin item budget false (js.flatMap (fun j ↦ ',' :: j.render) ++ ']' :: rest) =
      .ok (as, rest) := by
  induction h generalizing budget with
  | nil =>
    obtain ⟨b, budget, rfl⟩ := List.exists_cons_of_length_pos hbudget
    rfl
  | @cons j a js as hitem h ih =>
    obtain ⟨b, budget, rfl⟩ := List.exists_cons_of_length_pos (Nat.zero_lt_of_lt hbudget)
    rw [List.flatMap_cons, List.append_assoc, List.cons_append, readItemsWithin,
      nextItem_false_render]
    change item (j.render ++ _) >>= _ = _
    rw [hitem]
    change readItemsWithin item budget false _ >>= _ = _
    rw [ih (Nat.lt_of_succ_lt_succ hbudget)]
    rfl

theorem readsAs_array (h : List.Forall₂ (ReadsAs item) js as) :
    ReadsAs (readList item) (.array js) as := by
  intro rest
  change readItemsWithin item ('[' :: (renderItems js ++ [']'] ++ rest)) true
    (renderItems js ++ [']'] ++ rest) = _
  rw [List.append_assoc, List.singleton_append]
  cases h with
  | nil => rfl
  | @cons j a js as hitem h =>
    rw [renderItems_cons, List.append_assoc, readItemsWithin, nextItem_true_render]
    change item (j.render ++ _) >>= _ = _
    rw [hitem]
    change readItemsWithin item _ false _ >>= _ = _
    rw [readItemsWithin_later h]
    · rfl
    · have hle := length_le_length_flatMap (f := fun j : Json ↦ ',' :: j.render)
        (fun j ↦ List.cons_ne_nil _ _) js
      simp only [List.length_append, List.length_cons]
      omega

end Lists

section Fields

variable {σ : Type} {field : σ → List Char → List Char → Except JsonError (σ × List Char)}
  {s s' s'' : σ} {fs fs' : List (String × Json)}

inductive FieldsLead (field : σ → List Char → List Char → Except JsonError (σ × List Char)) :
    σ → List (String × Json) → σ → Prop
  | nil (s : σ) : FieldsLead field s [] s
  | cons {s s' s'' : σ} {k : String} {j : Json} {fs : List (String × Json)}
      (hfield : ∀ rest, field s k.toList (':' :: (j.render ++ rest)) = .ok (s', rest))
      (h : FieldsLead field s' fs s'') : FieldsLead field s ((k, j) :: fs) s''

theorem FieldsLead.append (h : FieldsLead field s fs s') (h' : FieldsLead field s' fs' s'') :
    FieldsLead field s (fs ++ fs') s'' := by
  induction h with
  | nil s => exact h'
  | cons hfield h ih => exact .cons hfield (ih h')

def renderField (f : String × Json) : List Char :=
  renderString f.1 ++ ':' :: f.2.render

theorem renderFields_cons (f : String × Json) (fs : List (String × Json)) :
    renderFields (f :: fs) = renderField f ++ fs.flatMap fun f ↦ ',' :: renderField f := by
  induction fs generalizing f with
  | nil => exact (List.append_nil _).symm
  | cons f' fs ih =>
    rw [renderFields, ih]
    · simp [renderField]
    · intro h
      cases h

theorem nextKey_true_render (k : String) (rest : List Char) :
    nextKey true (renderString k ++ rest) = .ok (some k.toList, rest) := by
  rw [renderString_append]
  change readString _ >>= _ = _
  rw [readString_render]
  rfl

theorem nextKey_false_render (k : String) (rest : List Char) :
    nextKey false (',' :: (renderString k ++ rest)) = .ok (some k.toList, rest) := by
  rw [renderString_append]
  change readString _ >>= _ = _
  rw [readString_render]
  rfl

theorem readFieldsWithin_later (h : FieldsLead field s fs s') {budget : List Char}
    (hbudget : fs.length < budget.length) (rest : List Char) :
    readFieldsWithin field budget false s
      (fs.flatMap (fun f ↦ ',' :: renderField f) ++ '}' :: rest) = .ok (s', rest) := by
  induction h generalizing budget with
  | nil s =>
    obtain ⟨b, budget, rfl⟩ := List.exists_cons_of_length_pos hbudget
    rfl
  | @cons s s' s'' k j fs hfield h ih =>
    obtain ⟨b, budget, rfl⟩ := List.exists_cons_of_length_pos (Nat.zero_lt_of_lt hbudget)
    rw [List.flatMap_cons, List.append_assoc, List.cons_append, renderField, List.append_assoc,
      readFieldsWithin, nextKey_false_render]
    change field s k.toList (':' :: (j.render ++ _)) >>= _ = _
    rw [hfield]
    exact ih (Nat.lt_of_succ_lt_succ hbudget)

theorem readFields_render (h : FieldsLead field s fs s') (rest : List Char) :
    readFields field s (renderFields fs ++ '}' :: rest) = .ok (s', rest) := by
  unfold readFields
  cases h with
  | nil => rfl
  | @cons _ s' _ k j fs hfield h =>
    rw [renderFields_cons, List.append_assoc, renderField, List.append_assoc, readFieldsWithin,
      nextKey_true_render]
    change field s k.toList (':' :: (j.render ++ _)) >>= _ = _
    rw [hfield]
    apply readFieldsWithin_later h
    have hle := length_le_length_flatMap (f := fun f : String × Json ↦ ',' :: renderField f)
      (fun f ↦ List.cons_ne_nil _ _) fs
    simp only [List.length_append, List.length_cons]
    omega

theorem readRecord_render {α : Type} {name : String}
    {fields items : List Char → Except JsonError (α × List Char)} {a : α}
    (h : ∀ rest, fields (renderFields fs ++ '}' :: rest) = .ok (a, rest)) :
    ReadsAs (readRecord name fields items) (.object fs) a := by
  intro rest
  change fields (renderFields fs ++ ['}'] ++ rest) = _
  rw [List.append_assoc]
  exact h rest

/-- Fields that gather at the front of what was read before come out in reverse. -/
theorem fieldsLead_entries {α : Type} {write : α → Json}
    {field : List (String × α) → List Char → List Char →
      Except JsonError (List (String × α) × List Char)}
    (hfield : ∀ before k a rest, field before k.toList (':' :: ((write a).render ++ rest)) =
      .ok ((k, a) :: before, rest)) (entries before : List (String × α)) :
    FieldsLead field before (entries.map fun e ↦ (e.1, write e.2)) (entries.reverse ++ before) := by
  induction entries generalizing before with
  | nil => exact .nil before
  | cons e entries ih =>
    rw [List.reverse_cons, List.append_assoc]
    exact .cons (hfield before e.1 e.2) (ih (e :: before))

theorem readsAs_stringMap (entries : List (String × String)) :
    ReadsAs readStringMap (.object (entries.map fun e ↦ (e.1, .string e.2))) entries := by
  intro rest
  change readFields _ [] (renderFields _ ++ ['}'] ++ rest) >>= _ = _
  rw [List.append_assoc, List.singleton_append,
    readFields_render (fieldsLead_entries ?_ entries [])]
  · change Except.ok ((entries.reverse ++ []).reverse, rest) = _
    rw [List.append_nil, List.reverse_reverse]
  · intro before k v rest
    change readStringValue (Json.render (.string v) ++ rest) >>= _ = _
    rw [readsAs_string]
    change Except.ok ((String.ofList k.toList, v) :: before, rest) = _
    rw [String.ofList_toList]

theorem readNew_render {α : Type} {read : List Char → Except JsonError (α × List Char)} {j : Json}
    {a : α} (h : ReadsAs read j a) (name : String) (keep : Option α → σ) (rest : List Char) :
    (readNew name none read (':' :: (j.render ++ rest)) >>= fun r ↦ .ok (keep r.1, r.2)) =
      Except.ok (keep (some a), rest) := by
  have hnew : readNew name none read (':' :: (j.render ++ rest)) = .ok (some a, rest) := by
    change read (j.render ++ rest) >>= _ = _
    rw [h]
    rfl
  rw [hnew]
  rfl

end Fields

end Highlighter.Json
