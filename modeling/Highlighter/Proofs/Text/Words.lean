import Highlighter.Text.Lines
import Mathlib.Data.List.Basic

namespace Highlighter

/-- A part of a text without a blank character that cannot be made longer. -/
structure IsWordOf (w text : List Char) : Prop where
  ne_nil : w ≠ []
  solid : ∀ c ∈ w, isBlank c = false
  exists_around : ∃ before after, text = before ++ w ++ after ∧
    (∀ c ∈ before.getLast?, isBlank c = true) ∧ ∀ c ∈ after.head?, isBlank c = true

section Words

variable {c d : Char} {w text : List Char} {ws : List (List Char)}

theorem words_cons_of_blank (hc : isBlank c = true) (text : List Char) :
    words (c :: text) = words text :=
  if_pos hc

theorem words_singleton (hc : isBlank c = false) : words [c] = [[c]] :=
  if_neg (Bool.eq_false_iff.mp hc)

theorem words_cons_cons_of_blank (hc : isBlank c = false) (hd : isBlank d = true)
    (text : List Char) : words (c :: d :: text) = [c] :: words text := by
  change (if isBlank c = true then _ else _) = _
  rw [if_neg (Bool.eq_false_iff.mp hc), words_cons_of_blank hd]
  cases words text with
  | nil => rfl
  | cons w ws => exact if_pos hd

theorem words_cons_of_solid (hc : isBlank c = false) (hd : isBlank d = false)
    (h : words (d :: text) = w :: ws) : words (c :: d :: text) = (c :: w) :: ws := by
  unfold words
  rw [if_neg (Bool.eq_false_iff.mp hc), h]
  exact if_neg (Bool.eq_false_iff.mp hd)

theorem words_ne_nil (hc : isBlank c = false) (text : List Char) : words (c :: text) ≠ [] := by
  unfold words
  rw [if_neg (Bool.eq_false_iff.mp hc)]
  split
  · split <;> exact List.cons_ne_nil _ _
  · exact List.cons_ne_nil _ _

theorem words_append_blank (hc : isBlank c = true) (a b : List Char) :
    words (a ++ c :: b) = words a ++ words b := by
  induction a with
  | nil => exact words_cons_of_blank hc b
  | cons d a ih =>
    cases hd : isBlank d with
    | true => rw [List.cons_append, words_cons_of_blank hd, words_cons_of_blank hd, ih]
    | false =>
      cases a with
      | nil =>
        rw [words_singleton hd]
        exact words_cons_cons_of_blank hd hc b
      | cons e a =>
        cases he : isBlank e with
        | true =>
          rw [List.cons_append, words_cons_of_blank he, words_cons_of_blank he] at ih
          rw [List.cons_append, List.cons_append, words_cons_cons_of_blank hd he,
            words_cons_cons_of_blank hd he, ih, List.cons_append]
        | false =>
          obtain ⟨w, ws, hwords⟩ := List.exists_cons_of_ne_nil (words_ne_nil he a)
          rw [hwords] at ih
          rw [words_cons_of_solid hd he hwords]
          exact words_cons_of_solid hd he ih

theorem words_of_solid (hne : w ≠ []) (h : ∀ c ∈ w, isBlank c = false) : words w = [w] := by
  induction w with
  | nil => exact absurd rfl hne
  | cons c w ih =>
    have hc : isBlank c = false := h c List.mem_cons_self
    cases w with
    | nil => exact words_singleton hc
    | cons d w =>
      have hd : isBlank d = false := h d (List.mem_cons_of_mem c List.mem_cons_self)
      have hlater := ih (List.cons_ne_nil d w) fun e he ↦ h e (List.mem_cons_of_mem c he)
      exact words_cons_of_solid hc hd hlater

end Words

namespace IsWordOf

variable {c : Char} {w text a b : List Char}

theorem notMem (h : IsWordOf w text) (hc : isBlank c = true) : c ∉ w :=
  fun hmem ↦ Bool.false_ne_true ((h.solid c hmem).symm.trans hc)

theorem eq_of_solid (h : IsWordOf w text) (htext : ∀ c ∈ text, isBlank c = false) : w = text := by
  obtain ⟨before, after, rfl, hbefore, hafter⟩ := h.exists_around
  have hnil : before = [] := by
    refine List.getLast?_eq_none_iff.mp (Option.eq_none_iff_forall_not_mem.mpr fun c hc ↦ ?_)
    have hmem := List.mem_append_left after (List.mem_append_left w (List.mem_of_getLast? hc))
    exact Bool.false_ne_true ((htext c hmem).symm.trans (hbefore c hc))
  have hnil' : after = [] := by
    refine List.head?_eq_none_iff.mp (Option.eq_none_iff_forall_not_mem.mpr fun c hc ↦ ?_)
    have hmem := List.mem_append_right (before ++ w) (List.mem_of_head? hc)
    exact Bool.false_ne_true ((htext c hmem).symm.trans (hafter c hc))
  rw [hnil, hnil', List.nil_append, List.append_nil]

theorem append_blank (h : IsWordOf w a) (hc : isBlank c = true) (b : List Char) :
    IsWordOf w (a ++ c :: b) := by
  obtain ⟨before, after, rfl, hbefore, hafter⟩ := h.exists_around
  refine ⟨h.ne_nil, h.solid, before, after ++ c :: b, List.append_assoc _ _ _, hbefore, ?_⟩
  cases after with
  | nil => exact fun d hd ↦ Option.some.inj hd ▸ hc
  | cons e after => exact hafter

theorem blank_append (h : IsWordOf w b) (hc : isBlank c = true) (a : List Char) :
    IsWordOf w (a ++ c :: b) := by
  obtain ⟨before, after, rfl, hbefore, hafter⟩ := h.exists_around
  refine ⟨h.ne_nil, h.solid, a ++ c :: before, after, by simp, fun d hd ↦ ?_, hafter⟩
  rw [List.getLast?_append_cons] at hd
  cases before with
  | nil => exact Option.some.inj hd ▸ hc
  | cons e before =>
    rw [List.getLast?_cons_cons] at hd
    exact hbefore d hd

theorem of_append_blank (h : IsWordOf w (a ++ c :: b)) (hc : isBlank c = true) :
    IsWordOf w a ∨ IsWordOf w b := by
  obtain ⟨before, after, htext, hbefore, hafter⟩ := h.exists_around
  have hnotin := h.notMem hc
  rcases List.append_eq_append_iff.mp htext with ⟨m, hfront, hb⟩ | ⟨m, ha, hback⟩
  · -- the blank belongs to what stands before the word and the word itself, or to what follows
    cases m with
    | nil =>
      rw [List.append_nil] at hfront
      exact .inl ⟨h.ne_nil, h.solid, before, [], by rw [List.append_nil, hfront], hbefore,
        fun _ hd ↦ by cases hd⟩
    | cons d m =>
      obtain ⟨rfl, rfl⟩ : c = d ∧ b = m ++ after := List.cons.inj hb
      rcases List.append_eq_append_iff.mp hfront with ⟨u, -, hw⟩ | ⟨u, hbefore', hw⟩
      · exact absurd (hw ▸ List.mem_append_right u List.mem_cons_self) hnotin
      · cases u with
        | nil =>
          rw [List.nil_append] at hw
          exact absurd (hw ▸ List.mem_cons_self) hnotin
        | cons e u =>
          obtain ⟨rfl, rfl⟩ : c = e ∧ m = u ++ w := List.cons.inj hw
          refine .inr ⟨h.ne_nil, h.solid, u, after, rfl, fun f hf ↦ hbefore f ?_, hafter⟩
          rw [hbefore', List.getLast?_append_cons]
          cases u with
          | nil => cases hf
          | cons g u => rwa [List.getLast?_cons_cons]
  · refine .inl ⟨h.ne_nil, h.solid, before, m, ha, hbefore, fun d hd ↦ hafter d ?_⟩
    rw [hback, List.head?_append, hd]
    rfl

end IsWordOf

theorem mem_words_iff {w text : List Char} : w ∈ words text ↔ IsWordOf w text := by
  induction hn : text.length using Nat.strongRecOn generalizing text with
  | _ n ih =>
    by_cases hblank : ∃ c ∈ text, isBlank c = true
    · obtain ⟨c, hmem, hc⟩ := hblank
      obtain ⟨a, b, rfl⟩ := List.append_of_mem hmem
      rw [List.length_append, List.length_cons] at hn
      rw [words_append_blank hc, List.mem_append, ih a.length (by omega) rfl,
        ih b.length (by omega) rfl]
      exact ⟨fun h ↦ h.elim (·.append_blank hc b) (·.blank_append hc a), (·.of_append_blank hc)⟩
    · have hsolid : ∀ c ∈ text, isBlank c = false :=
        fun c hc ↦ Bool.eq_false_iff.mpr fun h ↦ hblank ⟨c, hc, h⟩
      by_cases hne : text = []
      · rw [hne]
        exact ⟨fun h ↦ (by cases h), fun h ↦ absurd (h.eq_of_solid fun _ h ↦ by cases h) h.ne_nil⟩
      · rw [words_of_solid hne hsolid, List.mem_singleton]
        constructor
        · rintro rfl
          exact ⟨hne, hsolid, [], [], (List.append_nil w).symm, fun _ h ↦ (by cases h),
            fun _ h ↦ (by cases h)⟩
        · exact fun h ↦ h.eq_of_solid hsolid

end Highlighter
