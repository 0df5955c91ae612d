import Mathlib.Logic.Basic
import Highlighter.Proofs.Pattern.Word

namespace Highlighter

open Grammar

def isMarked (mark : String) (test : Char → Bool) (w : List Char) : Bool :=
  let digits := w.drop mark.toList.length
  mark.toList.isPrefixOf w && digits.head?.any test && digits.tail.all test

/-- Whether a word is a number: hexadecimal digits behind `0x`, binary digits behind `0b`, or
decimal digits. Underscores count as digits, except in front of a decimal number. -/
def isNumber (w : List Char) : Bool :=
  isMarked "0x" (fun c ↦ isHexDigit c || c == '_') w ||
    isMarked "0b" (fun c ↦ c == '0' || c == '1' || c == '_') w ||
    w.head?.any Char.isDigit && w.tail.all fun c ↦ c.isDigit || c == '_'

theorem isWordChar_of_isDigit {c : Char} (h : c.isDigit = true) : isWordChar c = true := by
  simp [isWordChar, Char.isAlphanum, h]

theorem isWordChar_of_isHexDigit {c : Char} (h : isHexDigit c = true) : isWordChar c = true := by
  simp only [isHexDigit, Bool.or_eq_true, Bool.and_eq_true, decide_eq_true_eq] at h
  rcases h with (hdigit | ⟨ha, hf⟩) | ⟨ha, hf⟩
  · exact isWordChar_of_isDigit hdigit
  · have hz : 'f' ≤ 'z' := by decide
    have hlower : c.isLower = true := Bool.and_eq_true_iff.mpr
      ⟨decide_eq_true ha, decide_eq_true (Char.le_trans hf hz)⟩
    have halpha : c.isAlpha = true := Bool.or_eq_true_iff.mpr (.inr hlower)
    simp [isWordChar, Char.isAlphanum, halpha]
  · have hz : 'F' ≤ 'Z' := by decide
    have hupper : c.isUpper = true := decide_eq_true ⟨ha, Char.le_trans hf hz⟩
    have halpha : c.isAlpha = true := Bool.or_eq_true_iff.mpr (.inl hupper)
    simp [isWordChar, Char.isAlphanum, halpha]

theorem isWordChar_of_or_underscore {test : Char → Bool}
    (h : ∀ c, test c = true → isWordChar c = true) (c : Char) (hc : (test c || c == '_') = true) :
    isWordChar c = true := by
  rcases Bool.or_eq_true _ _ ▸ hc with hc | hc
  · exact h c hc
  · rw [eq_of_beq hc]
    decide

namespace Pattern

variable {w rest : List Char} {first test : Char → Bool}

theorem first?_seq_seq (first second third : Pattern) (p : Point) :
    (seq (seq first second) third).first? p = (seq first (seq second third)).first? p := by
  unfold first?
  simp only [ends, List.flatMap_assoc]

/-- One character of a kind and then a run of a kind take what is left of a word, or nothing. -/
theorem first?_run_boundary (hfirst : ∀ c, first c = true → isWordChar c = true)
    (htest : ∀ c, test c = true → isWordChar c = true) {p : Point} (hrest : p.rest = w ++ rest)
    (hw : ∀ c ∈ w, isWordChar c = true) (hstop : rest.head?.any isWordChar = false) :
    (seq (one first) (seq (greedy (one test)) boundary)).first? p =
      if w.head?.any first ∧ w.tail.all test then some (p.behind w rest) else none := by
  rw [first?_seq_one_run hfirst hrest hstop]
  cases w with
  | nil => rfl
  | cons c w =>
    have hbefore : (p.behind [c] (w ++ rest)).before.any isWordChar = true :=
      hw c List.mem_cons_self
    have hrun := first?_seq_run_boundary htest hbefore rfl
      (fun d hd ↦ hw d (List.mem_cons_of_mem c hd)) hstop
    rw [Point.behind_behind, List.singleton_append] at hrun
    rw [ite_and, List.tail_cons, ← hrun]
    rfl

theorem first?_marked (h : IsWord w rest) (mark : String)
    (hmark : mark.toList.all isWordChar = true)
    (htest : ∀ c, test c = true → isWordChar c = true) :
    (all [boundary, literal mark, greedy1 (one test), boundary]).first?
        (Point.atStart (w ++ rest)) =
      if isMarked mark test w then some ((Point.atStart (w ++ rest)).behind w rest) else none := by
  change (seq boundary (seq (literal mark) (seq (seq _ _) boundary))).first? _ = _
  rw [first?_seq_boundary, h.isWordBoundary_atStart, if_pos rfl]
  by_cases hfront : mark.toList <+: w ++ rest
  · obtain ⟨u, rfl⟩ := h.prefix_of_prefix_append hmark hfront
    have hrest : (Point.atStart (mark.toList ++ u ++ rest)).rest = mark.toList ++ (u ++ rest) :=
      List.append_assoc ..
    have hrun := first?_run_boundary htest htest
      (p := (Point.atStart (mark.toList ++ u ++ rest)).behind mark.toList (u ++ rest)) rfl
      (fun c hc ↦ h.chars c (List.mem_append_right _ hc)) h.stop
    rw [first?_seq_literal hrest, first?_seq_seq, hrun, Point.behind_behind]
    simp [isMarked]
  · have hword : ¬ mark.toList <+: w := fun hmem ↦ hfront (hmem.trans (List.prefix_append w rest))
    rw [first?_seq_literal_eq_none hfront]
    simp [isMarked, hword]

theorem first?_digits (h : IsWord w rest) (hfirst : ∀ c, first c = true → isWordChar c = true)
    (htest : ∀ c, test c = true → isWordChar c = true) :
    (all [boundary, one first, greedy (one test), boundary]).first? (Point.atStart (w ++ rest)) =
      if w.head?.any first ∧ w.tail.all test then
        some ((Point.atStart (w ++ rest)).behind w rest) else none := by
  change (seq boundary (seq (one first) (seq (greedy (one test)) boundary))).first? _ = _
  rw [first?_seq_boundary, h.isWordBoundary_atStart, if_pos rfl]
  exact first?_run_boundary hfirst htest rfl h.chars h.stop

end Pattern

end Highlighter
