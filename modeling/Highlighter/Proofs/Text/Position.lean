import Highlighter.Proofs.Text.Lines
import Highlighter.Dump
import Mathlib.Data.List.DropRight

namespace Highlighter

def lastLine (text : List Char) : List Char :=
  text.rtakeWhile (· ≠ '\n')

theorem lastLine_concat_lineFeed (text : List Char) : lastLine (text ++ ['\n']) = [] :=
  List.rtakeWhile_concat_neg _ _ _ (by decide)

theorem lastLine_concat {c : Char} (h : c ≠ '\n') (text : List Char) :
    lastLine (text ++ [c]) = lastLine text ++ [c] :=
  List.rtakeWhile_concat_pos _ _ _ (by simpa using h)

theorem lastLine_of_notMem {text : List Char} (h : '\n' ∉ text) : lastLine text = text := by
  refine List.rtakeWhile_eq_self_iff.mpr fun c hc ↦ decide_eq_true ?_
  rintro rfl
  exact h hc

theorem lastLine_append_lineFeed (l rest : List Char) :
    lastLine (l ++ '\n' :: rest) = lastLine rest := by
  induction rest using List.reverseRecOn with
  | nil => exact lastLine_concat_lineFeed l
  | append_singleton rest c ih =>
    rw [← List.cons_append, ← List.append_assoc]
    by_cases hc : c = '\n'
    · rw [hc, lastLine_concat_lineFeed, lastLine_concat_lineFeed]
    · rw [lastLine_concat hc, lastLine_concat hc, ih]

def Position.after (text : List Char) : Position :=
  ⟨1 + text.count '\n', 1 + (lastLine text).length⟩

theorem Position.advanceOver_eq_after (text : List Char) :
    ({} : Position).advanceOver text = .after text := by
  induction text using List.reverseRecOn with
  | nil => rfl
  | append_singleton text c ih =>
    rw [advanceOver_append, ih]
    change (after text).advance c = after (text ++ [c])
    by_cases hc : c = '\n'
    · rw [hc, advance, if_pos rfl, after, after, lastLine_concat_lineFeed, List.count_append]
      rfl
    · rw [advance, if_neg hc, after, after, lastLine_concat hc, List.count_append,
        List.count_singleton, if_neg (by simpa using hc), List.length_append]
      rfl

theorem Position.after_advanceOver (a b : List Char) :
    (after a).advanceOver b = after (a ++ b) := by
  rw [← advanceOver_eq_after, ← advanceOver_eq_after, advanceOver_append]

theorem exists_lines_append {l rest : List Char} (h : '\n' ∉ l) (hne : rest ≠ []) :
    ∃ back more, back ≠ [] ∧ lines (l ++ rest) = (l ++ back) :: more := by
  by_cases hmem : '\n' ∈ rest
  · obtain ⟨m, more, rfl, hm⟩ := List.eq_append_cons_of_mem hmem
    refine ⟨m ++ ['\n'], lines more, by simp, ?_⟩
    rw [← List.append_assoc, ← List.append_assoc]
    exact lines_append_lineFeed (by simp [h, hm]) more
  · exact ⟨rest, [], hne, lines_of_notMem (by simp [h, hmem]) (by simp [hne])⟩

theorem exists_line_behind {after : List Char} (hafter : after ≠ []) (before : List Char)
    (base : Nat) :
    ∃ offset back, back ≠ [] ∧ offset + byteLength (lastLine before) = base + byteLength before ∧
      (withOffsets base (lines (before ++ after)))[before.count '\n']? =
        some (offset, lastLine before ++ back) := by
  -- Over the lines of the text in front, each of which moves the base on.
  induction before using lineFeed_induction generalizing base with
  | last l hl =>
    obtain ⟨back, more, hback, hlines⟩ := exists_lines_append hl hafter
    rw [lastLine_of_notMem hl, List.count_eq_zero.mpr hl, hlines]
    exact ⟨base, back, hback, rfl, rfl⟩
  | line l rest hl ih =>
    obtain ⟨offset, back, hback, hoffset, hline⟩ := ih (base + byteLength (l ++ ['\n']))
    have hsize : byteLength (l ++ '\n' :: rest) = byteLength (l ++ ['\n']) + byteLength rest := by
      simp only [byteLength_append, byteLength_cons, byteLength_nil]
      omega
    refine ⟨offset, back, hback, ?_, ?_⟩
    · rw [lastLine_append_lineFeed, hoffset, hsize, Nat.add_assoc]
    · rw [List.append_assoc, List.cons_append, lines_append_lineFeed hl, List.count_append,
        List.count_eq_zero.mpr hl, List.count_cons_self, Nat.zero_add, lastLine_append_lineFeed]
      exact hline

/-- Byte `n` of a text lies in a line, which is the `i`-th from zero and starts at byte `offset`. -/
structure InLine (text : List Char) (n i offset : Nat) (line : List Char) : Prop where
  getElem? : (withOffsets 0 (lines text))[i]? = some (offset, line)
  offset_le : offset ≤ n
  lt_add : n < offset + byteLength line

theorem le_of_mem_withOffsets {base offset : Nat} {pieces : List (List Char)} {piece : List Char}
    (h : (offset, piece) ∈ withOffsets base pieces) : base ≤ offset := by
  induction pieces generalizing base with
  | nil => cases h
  | cons l pieces ih =>
    rcases List.mem_cons.mp h with h | h
    · cases h
      exact Nat.le_refl _
    · have := ih h
      omega

theorem pairwise_withOffsets (base : Nat) (pieces : List (List Char)) :
    (withOffsets base pieces).Pairwise fun a b ↦ a.1 + byteLength a.2 ≤ b.1 := by
  induction pieces generalizing base with
  | nil => exact .nil
  | cons l pieces ih => exact .cons (fun _ h ↦ le_of_mem_withOffsets h) (ih _)

theorem InLine.le {text line line' : List Char} {n i i' offset offset' : Nat}
    (h : InLine text n i offset line) (h' : InLine text n i' offset' line') : i ≤ i' := by
  by_contra hlt
  obtain ⟨hi', hget'⟩ := List.getElem?_eq_some_iff.mp h'.getElem?
  obtain ⟨hi, hget⟩ := List.getElem?_eq_some_iff.mp h.getElem?
  have hbefore := List.pairwise_iff_getElem.mp (pairwise_withOffsets 0 (lines text)) i' i hi' hi
    (Nat.lt_of_not_le hlt)
  rw [hget, hget'] at hbefore
  have hlo := h.offset_le
  have hhi := h'.lt_add
  exact absurd (hlo.trans_lt hhi) (Nat.not_lt.mpr hbefore)

theorem InLine.unique {text line line' : List Char} {n i i' offset offset' : Nat}
    (h : InLine text n i offset line) (h' : InLine text n i' offset' line') :
    i = i' ∧ offset = offset' ∧ line = line' := by
  obtain rfl : i = i' := Nat.le_antisymm (h.le h') (h'.le h)
  have hentry := h.getElem?.symm.trans h'.getElem?
  cases hentry
  exact ⟨rfl, rfl, rfl⟩

section Split

variable {text before after : List Char} {n : Nat} (htext : before ++ after = text)
  (hn : byteLength before = n) (hafter : after ≠ [])

include htext hn hafter

theorem exists_inLine_lastLine :
    ∃ offset back, offset + byteLength (lastLine before) = n ∧
      InLine text n (before.count '\n') offset (lastLine before ++ back) := by
  subst htext hn
  obtain ⟨offset, back, hback, hoffset, hline⟩ := exists_line_behind hafter before 0
  have hsize := mt byteLength_eq_zero.mp hback
  rw [Nat.zero_add] at hoffset
  refine ⟨offset, back, hoffset, hline, by omega, ?_⟩
  rw [byteLength_append]
  omega

theorem exists_inLine : ∃ i offset line, InLine text n i offset line := by
  obtain ⟨offset, back, -, hline⟩ := exists_inLine_lastLine htext hn hafter
  exact ⟨_, offset, _, hline⟩

theorem Position.after_eq_of_inLine {line : List Char} {i offset : Nat}
    (h : InLine text n i offset line) :
    Position.after before = ⟨i + 1, (takeBytes (n - offset) line).length + 1⟩ := by
  obtain ⟨offset', back, hoffset, hline⟩ := exists_inLine_lastLine htext hn hafter
  obtain ⟨rfl, rfl, rfl⟩ := h.unique hline
  have hfront : n - offset = byteLength (lastLine before) := by omega
  rw [Position.after, hfront, takeBytes_append, Nat.add_comm, Nat.add_comm 1]

end Split

end Highlighter
