import Highlighter.Text.Lines

namespace Highlighter

theorem lines_of_notMem {l : List Char} (h : '\n' ∉ l) (hne : l ≠ []) : lines l = [l] := by
  induction l with
  | nil => exact absurd rfl hne
  | cons c l ih =>
    rw [List.mem_cons, not_or] at h
    obtain ⟨hc, hl⟩ := h
    rw [lines, if_neg (Ne.symm hc)]
    by_cases hnil : l = []
    · rw [hnil]
      rfl
    · rw [ih hl hnil]

theorem lines_append_lineFeed {l : List Char} (h : '\n' ∉ l) (rest : List Char) :
    lines (l ++ '\n' :: rest) = (l ++ ['\n']) :: lines rest := by
  induction l with
  | nil => exact if_pos rfl
  | cons c l ih =>
    rw [List.mem_cons, not_or] at h
    obtain ⟨hc, hl⟩ := h
    rw [List.cons_append, lines, if_neg (Ne.symm hc), ih hl]
    rfl

/-- A line feed ends just before byte `n`. -/
def BehindLineFeed (text : List Char) (n : Nat) : Prop :=
  ∃ before after, text = before ++ '\n' :: after ∧ n = byteLength before + 1

theorem exists_append_of_byteLength_le {a b c d : List Char} (h : a ++ b = c ++ d)
    (hle : byteLength a ≤ byteLength c) : ∃ m, c = a ++ m ∧ b = m ++ d := by
  rcases List.append_eq_append_iff.mp h with hm | ⟨m, ha, hd⟩
  · exact hm
  · rw [ha, byteLength_append] at hle
    have hnil : m = [] := byteLength_eq_zero.mp (by omega)
    rw [hnil, List.append_nil] at ha
    rw [hnil] at hd
    exact ⟨[], by rw [ha, List.append_nil], hd.symm⟩

theorem not_behindLineFeed {before line : List Char} {n : Nat} (h : '\n' ∉ line)
    (hlo : byteLength before < n) (hhi : n ≤ byteLength before + byteLength line)
    (rest : List Char) :
    ¬BehindLineFeed (before ++ (line ++ rest)) n := by
  rintro ⟨front, after, htext, rfl⟩
  obtain ⟨m, rfl, hline⟩ := exists_append_of_byteLength_le htext (by omega)
  rw [byteLength_append] at hhi
  have hsize : byteLength (m ++ ['\n']) = byteLength m + 1 := byteLength_append m ['\n']
  rw [← List.singleton_append, ← List.append_assoc] at hline
  obtain ⟨u, rfl, -⟩ := exists_append_of_byteLength_le hline.symm (by omega)
  exact h (List.mem_append_left u (List.mem_append_right m (List.mem_singleton.mpr rfl)))

theorem lines_induction {motive : List Char → Prop} (nil : motive [])
    (last : ∀ l, l ≠ [] → '\n' ∉ l → motive l)
    (line : ∀ l rest, '\n' ∉ l → motive rest → motive (l ++ '\n' :: rest)) (text : List Char) :
    motive text := by
  induction hn : text.length using Nat.strongRecOn generalizing text with
  | _ n ih =>
    by_cases hmem : '\n' ∈ text
    · obtain ⟨l, rest, rfl, hl⟩ := List.eq_append_cons_of_mem hmem
      refine line l rest hl (ih _ ?_ rest rfl)
      rw [List.length_append, List.length_cons] at hn
      omega
    · by_cases hne : text = []
      · rw [hne]
        exact nil
      · exact last text hne hmem

theorem lineFeed_induction {motive : List Char → Prop} (last : ∀ l, '\n' ∉ l → motive l)
    (line : ∀ l rest, '\n' ∉ l → motive rest → motive (l ++ '\n' :: rest)) (text : List Char) :
    motive text :=
  lines_induction (last [] List.not_mem_nil) (fun l _ hl ↦ last l hl) line text

end Highlighter
