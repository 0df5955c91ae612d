import Highlighter.Proofs.Scanner.Code

namespace Highlighter

open Grammar

theorem isPlain_quote {cs : List Char} (h : closeLiteral? cs = none) : IsPlain '"' cs where
  word := by decide
  operator := by decide
  bracket category := by cases category <;> decide
  mark := by decide
  number := fun hdigit ↦ absurd hdigit (by decide)
  string := fun _ ↦ h

theorem takes_string (mode : Mode) : ∀ piece ∈ mode.piecesFor .string,
    piece.pattern.takes '\n' = false := by
  cases mode <;> decide +kernel

theorem Lexed.notMem_string {mode : Mode} {w : List Char} (h : Lexed mode .string w) :
    '\n' ∉ w := by
  generalize hcategory : Category.string = category at h
  cases h with
  | @piece _ rule piece p q _ hrule hpiece hends hw =>
    have hmem : piece ∈ mode.piecesFor .string := by
      rw [hcategory]
      exact List.mem_filter.mpr ⟨List.mem_flatMap.mpr ⟨rule, hrule, hpiece⟩, beq_self_eq_true _⟩
    obtain ⟨w', hw', htakes⟩ := Pattern.exists_reaches_of_mem_ends hends
    have hsame : w = w' := List.append_cancel_right (hw.rest.symm.trans hw'.rest)
    intro hfeed
    have htake := htakes '\n' (hsame ▸ hfeed)
    rw [takes_string mode piece hmem] at htake
    cases htake
  | plain _ => cases hcategory

namespace Scanner

variable {s : Scanner} {more body after : List Char}

theorem step_literal (hmode : s.settled.mode = .start) (hrest : s.rest = '"' :: more)
    (hclose : closeLiteral? more = some (body, after)) :
    s.step = ([⟨s.offset, s.offset + (byteLength body + 2), .string, .start⟩],
      ⟨⟨.start, s.state.stack, s.state.depth⟩, s.offset + (byteLength body + 2), after⟩) := by
  obtain ⟨htext, _⟩ := closeLiteral?_eq_some hclose
  have hlength : byteLength ('"' :: (body ++ ['"'])) = byteLength body + 2 := by
    have hquote : '"'.utf8Size = 1 := by decide
    simp only [byteLength_cons, byteLength_append, byteLength_nil, hquote]
    omega
  have hsplit : '"' :: more = '"' :: (body ++ ['"']) ++ after := by
    rw [htext]
    simp
  have hstep := step_of_reads_one hmode hrest (reads_start_string hclose) hsplit
    (List.cons_ne_nil _ _)
  rw [hlength, settled_of_start hmode] at hstep
  exact hstep

/-- No token begins inside the text that a step reads as a single token. -/
theorem Emits.outside {origin next : Scanner} {before : List Token} {t : Token}
    (h : origin.Emits before s) (hrest : s.rest ≠ []) (hstep : s.step = ([t], next))
    (hstart : t.start = s.offset) :
    ∀ u ∈ origin.run.1, u.start ≤ s.offset ∨ next.offset ≤ u.start := by
  have hrun := (h.trans (.of_step hrest hstep)).run_eq
  intro u hu
  rw [hrun] at hu
  rcases List.mem_append.mp hu with hu | hu
  · left
    rcases List.mem_append.mp hu with hu | hu
    · obtain ⟨w, _, _, htiles⟩ := h.tiles
      obtain ⟨_, part, _, _, _, _, hstop⟩ := htiles.exists_part hu
      have hle := h.stop_le hu
      omega
    · rw [List.mem_singleton.mp hu, hstart]
  · exact .inr ((emits_run next).start_le hu)

end Scanner

/-- Where a step of mode `start` begins at a quote, it reads a string literal up to the quote that
closes it, and no token begins inside the literal. Without such a quote the step reads the opening
quote alone, as plain text. No string token holds a line feed. -/
theorem classifyFrom_strings (state : ScanState) (text : List Char) :
    (∀ before s, (Scanner.ofText text state).Emits before s → s.settled.mode = .start →
      ∀ more, s.rest = '"' :: more →
        (∀ body after, closeLiteral? more = some (body, after) →
          more = body ++ '"' :: after ∧
          s.step = ([⟨s.offset, s.offset + (byteLength body + 2), .string, .start⟩],
            ⟨⟨.start, s.state.stack, s.state.depth⟩, s.offset + (byteLength body + 2), after⟩) ∧
          ∀ t ∈ (classifyFrom state text).1,
            t.start ≤ s.offset ∨ s.offset + (byteLength body + 2) ≤ t.start) ∧
        (closeLiteral? more = none →
          s.step = ([⟨s.offset, s.offset + 1, .plainText, .start⟩],
            ⟨⟨.start, s.state.stack, s.state.depth⟩, s.offset + 1, more⟩))) ∧
    ∀ t ∈ (classifyFrom state text).1, t.category = .string → '\n' ∉ t.text text := by
  constructor
  · intro before s hemits hmode more hrest
    constructor
    · intro body after hclose
      have hstep := Scanner.step_literal hmode hrest hclose
      refine ⟨(closeLiteral?_eq_some hclose).1, hstep, ?_⟩
      have hne : s.rest ≠ [] := by
        rw [hrest]
        exact List.cons_ne_nil _ _
      have houtside := hemits.outside hne hstep rfl
      rw [Scanner.run_ofText] at houtside
      exact houtside
    · intro hclose
      exact Scanner.step_plain hmode hrest (isPlain_quote hclose)
  · intro t ht hcategory
    obtain ⟨v, w, u, rfl, hspans, hlexed⟩ := lexed_of_mem_classifyFrom ht
    rw [Token.text_of_spans hspans]
    rw [hcategory] at hlexed
    exact hlexed.notMem_string

theorem classifyFrom_strings_escaped :
    (Scanner.ofText "\"é\\\"\\\\\"/*\"".toList {}).step =
      ([⟨0, 8, .string, .start⟩], ⟨{}, 8, "/*\"".toList⟩) ∧
    (∀ t ∈ (classifyFrom {} "\"é\\\"\\\\\"/*\"".toList).1, t.start ≤ 0 ∨ 8 ≤ t.start) ∧
    '\n' ∉ Token.text ⟨0, 8, .string, .start⟩ "\"é\\\"\\\\\"/*\"".toList ∧
    (Scanner.ofText "\"(\\".toList {}).step =
      ([⟨0, 1, .plainText, .start⟩], ⟨{}, 1, "(\\".toList⟩) := by
  have hclosed := classifyFrom_strings {} "\"é\\\"\\\\\"/*\"".toList
  have hunclosed := classifyFrom_strings {} "\"(\\".toList
  obtain ⟨_, hstep, houtside⟩ := (hclosed.1 [] _ (.refl _) (by decide +kernel) _ rfl).1
    "é\\\"\\\\".toList "/*\"".toList (by decide +kernel)
  exact ⟨hstep, houtside, hclosed.2 _ (by decide +kernel) rfl,
    (hunclosed.1 [] _ (.refl _) (by decide +kernel) _ rfl).2 (by decide +kernel)⟩

end Highlighter
