import Highlighter.Proofs.Scanner.Definition

namespace Highlighter

open Grammar

namespace Scanner

variable {s : Scanner} {c : Char} {cs : List Char}

theorem step_number (hmode : s.settled.mode = .start) (hrest : s.rest = c :: cs)
    (hdigit : c.isDigit = true) (hnumber : isNumber ((c :: cs).takeWhile isWordChar) = true) :
    s.step = ([⟨s.offset, s.offset + byteLength ((c :: cs).takeWhile isWordChar), .number, .start⟩],
      ⟨⟨.start, s.state.stack, s.state.depth⟩,
        s.offset + byteLength ((c :: cs).takeWhile isWordChar),
        (c :: cs).dropWhile isWordChar⟩) := by
  have hchar := isWordChar_of_isDigit hdigit
  have hword := isWord_takeWhile hchar cs
  have hhead : ((c :: cs).takeWhile isWordChar).head?.any Char.isDigit = true := by
    rw [List.takeWhile_cons_of_pos hchar]
    exact hdigit
  have hreads := reads_start_number hword hhead hnumber
  have hrest' : s.rest = (c :: cs).takeWhile isWordChar ++ (c :: cs).dropWhile isWordChar := by
    rw [List.takeWhile_append_dropWhile, hrest]
  have hstep := step_of_reads_one hmode hrest' hreads rfl hword.ne_nil
  rw [settled_of_start hmode] at hstep
  exact hstep

theorem isPlain_of_step {t : Token} (hmode : s.settled.mode = .start) (hrest : s.rest = c :: cs)
    (hstep : s.step.1 = [t]) (hplain : t.category = .plainText) : IsPlain c cs := by
  have hne : s.rest ≠ [] := by
    rw [hrest]
    exact List.cons_ne_nil c cs
  cases startStep hmode hne with
  | definition hopens =>
    rw [hopens.step] at hstep
    cases hstep
  | plain hrest' hplain' _ =>
    obtain ⟨rfl, rfl⟩ := List.cons.inj (hrest.symm.trans hrest')
    exact hplain'
  | other hcategory =>
    have hmem : t ∈ s.step.1 := by
      rw [hstep]
      exact List.mem_cons_self
    exact absurd hplain (hcategory t hmem).1

variable {text : List Char} {state : ScanState} {tokens : List Token} {final : Scanner}

/-- A plain token of a text is one character, or it is the gaps behind a keyword `fn`. -/
theorem Emits.plain_cases {u v : List Token} {t : Token}
    (h : (ofText text state).Emits (u ++ t :: v) final) (hmode : state.mode = .start)
    (hplain : t.category = .plainText) :
    (∃ before s, (ofText text state).Emits before s ∧ s.settled.mode = .start ∧
      s.rest ≠ [] ∧ s.step.1 = [t]) ∨
    ∃ earlier fn, u = earlier ++ [fn] ∧ fn.category = .keyword ∧ fn.text text = "fn".toList ∧
      t.start = fn.stop ∧ t.text text ≠ [] ∧
      t.text text = (dropBytes t.start text).takeWhile isGap := by
  obtain ⟨before, s, x, y, later, hbefore, hrest, hstep, rfl, rfl, _⟩ := h.exists_step_of_split
  have hmem : t ∈ s.step.1 := by
    rw [hstep]
    exact List.mem_append_right x List.mem_cons_self
  cases hsettled : s.settled.mode with
  | start =>
    cases startStep hsettled hrest with
    | @definition gaps next hopens =>
      right
      obtain ⟨hfn, hgaps, hdrop⟩ := hopens.text_eq hbefore
      rw [hopens.step] at hstep
      cases x with
      | nil =>
        rw [← (List.cons.inj hstep).1] at hplain
        cases hplain
      | cons fn x =>
        obtain ⟨rfl, hsecond⟩ := List.cons.inj hstep
        obtain ⟨rfl, rfl, _⟩ := of_singleton_eq_append_cons hsecond
        refine ⟨before, _, rfl, rfl, hfn, rfl, ?_, ?_⟩
        · rw [hgaps]
          exact hopens.ne_nil
        · have hwhole : (dropBytes (s.offset + 2) text).takeWhile isGap = gaps := by
            rw [hdrop, takeWhile_append_eq hopens.chars hopens.stop]
          rw [hgaps]
          exact hwhole.symm
    | plain _ _ hstep' =>
      left
      rw [hstep'] at hmem
      refine ⟨before, s, hbefore, hsettled, hrest, ?_⟩
      rw [hstep', List.mem_singleton.mp hmem]
    | other hcategory => exact absurd hplain (hcategory t hmem).1
  | comment =>
    rw [category_of_comment hsettled hrest hmem] at hplain
    cases hplain
  | functionName =>
    cases nameStep hsettled with
    | name _ hstep' =>
      rw [hstep'] at hmem
      rw [List.mem_singleton.mp hmem] at hplain
      cases hplain
    | gaps hgap _ =>
      rw [(hbefore.fromStart hmode).not_gap hsettled] at hgap
      cases hgap

end Scanner

/-- A step of the mode `start` reads one character of plain text exactly where this begins no word,
no symbol, no number and no string, and it reads a number where one begins. Read from the mode
`start`, a text has no other plain text but the spaces and tabs behind a keyword `fn`. -/
theorem classifyFrom_plain :
    (∀ s : Scanner, s.settled.mode = .start → ∀ c cs, s.rest = c :: cs →
      ((∃ t, s.step.1 = [t] ∧ t.category = .plainText ∧ t.start = s.offset ∧
          t.stop = s.offset + c.utf8Size) ↔ IsPlain c cs) ∧
      (c.isDigit = true → isNumber ((c :: cs).takeWhile isWordChar) = true →
        s.step = ([⟨s.offset, s.offset + byteLength ((c :: cs).takeWhile isWordChar), .number,
            .start⟩],
          ⟨⟨.start, s.state.stack, s.state.depth⟩,
            s.offset + byteLength ((c :: cs).takeWhile isWordChar),
            (c :: cs).dropWhile isWordChar⟩))) ∧
    ∀ state text, state.mode = .start →
      ∀ u t v, (classifyFrom state text).1 = u ++ t :: v → t.category = .plainText →
        (∃ before s c cs, (Scanner.ofText text state).Emits before s ∧ s.settled.mode = .start ∧
          s.rest = c :: cs ∧ IsPlain c cs ∧ s.step.1 = [t] ∧ t.start = s.offset ∧
          t.stop = s.offset + c.utf8Size) ∨
        ∃ earlier fn, u = earlier ++ [fn] ∧ fn.category = .keyword ∧ fn.text text = "fn".toList ∧
          t.start = fn.stop ∧ t.text text ≠ [] ∧
          t.text text = (dropBytes t.start text).takeWhile isGap := by
  constructor
  · intro s hmode c cs hrest
    refine ⟨⟨?_, fun hplain ↦ ?_⟩, fun hdigit hnumber ↦ ?_⟩
    · rintro ⟨t, hstep, hplain, _⟩
      exact Scanner.isPlain_of_step hmode hrest hstep hplain
    · rw [Scanner.step_plain hmode hrest hplain]
      exact ⟨_, rfl, rfl, rfl, rfl⟩
    · exact Scanner.step_number hmode hrest hdigit hnumber
  · intro state text hmode u t v hsplit hplain
    have hemits := (Scanner.ofText text state).emits_run
    rw [Scanner.run_ofText, hsplit] at hemits
    rcases hemits.plain_cases hmode hplain with ⟨before, s, hbefore, hsettled, hrest, hstep⟩ | hgaps
    · left
      obtain ⟨c, cs, hcons⟩ := List.exists_cons_of_ne_nil hrest
      have hone := Scanner.isPlain_of_step hsettled hcons hstep hplain
      have htoken := hstep
      rw [Scanner.step_plain hsettled hcons hone] at htoken
      obtain rfl := (List.cons.inj htoken).1
      exact ⟨before, s, c, cs, hbefore, hsettled, hcons, hone, hstep, rfl, rfl⟩
    · exact .inr hgaps

/-- `0b12` is no number, so its first digit is plain text, while `0x_F` is a number as a whole. -/
theorem classifyFrom_plain_partial_number :
    (∃ t, (Scanner.ofText "0b12".toList {}).step.1 = [t] ∧ t.category = .plainText ∧
      t.start = 0 ∧ t.stop = 1) ∧
    (Scanner.ofText "0x_F+".toList {}).step =
      ([⟨0, 4, .number, .start⟩], ⟨{}, 4, "+".toList⟩) ∧
    ((∃ before s c cs, (Scanner.ofText "fn \t1".toList {}).Emits before s ∧
        s.settled.mode = .start ∧ s.rest = c :: cs ∧ IsPlain c cs ∧
        s.step.1 = [⟨2, 4, .plainText, .start⟩] ∧ 2 = s.offset ∧ 4 = s.offset + c.utf8Size) ∨
      ∃ earlier fn, [Token.mk 0 2 .keyword .start] = earlier ++ [fn] ∧ fn.category = .keyword ∧
        fn.text "fn \t1".toList = "fn".toList ∧ 2 = fn.stop ∧
        Token.text ⟨2, 4, .plainText, .start⟩ "fn \t1".toList ≠ [] ∧
        Token.text ⟨2, 4, .plainText, .start⟩ "fn \t1".toList =
          (dropBytes 2 "fn \t1".toList).takeWhile isGap) := by
  have hdigit : IsPlain '0' "b12".toList :=
    ⟨by decide, by decide, fun category ↦ by cases category <;> decide, by decide,
      fun _ ↦ by decide, fun hquote ↦ absurd hquote (by decide)⟩
  have htokens : (classifyFrom {} "fn \t1".toList).1 =
      [⟨0, 2, .keyword, .start⟩] ++ ⟨2, 4, .plainText, .start⟩ :: [⟨4, 5, .number, .start⟩] := by
    decide +kernel
  have hplain := classifyFrom_plain.1 (.ofText "0b12".toList {}) (by decide +kernel) _ _ rfl
  have hnumber := classifyFrom_plain.1 (.ofText "0x_F+".toList {}) (by decide +kernel) _ _ rfl
  exact ⟨hplain.1.mpr hdigit, hnumber.2 (by decide) (by decide),
    classifyFrom_plain.2 {} _ rfl _ _ _ htokens rfl⟩

end Highlighter
