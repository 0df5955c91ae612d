import Highlighter.Editor.Binding
import Highlighter.Proofs.Scanner.Code

namespace Highlighter

open Grammar

def Token.isBlank (line : List Char) (t : Token) : Bool :=
  (t.text line).all Highlighter.isBlank

def openingToken? (s : ScanState) (line : List Char) : Option Token :=
  (classifyFrom s line).1.find? (!Token.isBlank line ·)

/-- The depth behind the first token that is not blank, if that is a closing bracket. Otherwise the
depth before the line. -/
def openingDepth (s : ScanState) (line : List Char) : Nat :=
  match openingToken? s line with
  | some t =>
    if t.category = .bracketClose then
      (s.nestAll ((classifyFrom s line).1.takeWhile (Token.isBlank line) ++ [t])).depth
    else s.depth
  | none => s.depth

theorem isPlain_of_isBlank {c : Char} (h : isBlank c = true) (cs : List Char) : IsPlain c cs := by
  have hall : blankChars.all (fun c ↦ isWordStart c = false ∧ c ∉ "+-*/%&|^!~<>=:".toList ∧
      (∀ category ∈ bracketCategories, c ∉ category.brackets) ∧ c ∉ [';', ',', '.'] ∧
      c.isDigit = false ∧ c ≠ '"') = true := by
    decide
  obtain ⟨hword, hoperator, hbracket, hmark, hdigit, hquote⟩ :=
    of_decide_eq_true (List.all_eq_true.mp hall c (List.contains_iff_mem.mp h))
  refine ⟨hword, hoperator, fun category hc ↦ hbracket category (mem_bracketCategories hc) hc,
    hmark, ?_, fun hc ↦ absurd hc hquote⟩
  intro hdigit'
  rw [hdigit] at hdigit'
  cases hdigit'

theorem isBlank_of_isGap {c : Char} (h : isGap c = true) : isBlank c = true := by
  rcases Bool.or_eq_true _ _ ▸ h with h | h <;> rw [eq_of_beq h] <;> decide

theorem depthBehind_of_plain {tokens : List Token} (h : ∀ t ∈ tokens, t.category = .plainText)
    (depth : Nat) : depthBehind depth tokens = depth := by
  induction tokens with
  | nil => rfl
  | cons t tokens ih =>
    have hlater := ih fun t ht ↦ h t (List.mem_cons_of_mem _ ht)
    have hfirst : t.category.depthAfter depth = depth := by
      rw [h t List.mem_cons_self]
      rfl
    unfold depthBehind at hlater ⊢
    rw [List.foldl_cons, hfirst, hlater]

namespace Scanner

variable {s : Scanner} {c : Char} {cs : List Char}

theorem settled_of_not_word (hmode : s.state.mode ≠ .comment)
    (hname : s.rest.head?.any isWordStart = false) (hgap : s.rest.head?.any isGap = false) :
    s.settled.mode = .start := by
  cases hsettled : s.settled.mode with
  | start => rfl
  | comment => exact absurd ((settled_mode_eq_comment_iff s).mp hsettled) hmode
  | functionName =>
    cases nameStep hsettled with
    | name hhead _ =>
      rw [hname] at hhead
      cases hhead
    | gaps hhead _ =>
      rw [hgap] at hhead
      cases hhead

/-- Outside comments a step at a blank reads blanks, as plain text. -/
theorem step_blank (hmode : s.state.mode ≠ .comment) (hrest : s.rest = c :: cs)
    (hc : isBlank c = true) :
    ∃ w, s.rest = w ++ s.step.2.rest ∧ (∀ c ∈ w, isBlank c = true) ∧
      s.step.2.state.mode ≠ .comment ∧ ∀ t ∈ s.step.1, t.category = .plainText := by
  have hplain := isPlain_of_isBlank hc cs
  cases hsettled : s.settled.mode with
  | start =>
    rw [step_plain hsettled hrest hplain]
    exact ⟨[c], hrest, by simpa using hc, Mode.noConfusion, by simp⟩
  | comment => exact absurd ((settled_mode_eq_comment_iff s).mp hsettled) hmode
  | functionName =>
    cases nameStep hsettled with
    | name hhead _ =>
      rw [hrest] at hhead
      exact absurd hhead (Bool.eq_false_iff.mp hplain.word)
    | gaps _ hstep =>
      rw [hstep]
      refine ⟨_, List.takeWhile_append_dropWhile.symm, ?_, hmode, by simp⟩
      intro d hd
      exact isBlank_of_isGap (List.all_eq_true.mp List.all_takeWhile d hd)

theorem exists_emits_blanks (s : Scanner) (hmode : s.state.mode ≠ .comment) :
    ∃ tokens s', s.Emits tokens s' ∧ s'.rest = trimStart s.rest ∧ s'.state.mode ≠ .comment ∧
      ∀ t ∈ tokens, t.category = .plainText := by
  induction s using step_induction with
  | stop s hrest =>
    refine ⟨[], s, .refl s, ?_, hmode, by simp⟩
    rw [hrest]
    rfl
  | step s hrest ih =>
    obtain ⟨c, cs, hcons⟩ := List.exists_cons_of_ne_nil hrest
    by_cases hc : isBlank c = true
    · obtain ⟨w, hw, hblank, hnext, hplain⟩ := step_blank hmode hcons hc
      obtain ⟨tokens, s', hemits, hrest', hmode', hlater⟩ := ih hnext
      refine ⟨s.step.1 ++ tokens, s', .step hrest hemits, ?_, hmode', ?_⟩
      · rw [hrest', hw]
        exact (List.dropWhile_append_of_pos hblank).symm
      · intro t ht
        exact (List.mem_append.mp ht).elim (hplain t) (hlater t)
    · refine ⟨[], s, .refl s, ?_, hmode, by simp⟩
      rw [hcons]
      exact (List.dropWhile_cons_of_neg hc).symm

section Front

variable {line : List Char} {state : ScanState} {tokens : List Token}

theorem Emits.isBlank_of_mem (h : (ofText line state).Emits tokens s)
    (hrest : s.rest = trimStart line) {t : Token} (ht : t ∈ tokens) : t.isBlank line = true := by
  obtain ⟨w, hw, _, htiles⟩ := h.tiles
  change line = w ++ s.rest at hw
  have hfront : line.takeWhile isBlank = w := by
    have hsplit : line.takeWhile isBlank ++ trimStart line = w ++ trimStart line := by
      rw [← hrest, ← hw, hrest]
      exact List.takeWhile_append_dropWhile
    exact List.append_cancel_right hsplit
  obtain ⟨v, part, u, rfl, _, hstart, hstop⟩ := htiles.exists_part ht
  have htext : t.text line = part := by
    rw [hw, List.append_assoc]
    exact Token.text_of_spans ⟨hstart, hstop⟩ _
  refine List.all_eq_true.mpr fun c hc ↦ ?_
  have hmem : c ∈ line.takeWhile isBlank := by
    rw [hfront, ← htext]
    simp [hc]
  exact List.all_eq_true.mp List.all_takeWhile c hmem

theorem Emits.head_not_blank (h : (ofText line state).Emits tokens s)
    (hrest : s.rest = trimStart line) : s.run.1.head?.any (Token.isBlank line) = false := by
  cases hlater : s.run.1 with
  | nil => rfl
  | cons t later =>
    have hnext := s.emits_run
    rw [hlater] at hnext
    obtain ⟨more, hmore, hne, _⟩ := h.exists_next hnext
    obtain ⟨c, cs, hcons⟩ := List.exists_cons_of_ne_nil hne
    have hc : isBlank c = false := by
      have hhead : (trimStart line).head?.any isBlank = false := any_head?_dropWhile isBlank line
      rw [← hrest, hmore, hcons] at hhead
      exact hhead
    change (t.text line).all isBlank = false
    rw [hcons, List.all_cons, hc]
    rfl

end Front

/-- Outside comments the next token is a closing bracket where such a bracket comes next. -/
theorem exists_head_closer_iff (hmode : s.state.mode ≠ .comment) (hrest : s.rest = c :: cs) :
    (∃ t, s.run.1.head? = some t ∧ t.category = .bracketClose) ↔
      c ∈ Category.bracketClose.brackets := by
  have hne : s.rest ≠ [] := by
    rw [hrest]
    exact List.cons_ne_nil c cs
  constructor
  · rintro ⟨t, ht, hcategory⟩
    obtain ⟨later, hlater⟩ := List.head?_eq_some_iff.mp ht
    have hemits := s.emits_run
    rw [hlater] at hemits
    obtain ⟨_, _, _, htiles⟩ := hemits.tiles
    obtain ⟨v, w, u, hsplit, hspans, hlexed⟩ := hemits.lexed List.mem_cons_self
    -- the token is the first, so no text is before it
    have hv : v = [] := by
      have hstart := hspans.start
      rw [htiles.start_eq] at hstart
      rw [← byteLength_eq_zero]
      omega
    rw [hcategory] at hlexed
    obtain ⟨_, d, hd, rfl⟩ := hlexed.eq_bracket (by decide)
    rw [hrest, hv] at hsplit
    rw [(List.cons.inj hsplit).1]
    exact hd
  · intro hc
    have hall : Category.bracketClose.brackets.all (fun c ↦ !isWordStart c && !isGap c) = true := by
      decide
    obtain ⟨hword, hgap⟩ : isWordStart c = false ∧ isGap c = false := by
      simpa using List.all_eq_true.mp hall c hc
    have hsettled : s.settled.mode = .start := by
      apply settled_of_not_word hmode
      · rw [hrest]
        exact hword
      · rw [hrest]
        exact hgap
    have hsplit : c :: cs = [c] ++ cs := rfl
    have hstep := step_of_reads_one hsettled hrest (reads_start_bracket hc) hsplit
      (List.cons_ne_nil c [])
    rw [run_eq_step hne, hstep]
    exact ⟨_, rfl, rfl⟩

/-- A step inside a comment reads one token of it, and if this is blank the comment goes on. -/
theorem Emits.exists_comment_token {line : List Char} {state : ScanState} {before : List Token}
    (h : (ofText line state).Emits before s) (hmode : s.state.mode = .comment)
    (hrest : s.rest ≠ []) :
    ∃ t, s.step.1 = [t] ∧ t.category = .comment ∧
      (t.isBlank line = true → s.step.2.state.mode = .comment) := by
  have hone := Emits.one hrest
  cases commentStep ((settled_mode_eq_comment_iff s).mpr hmode) hrest with
  | @closes body after hsplit hstep =>
    rw [hstep] at hone ⊢
    refine ⟨_, rfl, rfl, fun hblank ↦ ?_⟩
    obtain ⟨more, hmore, _, _, _, htiles⟩ := h.exists_next hone
    rw [htiles.eq_nil_iff.mp rfl, hsplit] at hmore
    have htext := List.append_cancel_right hmore
    have hstar := List.all_eq_true.mp hblank '*' (by rw [← htext]; simp [closer_eq])
    exact absurd hstar (by decide)
  | stays _ hstep =>
    rw [hstep]
    exact ⟨_, rfl, rfl, fun _ ↦ hmode⟩

/-- Inside a comment the first token that is not blank is part of the comment. -/
theorem Emits.category_of_find? {line : List Char} {state : ScanState} {before : List Token}
    {t : Token} (h : (ofText line state).Emits before s) (hmode : s.state.mode = .comment)
    (ht : s.run.1.find? (!Token.isBlank line ·) = some t) : t.category = .comment := by
  induction s using step_induction generalizing before with
  | stop s hrest =>
    rw [run_of_rest_eq_nil hrest] at ht
    cases ht
  | step s hrest ih =>
    have hnext := h.trans (.one hrest)
    obtain ⟨t', hstep, hcategory, hblank⟩ := h.exists_comment_token hmode hrest
    rw [run_eq_step hrest, hstep, List.singleton_append, List.find?_cons] at ht
    cases ht' : t'.isBlank line with
    | true =>
      rw [ht'] at ht
      exact ih hnext (hblank ht') ht
    | false =>
      rw [ht'] at ht
      rw [← Option.some.inj ht, hcategory]

end Scanner

section Opening

variable {s : ScanState} {line : List Char}

/-- Outside comments the first token that is not blank begins behind the blanks of the line, and the
tokens before it are plain text. -/
theorem exists_opening (line : List Char) (hmode : s.mode ≠ .comment) :
    ∃ tokens s', (Scanner.ofText line s).Emits tokens s' ∧ s'.rest = trimStart line ∧
      s'.state.mode ≠ .comment ∧ (∀ t ∈ tokens, t.category = .plainText) ∧
      openingToken? s line = s'.run.1.head? ∧
      (classifyFrom s line).1.takeWhile (Token.isBlank line) = tokens := by
  obtain ⟨tokens, s', hemits, hrest, hmode', hplain⟩ :=
    Scanner.exists_emits_blanks (.ofText line s) hmode
  change s'.rest = trimStart line at hrest
  have hrun := hemits.run_eq
  rw [Scanner.run_ofText] at hrun
  have hall : (classifyFrom s line).1 = tokens ++ s'.run.1 := congrArg Prod.fst hrun
  have hblank := fun t ht ↦ hemits.isBlank_of_mem hrest (t := t) ht
  have hsolid := hemits.head_not_blank hrest
  refine ⟨tokens, s', hemits, hrest, hmode', hplain, ?_, ?_⟩
  · have hnone : tokens.find? (!Token.isBlank line ·) = none := by
      rw [List.find?_eq_none]
      intro t ht
      rw [hblank t ht]
      exact Bool.false_ne_true
    rw [openingToken?, hall, List.find?_append, hnone, Option.none_or]
    cases hlater : s'.run.1 with
    | nil => rfl
    | cons t later =>
      rw [hlater] at hsolid
      have ht : (!t.isBlank line) = true := by
        rw [Bool.not_eq_true']
        exact hsolid
      exact List.find?_cons_of_pos ht
  · rw [hall, takeWhile_append_eq hblank hsolid]

theorem opensWithCloser_iff :
    opensWithCloser line = true ↔
      (trimStart line).head?.any (Category.bracketClose.brackets.contains ·) = true := by
  unfold opensWithCloser
  cases trimStart line with
  | nil => simp
  | cons c cs =>
    change bracketPairs.any (·.2 == c) = true ↔ ['}', ']', ')'].contains c = true
    simp [bracketPairs, @eq_comm _ c]

/-- Outside comments a line opens with a closing bracket where its first token that is not blank is
one. -/
theorem opensWithCloser_iff_token (line : List Char) (hmode : s.mode ≠ .comment) :
    opensWithCloser line = true ↔
      ∃ t, openingToken? s line = some t ∧ t.category = .bracketClose := by
  obtain ⟨_, s', _, hrest, hmode', _, hopening, _⟩ := exists_opening line hmode
  rw [opensWithCloser_iff, hopening, ← hrest]
  cases hcons : s'.rest with
  | nil =>
    rw [Scanner.run_of_rest_eq_nil hcons]
    simp
  | cons c cs =>
    rw [Scanner.exists_head_closer_iff hmode' hcons]
    exact List.contains_iff_mem

theorem category_openingToken? (hmode : s.mode = .comment) {t : Token}
    (ht : openingToken? s line = some t) : t.category = .comment := by
  have hrun : (classifyFrom s line).1 = (Scanner.ofText line s).run.1 := by
    rw [Scanner.run_ofText]
  rw [openingToken?, hrun] at ht
  exact (Scanner.Emits.refl (.ofText line s)).category_of_find? hmode ht

theorem openingDepth_of_comment (hmode : s.mode = .comment) : openingDepth s line = s.depth := by
  unfold openingDepth
  cases ht : openingToken? s line with
  | none => rfl
  | some t =>
    have hcategory := category_openingToken? hmode ht
    exact if_neg (by rw [hcategory]; exact Category.noConfusion)

theorem openingDepth_of_code (hmode : s.mode ≠ .comment) :
    openingDepth s line = if opensWithCloser line then s.depth - 1 else s.depth := by
  obtain ⟨tokens, _, _, _, _, hplain, _, hblank⟩ := exists_opening line hmode
  have hcloser := opensWithCloser_iff_token line hmode
  unfold openingDepth
  cases ht : openingToken? s line with
  | none =>
    rw [ht] at hcloser
    rw [if_neg (by simp [hcloser])]
  | some t =>
    have hcloser' : opensWithCloser line = true ↔ t.category = .bracketClose := by
      rw [hcloser, ht]
      simp
    by_cases hcategory : t.category = .bracketClose
    · have hdepth : (s.nestAll (tokens ++ [t])).depth = s.depth - 1 := by
        rw [ScanState.nestAll_eq, depthBehind_concat, depthBehind_of_plain hplain, hcategory]
        rfl
      rw [if_pos (hcloser'.mpr hcategory), hblank]
      exact (if_pos hcategory).trans hdepth
    · rw [if_neg fun hopens ↦ hcategory (hcloser'.mp hopens)]
      exact if_neg hcategory

end Opening

/-- The indentation of a line is the depth behind its first token that is not blank, if that is a
closing bracket, and the depth before the line otherwise. Only inside a comment, where that token is
part of the comment, a closing bracket at the front of the line sets it back all the same. -/
theorem indentation_eq (s : ScanState) (line : List Char) (step : Nat) :
    indentation s line step =
      step * (if s.mode = .comment ∧ opensWithCloser line then s.depth - 1
        else openingDepth s line) ∧
    (s.mode ≠ .comment → (opensWithCloser line = true ↔
      ∃ t, openingToken? s line = some t ∧ t.category = .bracketClose)) ∧
    (s.mode = .comment → openingDepth s line = s.depth ∧
      ∀ t, openingToken? s line = some t → t.category = .comment) := by
  refine ⟨?_, opensWithCloser_iff_token line, fun hmode ↦ ⟨openingDepth_of_comment hmode,
    fun _ ↦ category_openingToken? hmode⟩⟩
  rw [indentation, Nat.mul_comm]
  congr 1
  by_cases hmode : s.mode = .comment
  · simp [hmode, openingDepth_of_comment hmode]
  · simp [hmode, openingDepth_of_code hmode]

theorem indentation_eq_in_modes :
    (∃ t, openingToken? ⟨.functionName, [], 2⟩ "\t\u2003)".toList = some t ∧
      t.category = .bracketClose) ∧
    indentation ⟨.functionName, [], 2⟩ "\t\u2003)".toList 4 = 4 * 1 ∧
    openingDepth ⟨.comment, [.start], 1⟩ "\x7d".toList = 1 ∧
    indentation ⟨.comment, [.start], 1⟩ "\x7d".toList 4 = 4 * 0 := by
  have hcode := indentation_eq ⟨.functionName, [], 2⟩ "\t\u2003)".toList 4
  have hcomment := indentation_eq ⟨.comment, [.start], 1⟩ "\x7d".toList 4
  exact ⟨(hcode.2.1 (by decide)).mp (by decide), hcode.1.trans (by decide +kernel),
    (hcomment.2.2 rfl).1, hcomment.1.trans (by decide +kernel)⟩

theorem exists_indentation_in_comment :
    ¬ ∀ s, Reachable s → ∀ line step, indentation s line step = step * openingDepth s line := by
  intro hall
  have hopen : (classifyFrom (.inMode .start) "\x7b /*\n".toList).2 = ⟨.comment, [.start], 1⟩ := by
    decide +kernel
  have hstate : Reachable ⟨.comment, [.start], 1⟩ := by
    rw [← hopen]
    exact .classify (.inMode .start) _
  have hline := hall _ hstate "\x7d".toList 4
  exact absurd hline (by decide +kernel)

end Highlighter
