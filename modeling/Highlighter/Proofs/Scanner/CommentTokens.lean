import Highlighter.Proofs.Scanner.Comment

namespace Highlighter

open Grammar

theorem ScanState.mode_nestAll (s : ScanState) (tokens : List Token) :
    (s.nestAll tokens).mode = s.mode := by
  induction tokens generalizing s with
  | nil => rfl
  | cons t tokens ih =>
    have hlater := ih (s.nest t.category.indentDelta)
    rw [ScanState.mode_nest] at hlater
    exact hlater

def Transition.avoidsComment : Transition → Bool
  | .goto mode => mode != .comment
  | .push _ | .pop => false

def Rule.avoidsComment (rule : Rule) : Bool :=
  rule.pieces.all (·.category != .comment) && rule.transition.all (·.avoidsComment)

theorem Rule.avoidsComment_of_mem {rule : Rule} (h : rule ∈ codeRules ++ definitionRules) :
    (∀ piece ∈ rule.pieces, piece.category ≠ .comment) ∧
      rule.transition.all (·.avoidsComment) = true := by
  have hall : (codeRules ++ definitionRules).all (·.avoidsComment) = true := by decide +kernel
  obtain ⟨hpieces, htransition⟩ := Bool.and_eq_true _ _ ▸ List.all_eq_true.mp hall rule h
  refine ⟨?_, htransition⟩
  intro piece hpiece
  exact bne_iff_ne.mp (List.all_eq_true.mp hpieces piece hpiece)

theorem ScanState.mode_follow?_ne_comment {s : ScanState} {transition : Option Transition}
    (hmode : s.mode ≠ .comment) (h : transition.all (·.avoidsComment) = true) :
    (s.follow? transition).mode ≠ .comment := by
  cases transition with
  | none => exact hmode
  | some t =>
    cases t with
    | goto mode => exact bne_iff_ne.mp h
    | push mode => cases h
    | pop => cases h

theorem reads_commentRules_none {text : List Char} (hline : ¬ "//".toList <+: text)
    (hblock : ¬ "/*".toList <+: text) : Reads commentRules text none := by
  have hfirst : Reads [whole "line-comment" .comment (.all [.literal "//", .greedy anyOnLine])]
      text none := reads_whole_none (Pattern.first?_seq_literal_eq_none hline _)
  have hsecond : Reads [whole "block-comment" .comment
      (.all [.literal "/*", .reluctant anyOnLine, .literal "*/"])] text none :=
    reads_whole_none (Pattern.first?_seq_literal_eq_none hblock _)
  have hthird : Reads [whole "block-comment-open" .comment
      (.all [.literal "/*", .greedy anyOnLine, lineEnd]) (some (.push .comment))] text none :=
    reads_whole_none (Pattern.first?_seq_literal_eq_none hblock _)
  exact hfirst.append (hsecond.append hthird)

/-- Outside comments, where none begins, no rule of a comment matches. -/
theorem mem_codeRules_of_find? {mode : Mode} {text : List Char} {m : RuleMatch}
    (hmode : mode ≠ .comment) (hline : mode = .start → ¬ "//".toList <+: text)
    (hblock : mode = .start → ¬ "/*".toList <+: text) (hm : mode.find? text = some m) :
    m.rule ∈ codeRules ++ definitionRules := by
  cases mode with
  | start =>
    have hcomment : commentRules.findSome? (·.match? text) = none :=
      reads_commentRules_none (hline rfl) (hblock rfl)
    have hcode : codeRules.findSome? (·.match? text) = some m := by
      change startRules.findSome? _ = some m at hm
      rwa [startRules_eq, List.findSome?_append, hcomment, Option.none_or] at hm
    obtain ⟨rule, hrule, hmatch⟩ := List.exists_of_findSome?_eq_some hcode
    rw [(Rule.finish_match? hmatch).1]
    exact List.mem_append_left _ hrule
  | comment => exact absurd rfl hmode
  | functionName => exact List.mem_append_right _ (Mode.finish_find? hm).1

namespace Scanner

variable {s : Scanner}

theorem step_code (hrest : s.rest ≠ []) (hmode : s.settled.mode ≠ .comment)
    (hline : s.settled.mode = .start → ¬ "//".toList <+: s.rest)
    (hblock : s.settled.mode = .start → ¬ "/*".toList <+: s.rest) :
    (∀ t ∈ s.step.1, t.category ≠ .comment) ∧ s.step.2.state.mode ≠ .comment := by
  cases hm : s.settled.mode.find? s.rest with
  | none =>
    obtain ⟨c, cs, hcons⟩ := List.exists_cons_of_ne_nil hrest
    rw [step_of_find?_eq_none hcons hm]
    refine ⟨?_, hmode⟩
    intro t ht
    rw [List.mem_singleton.mp ht]
    change Category.plainText ≠ .comment
    decide
  | some m =>
    have hrule := mem_codeRules_of_find? hmode hline hblock hm
    obtain ⟨hpieces, htransition⟩ := Rule.avoidsComment_of_mem hrule
    rw [step_of_find?_eq_some hrest hm]
    constructor
    · intro t ht
      obtain ⟨piece, hpiece, hcategory⟩ := RuleMatch.category_of_mem_tokens (Mode.cuts_find? hm) ht
      rw [hcategory]
      exact hpieces piece hpiece
    · refine ScanState.mode_follow?_ne_comment ?_ htransition
      rw [ScanState.mode_nestAll]
      exact hmode

/-- The token belongs to a comment that begins where a step of mode `start` does. -/
def InComment (origin : Scanner) (t : Token) : Prop :=
  ∃ before s, origin.Emits before s ∧ s.settled.mode = .start ∧
    ((∃ more, s.rest = "//".toList ++ more ∧ s.step.1 = [t]) ∨
      ∃ region after closed, BlockComment s.rest region after closed ∧
        t ∈ commentLines .start s.offset (lines region))

/-- From a place outside comments some steps lead to a place outside comments or to the end. -/
theorem exists_emits_inComment {origin : Scanner} {before : List Token}
    (h : origin.Emits before s) (hrest : s.rest ≠ []) (hmode : s.state.mode ≠ .comment) :
    ∃ tokens s', s.Emits tokens s' ∧ s'.rest.length < s.rest.length ∧
      (s'.state.mode ≠ .comment ∨ s'.rest = []) ∧
      ∀ t ∈ tokens, t.category = .comment → InComment origin t := by
  have hsettled : s.settled.mode ≠ .comment := by
    rw [Ne, settled_mode_eq_comment_iff]
    exact hmode
  -- a line comment is one step, a block comment as many as it has lines, and code one step
  by_cases hline : s.settled.mode = .start ∧ "//".toList <+: s.rest
  · obtain ⟨hstart, more, hmore⟩ := hline
    have hstep := step_lineComment hstart hmore.symm
    refine ⟨s.step.1, s.step.2, .one hrest, length_rest_step s hrest, .inl ?_, ?_⟩
    · rw [hstep]
      change Mode.start ≠ .comment
      decide
    · intro t ht _
      refine ⟨before, s, h, hstart, .inl ⟨more, hmore.symm, ?_⟩⟩
      rw [hstep] at ht ⊢
      rw [List.mem_singleton.mp ht]
  by_cases hblock : s.settled.mode = .start ∧ "/*".toList <+: s.rest
  · obtain ⟨hstart, more, hmore⟩ := hblock
    obtain ⟨region, after, closed, hregion⟩ := exists_blockComment more
    rw [hmore] at hregion
    have hemits := emits_block hstart hregion
    refine ⟨_, _, hemits, ?_, ?_, ?_⟩
    · have hlength := List.length_pos_iff.mpr hregion.region_ne_nil
      rw [hregion.text_eq, List.length_append]
      change after.length < _
      omega
    · exact hregion.mode_afterBlock_or s.state
    · intro t ht _
      exact ⟨before, s, h, hstart, .inr ⟨region, after, closed, hregion, ht⟩⟩
  · have hline' : s.settled.mode = .start → ¬ "//".toList <+: s.rest :=
      fun hstart hfront ↦ hline ⟨hstart, hfront⟩
    have hblock' : s.settled.mode = .start → ¬ "/*".toList <+: s.rest :=
      fun hstart hfront ↦ hblock ⟨hstart, hfront⟩
    obtain ⟨hcategory, hnext⟩ := step_code hrest hsettled hline' hblock'
    refine ⟨s.step.1, s.step.2, .one hrest, length_rest_step s hrest, .inl hnext, ?_⟩
    intro t ht hcomment
    exact absurd hcomment (hcategory t ht)

/-- Every comment token of a run that begins outside comments belongs to a comment. -/
theorem inComment_of_mem_run {origin : Scanner} {before : List Token} (h : origin.Emits before s)
    (hmode : s.state.mode ≠ .comment) {t : Token} (ht : t ∈ s.run.1)
    (hcomment : t.category = .comment) : InComment origin t := by
  -- a block comment is passed over as a whole, so the induction is on the text that is left
  induction hn : s.rest.length using Nat.strongRecOn generalizing s before with
  | _ n ih =>
    by_cases hrest : s.rest = []
    · rw [run_of_rest_eq_nil hrest] at ht
      cases ht
    obtain ⟨tokens, s', hemits, hlt, hnext, htokens⟩ := exists_emits_inComment h hrest hmode
    rw [hemits.run_eq] at ht
    rcases List.mem_append.mp ht with ht | ht
    · exact htokens t ht hcomment
    · rcases hnext with hnext | hend
      · exact ih _ (by omega) (h.trans hemits) hnext ht rfl
      · rw [run_of_rest_eq_nil hend] at ht
        cases ht

end Scanner

/-- Where a step of mode `start` begins at `//`, it reads a line comment. Where one begins at `/*`,
the tokens from there to the end of the block comment are its lines, and the text goes on behind it
in mode `start`, or ends in mode `comment` if nothing closes it. A text read from mode `start` has
no other comment tokens. -/
theorem classifyFrom_comments (state : ScanState) (text : List Char) :
    (∀ before s, (Scanner.ofText text state).Emits before s → s.settled.mode = .start →
      (∀ more, s.rest = "//".toList ++ more →
        s.step =
          ([⟨s.offset, s.offset + byteLength ("//".toList ++ more.takeWhile (· != '\n')),
              .comment, .start⟩],
            ⟨⟨.start, s.state.stack, s.state.depth⟩,
              s.offset + byteLength ("//".toList ++ more.takeWhile (· != '\n')),
              more.dropWhile (· != '\n')⟩)) ∧
      (∀ more, s.rest = "/*".toList ++ more →
        ∃ region after closed, BlockComment s.rest region after closed ∧
          s.Emits (commentLines .start s.offset (lines region))
            ⟨s.state.afterBlock closed, s.offset + byteLength region, after⟩ ∧
          (closed = false → (classifyFrom state text).2 = s.state.afterBlock false) ∧
          ∃ later, (classifyFrom state text).1 =
              before ++ commentLines .start s.offset (lines region) ++ later ∧
            (∀ t ∈ before, t.stop ≤ s.offset) ∧
            ∀ t ∈ later, s.offset + byteLength region ≤ t.start)) ∧
    (state.mode = .start → ∀ t ∈ (classifyFrom state text).1, t.category = .comment →
      (Scanner.ofText text state).InComment t) := by
  constructor
  · intro before s hemits hmode
    refine ⟨fun more hrest ↦ Scanner.step_lineComment hmode hrest, ?_⟩
    intro more hrest
    obtain ⟨region, after, closed, hregion⟩ := exists_blockComment more
    rw [← hrest] at hregion
    have hblock := Scanner.emits_block hmode hregion
    have hrun := (hemits.trans hblock).run_eq
    rw [Scanner.run_ofText] at hrun
    refine ⟨region, after, closed, hregion, hblock, ?_, _, congrArg Prod.fst hrun, ?_, ?_⟩
    · rintro rfl
      obtain rfl := hregion.after_eq_nil
      exact congrArg (·.2.state) hrun
    · exact fun t ht ↦ hemits.stop_le ht
    · exact fun t ht ↦ (Scanner.emits_run _).start_le ht
  · intro hmode t ht hcomment
    have hstart : (Scanner.ofText text state).state.mode ≠ .comment := by
      change state.mode ≠ .comment
      rw [hmode]
      exact Mode.noConfusion
    refine Scanner.inComment_of_mem_run (.refl _) hstart ?_ hcomment
    rw [Scanner.run_ofText]
    exact ht

theorem classifyFrom_comments_two_lines :
    (∃ region after closed, BlockComment "/*a\n*/x".toList region after closed ∧
      ∃ later, (classifyFrom {} "/*a\n*/x".toList).1 =
        commentLines .start 0 (lines region) ++ later) ∧
    (Scanner.ofText "/*a\n*/x".toList {}).InComment ⟨4, 6, .comment, .comment⟩ ∧
    (Scanner.ofText "//a\nb".toList {}).step =
      ([⟨0, 3, .comment, .start⟩], ⟨{}, 3, "\nb".toList⟩) := by
  have hblock := classifyFrom_comments {} "/*a\n*/x".toList
  have hline := classifyFrom_comments {} "//a\nb".toList
  refine ⟨?_, hblock.2 rfl _ (by decide +kernel) rfl, ?_⟩
  · obtain ⟨region, after, closed, hregion, _, _, later, hlater, _⟩ :=
      (hblock.1 [] _ (.refl _) (by decide +kernel)).2 "a\n*/x".toList rfl
    exact ⟨region, after, closed, hregion, later, hlater⟩
  · exact (hline.1 [] _ (.refl _) (by decide +kernel)).1 "a\nb".toList rfl

end Highlighter
