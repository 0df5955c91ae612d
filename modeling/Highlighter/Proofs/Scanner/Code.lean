import Highlighter.Proofs.Scanner.CommentTokens
import Highlighter.Proofs.Scanner.Symbol
import Highlighter.Proofs.Scanner.WordEdge

namespace Highlighter

open Grammar

section Reads

variable {c : Char} {cs : List Char}

theorem isWordChar_of_isWordStart (h : isWordStart c = true) : isWordChar c = true := by
  unfold isWordStart at h
  rcases Bool.or_eq_true _ _ ▸ h with h | h
  · simp [isWordChar, Char.isAlphanum, h]
  · simp [isWordChar, h]

theorem find?_start_ne_none_of_reads {text : List Char} {reading : Reading}
    (h : Reads startRules text (some reading)) : Mode.start.find? text ≠ none := by
  obtain ⟨m, hm, _⟩ := h
  change startRules.findSome? _ ≠ none
  rw [hm]
  exact Option.some_ne_none m

theorem isPlain_of_find?_eq_none (h : Mode.start.find? (c :: cs) = none) : IsPlain c cs where
  word := by
    rw [Bool.eq_false_iff]
    intro hword
    have hdigit := isDigit_of_find?_eq_none h (isWordChar_of_isWordStart hword)
    rw [isWordStart_of_isDigit hdigit] at hword
    cases hword
  operator := by
    intro hc
    have hrule : whole "operator" .operator (.one ("+-*/%&|^!~<>=:".toList.contains ·)) ∈
        Mode.start.rules := by
      simp [Mode.rules, startRules, symbolRules]
    exact find?_ne_none_of_one hrule (List.contains_iff_mem.mpr hc) cs h
  bracket := fun category hc ↦ find?_start_ne_none hc cs h
  mark := by
    intro hc
    have hrule : whole "punctuation" .punctuation (.one ([';', ',', '.'].contains ·)) ∈
        Mode.start.rules := by
      simp [Mode.rules, startRules, symbolRules]
    exact find?_ne_none_of_one hrule (List.contains_iff_mem.mpr hc) cs h
  number := by
    intro hdigit
    have hchar := isWordChar_of_isDigit hdigit
    rw [Bool.eq_false_iff]
    intro hnumber
    have hhead : ((c :: cs).takeWhile isWordChar).head?.any Char.isDigit = true := by
      rw [List.takeWhile_cons_of_pos hchar]
      exact hdigit
    have hreads := reads_start_number (isWord_takeWhile hchar cs) hhead hnumber
    rw [List.takeWhile_append_dropWhile] at hreads
    exact find?_start_ne_none_of_reads hreads h
  string := by
    rintro rfl
    cases hclose : closeLiteral? cs with
    | none => rfl
    | some pair => exact absurd h (find?_start_ne_none_of_reads (reads_start_string hclose))

/-- What a word is read as, as far as definitions and plain text go. -/
theorem readWord_cases (w rest : List Char) :
    (String.ofList w = "fn" ∧ rest.head?.any isGap = true ∧ readWord w rest =
      ⟨[⟨w, .keyword⟩, ⟨rest.takeWhile isGap, .plainText⟩], some (.goto .functionName)⟩) ∨
    ((readWord w rest).transition = none ∧
      (∀ l ∈ (readWord w rest).lexemes,
        l.category ≠ .plainText ∧ l.category ≠ .definitionName) ∧
      ∀ l ∈ (readWord w rest).lexemes, l.category = .keyword →
        (readWord w rest).lexemes = [⟨w, .keyword⟩] ∧
          ¬ (String.ofList w = "fn" ∧ rest.head?.any isGap = true)) := by
  have hnames : ∀ naming : Naming, naming.category ≠ .plainText ∧
      naming.category ≠ .definitionName ∧ naming.category ≠ .keyword := by
    intro naming
    cases naming <;> decide
  unfold readWord
  dsimp only
  split
  · exact .inr ⟨rfl, by simp⟩
  split
  · rename_i hdefinition
    exact .inl ⟨hdefinition.1, hdefinition.2, rfl⟩
  rename_i hdefinition
  split
  · exact .inr ⟨rfl, by simp, fun _ _ _ ↦ ⟨rfl, hdefinition⟩⟩
  iterate 3
    split
    · exact .inr ⟨rfl, by simp⟩
  split
  · exact .inr ⟨rfl, by simp [hnames], by simp [hnames]⟩
  split <;> exact .inr ⟨rfl, by simp⟩

theorem reads_name {text : List Char} (h : text.head?.any isWordStart = true) :
    Reads definitionRules text
      (some ⟨[⟨text.takeWhile isWordChar, .definitionName⟩], some (.goto .start)⟩) := by
  cases text with
  | nil => cases h
  | cons c cs =>
    have hc : isWordStart c = true := h
    have hchar := isWordChar_of_isWordStart hc
    have hmove : (Point.atStart (c :: cs)).advance? isWordStart = _ := Point.advance?_of_pos rfl hc
    have hrun := Pattern.first?_greedy_one (p := (Point.atStart (c :: cs)).behind [c] cs)
      List.takeWhile_append_dropWhile.symm (List.all_eq_true.mp List.all_takeWhile)
      (any_head?_dropWhile isWordChar cs)
    have hpattern : (Pattern.seq (.one isWordStart) wordTail).first? (Point.atStart (c :: cs)) =
        some ((Point.atStart (c :: cs)).behind ((c :: cs).takeWhile isWordChar)
          ((c :: cs).dropWhile isWordChar)) := by
      rw [Pattern.first?_seq_one, hmove, Option.bind_some, wordTail, hrun, Point.behind_behind,
        List.takeWhile_cons_of_pos hchar, List.dropWhile_cons_of_pos hchar]
      rfl
    have hname : Reads [whole "definition-name" .definitionName
        (.seq (.one isWordStart) wordTail) (some (.goto .start))] (c :: cs) _ :=
      reads_whole List.takeWhile_append_dropWhile.symm (isWord_takeWhile hchar cs).ne_nil hpattern
    exact hname.append_left _

theorem reads_name_none {text : List Char} (h : text.head?.any isWordStart = false) :
    Reads [whole "definition-name" .definitionName
      (.seq (.one isWordStart) wordTail) (some (.goto .start))] text none := by
  refine reads_whole_none ?_
  rw [Pattern.first?_seq_one, Point.advance?_of_neg h]
  rfl

/-- Where a name is due and none comes next, only gaps can be read. -/
theorem reads_gaps {text : List Char} (h : text.head?.any isWordStart = false) :
    Reads definitionRules text
      (if text.head?.any isGap then some ⟨[⟨text.takeWhile isGap, .plainText⟩], none⟩
        else none) := by
  have hgaps : Reads [whole "blank" .plainText (.greedy1 (.one isGap))] text
      (if text.head?.any isGap then some ⟨[⟨text.takeWhile isGap, .plainText⟩], none⟩
        else none) := by
    by_cases hhead : text.head?.any isGap = true
    · rw [if_pos hhead]
      exact reads_whole List.takeWhile_append_dropWhile.symm (takeWhile_ne_nil hhead)
        ((Pattern.first?_gaps _).trans (if_pos hhead))
    · rw [if_neg hhead]
      exact reads_whole_none ((Pattern.first?_gaps _).trans (if_neg hhead))
  exact (reads_name_none h).append hgaps

end Reads

def Rule.readsApart (rule : Rule) : Bool :=
  rule.pieces.all (fun piece ↦
    !List.contains [.keyword, .plainText, .definitionName] piece.category) &&
    [none, some (.push .comment)].contains rule.transition

theorem readsApart_apartRules : apartRules.all (·.readsApart) = true := by
  decide +kernel

namespace Scanner

variable {s : Scanner}

theorem mode_of_mem_step {t : Token} (hrest : s.rest ≠ []) (ht : t ∈ s.step.1) :
    t.mode = s.settled.mode := by
  cases hm : s.settled.mode.find? s.rest with
  | some m =>
    rw [step_of_find?_eq_some hrest hm] at ht
    exact RuleMatch.mode_of_mem_tokens (Mode.cuts_find? hm) ht
  | none =>
    obtain ⟨c, cs, hcons⟩ := List.exists_cons_of_ne_nil hrest
    rw [step_of_find?_eq_none hcons hm] at ht
    rw [List.mem_singleton.mp ht]

/-- A step of the mode `start` that reads `fn` and the gaps behind it, up to `next`. -/
structure OpensDefinition (s : Scanner) (gaps : List Char) (next : Scanner) : Prop where
  rest : s.rest = "fn".toList ++ (gaps ++ next.rest)
  ne_nil : gaps ≠ []
  chars : ∀ c ∈ gaps, isGap c = true
  stop : next.rest.head?.any isGap = false
  step : s.step = ([⟨s.offset, s.offset + 2, .keyword, .start⟩,
    ⟨s.offset + 2, s.offset + 2 + byteLength gaps, .plainText, .start⟩], next)
  state : next.state = ⟨.functionName, s.state.stack, s.state.depth⟩
  offset : next.offset = s.offset + 2 + byteLength gaps

inductive StartStep (s : Scanner) : Prop
  | definition {gaps : List Char} {next : Scanner} (h : s.OpensDefinition gaps next)
  | plain {c : Char} {cs : List Char} (hrest : s.rest = c :: cs) (hplain : IsPlain c cs)
      (hstep : s.step = ([⟨s.offset, s.offset + c.utf8Size, .plainText, .start⟩],
        ⟨⟨.start, s.state.stack, s.state.depth⟩, s.offset + c.utf8Size, cs⟩))
  | other (hcategory : ∀ t ∈ s.step.1, t.category ≠ .plainText ∧ t.category ≠ .definitionName)
      (hkeyword : ∀ t ∈ s.step.1, t.category = .keyword → s.step.1 = [t] ∧
        ¬ (s.rest = "fn".toList ++ s.step.2.rest ∧ s.step.2.rest.head?.any isGap = true))
      (hnext : s.step.2.state.mode = .start ∨
        s.step.2.state.mode = .comment ∧ s.step.2.state.stack.head? = some .start)

theorem step_plain {c : Char} {cs : List Char} (hmode : s.settled.mode = .start)
    (hrest : s.rest = c :: cs) (hplain : IsPlain c cs) :
    s.step = ([⟨s.offset, s.offset + c.utf8Size, .plainText, .start⟩],
      ⟨⟨.start, s.state.stack, s.state.depth⟩, s.offset + c.utf8Size, cs⟩) := by
  have hnone : s.settled.mode.find? s.rest = none := by
    rw [hmode, hrest]
    exact hplain.find?_eq_none
  rw [step_of_find?_eq_none hrest hnone, settled_of_start hmode]

theorem startStep_word {w rest : List Char} (hmode : s.settled.mode = .start)
    (hrest : s.rest = w ++ rest) (h : IsWord w rest) (hhead : w.head?.any isWordStart = true) :
    s.StartStep := by
  obtain ⟨after, hafter, hstep⟩ := step_word s w rest hmode hrest h hhead
  rcases readWord_cases w rest with ⟨hword, hgap, hreading⟩ | ⟨htransition, hcategory, hkeyword⟩
  · have hfn : w = "fn".toList := by rw [← hword, String.toList_ofList]
    subst hfn
    rw [hreading] at hstep hafter
    have hgaps : s.rest = "fn".toList ++ (rest.takeWhile isGap ++ rest.dropWhile isGap) := by
      rw [List.takeWhile_append_dropWhile, hrest]
    have hspelled : s.rest = "fn".toList ++ (rest.takeWhile isGap ++ after) := by
      rw [hafter]
      simp
    obtain rfl : rest.dropWhile isGap = after :=
      List.append_cancel_left (List.append_cancel_left (hgaps.symm.trans hspelled))
    refine .definition ⟨hspelled, takeWhile_ne_nil hgap, List.all_eq_true.mp List.all_takeWhile,
      any_head?_dropWhile isGap rest, hstep, ?_, ?_⟩
    · rw [settled_of_start hmode]
      rfl
    · simp only [spelled_cons, spelled_nil, List.append_nil, byteLength_append]
      rw [← Nat.add_assoc]
      rfl
  · refine .other ?_ ?_ ?_
    · intro t ht
      rw [hstep] at ht
      obtain ⟨l, hl, hsame⟩ := exists_lexeme_of_mem_layOut ht
      rw [hsame]
      exact hcategory l hl
    · intro t ht hk
      rw [hstep] at ht ⊢
      obtain ⟨l, hl, hsame⟩ := exists_lexeme_of_mem_layOut ht
      obtain ⟨hone, hnone⟩ := hkeyword l hl (hsame ▸ hk)
      rw [hone] at ht hafter ⊢
      refine ⟨congrArg ([·]) (List.mem_singleton.mp ht).symm, ?_⟩
      rintro ⟨hfn, hgap⟩
      have hsplit : s.rest = w ++ after := by
        rw [hafter]
        simp
      have hw : w = "fn".toList := List.append_cancel_right (hsplit.symm.trans hfn)
      have hsame : rest = after := List.append_cancel_left (hrest.symm.trans hsplit)
      refine hnone ⟨?_, ?_⟩
      · rw [hw, String.ofList_toList]
      · rw [hsame]
        exact hgap
    · rw [hstep, htransition]
      exact .inl hmode

theorem startStep_apart {c : Char} {cs : List Char} (hmode : s.settled.mode = .start)
    (hrest : s.rest = c :: cs) (hc : isWordStart c = false) : s.StartStep := by
  have hne : s.rest ≠ [] := by
    rw [hrest]
    exact List.cons_ne_nil c cs
  cases hm : s.settled.mode.find? s.rest with
  | none =>
    have hplain : IsPlain c cs := by
      rw [hmode, hrest] at hm
      exact isPlain_of_find?_eq_none hm
    exact .plain hrest hplain (step_plain hmode hrest hplain)
  | some m =>
    have hapart : apartRules.findSome? (·.match? (c :: cs)) = some m := by
      rw [← find?_start_of_apart hc, ← hmode, ← hrest, hm]
    obtain ⟨rule, hrule, hmatch⟩ := List.exists_of_findSome?_eq_some hapart
    obtain rfl := (Rule.finish_match? hmatch).1
    obtain ⟨hpieces, htransition⟩ :=
      Bool.and_eq_true _ _ ▸ List.all_eq_true.mp readsApart_apartRules m.rule hrule
    have hcategory : ∀ t ∈ s.step.1,
        t.category ∉ [.keyword, .plainText, .definitionName] := by
      intro t ht
      rw [step_of_find?_eq_some hne hm] at ht
      obtain ⟨piece, hpiece, hsame⟩ := RuleMatch.category_of_mem_tokens (Mode.cuts_find? hm) ht
      rw [hsame]
      simpa using List.all_eq_true.mp hpieces piece hpiece
    refine .other ?_ ?_ ?_
    · intro t ht
      have hkind := hcategory t ht
      simp only [List.mem_cons, List.not_mem_nil, or_false, not_or] at hkind
      exact hkind.2
    · intro t ht hk
      have hkind := hcategory t ht
      rw [hk] at hkind
      exact absurd List.mem_cons_self hkind
    · rw [step_of_find?_eq_some hne hm]
      rcases List.mem_pair.mp (List.contains_iff_mem.mp htransition) with hnone | hpush
      · left
        rw [hnone]
        exact (ScanState.mode_nestAll _ _).trans hmode
      · right
        rw [hpush]
        refine ⟨rfl, ?_⟩
        change some _ = some _
        rw [ScanState.mode_nestAll, hmode]

theorem startStep (hmode : s.settled.mode = .start) (hrest : s.rest ≠ []) : s.StartStep := by
  obtain ⟨c, cs, hcons⟩ := List.exists_cons_of_ne_nil hrest
  cases hc : isWordStart c with
  | false => exact startStep_apart hmode hcons hc
  | true =>
    have hchar := isWordChar_of_isWordStart hc
    have hrest' : s.rest = (c :: cs).takeWhile isWordChar ++ (c :: cs).dropWhile isWordChar := by
      rw [List.takeWhile_append_dropWhile, hcons]
    refine startStep_word hmode hrest' (isWord_takeWhile hchar cs) ?_
    rw [List.takeWhile_cons_of_pos hchar]
    exact hc

theorem settled_of_reads_name {reading : Reading} (hmode : s.state.mode = .functionName)
    (h : Reads definitionRules s.rest (some reading)) : s.settled = s.state := by
  obtain ⟨m, hm, _⟩ := h
  refine settled_eq_of_find? (m := m) ?_
  rw [hmode]
  exact hm

theorem step_name (hmode : s.state.mode = .functionName)
    (hhead : s.rest.head?.any isWordStart = true) :
    s.step = ([⟨s.offset, s.offset + byteLength (s.rest.takeWhile isWordChar), .definitionName,
        .functionName⟩],
      ⟨⟨.start, s.state.stack, s.state.depth⟩,
        s.offset + byteLength (s.rest.takeWhile isWordChar), s.rest.dropWhile isWordChar⟩) := by
  have hne : s.rest.takeWhile isWordChar ≠ [] := by
    cases hrest : s.rest with
    | nil =>
      rw [hrest] at hhead
      cases hhead
    | cons c cs =>
      rw [hrest] at hhead
      exact (isWord_takeWhile (isWordChar_of_isWordStart hhead) cs).ne_nil
  have hreads := reads_name hhead
  have hsettled := settled_of_reads_name hmode hreads
  have hmode' : s.settled.mode = .functionName := by rw [hsettled, hmode]
  have hstep := step_of_reads_one hmode' rfl hreads List.takeWhile_append_dropWhile.symm hne
  rwa [hsettled] at hstep

inductive NameStep (s : Scanner) : Prop
  | name (hhead : s.rest.head?.any isWordStart = true)
      (hstep : s.step = ([⟨s.offset, s.offset + byteLength (s.rest.takeWhile isWordChar),
          .definitionName, .functionName⟩],
        ⟨⟨.start, s.state.stack, s.state.depth⟩,
          s.offset + byteLength (s.rest.takeWhile isWordChar), s.rest.dropWhile isWordChar⟩))
  | gaps (hhead : s.rest.head?.any isGap = true)
      (hstep : s.step = ([⟨s.offset, s.offset + byteLength (s.rest.takeWhile isGap),
          .plainText, .functionName⟩],
        ⟨s.state, s.offset + byteLength (s.rest.takeWhile isGap), s.rest.dropWhile isGap⟩))

theorem nameStep (hsettled : s.settled.mode = .functionName) : s.NameStep := by
  have hsame := settled_eq_of_mode_ne_start (s := s) (by rw [hsettled]; exact Mode.noConfusion)
  have hmode : s.state.mode = .functionName := hsame ▸ hsettled
  cases hname : s.rest.head?.any isWordStart with
  | true => exact .name hname (step_name hmode hname)
  | false =>
    have hreads := reads_gaps hname
    cases hgap : s.rest.head?.any isGap with
    | true =>
      rw [if_pos hgap] at hreads
      have hstep := step_of_reads_one hsettled rfl hreads List.takeWhile_append_dropWhile.symm
        (takeWhile_ne_nil hgap)
      rw [hsame] at hstep
      exact .gaps hgap hstep
    | false =>
      -- nothing is read here in this mode, so the step would be one of `start`
      rw [if_neg (by rw [hgap]; exact Bool.false_ne_true)] at hreads
      rw [settled_eq_goto_start hmode (by rw [hmode]; exact hreads)] at hsettled
      cases hsettled

inductive CommentStep (s : Scanner) : Prop
  | closes {body after : List Char} (hrest : s.rest = body ++ closer ++ after)
      (hstep : s.step = ([⟨s.offset, s.offset + byteLength (body ++ closer), .comment, .comment⟩],
        ⟨s.state.follow .pop, s.offset + byteLength (body ++ closer), after⟩))
  | stays {part after : List Char} (hrest : s.rest = part ++ after)
      (hstep : s.step = ([⟨s.offset, s.offset + byteLength part, .comment, .comment⟩],
        ⟨s.state, s.offset + byteLength part, after⟩))

theorem commentStep (hsettled : s.settled.mode = .comment) (hrest : s.rest ≠ []) :
    s.CommentStep := by
  have hmode := (settled_mode_eq_comment_iff s).mp hsettled
  rcases exists_closesFirst_or_not_infix s.rest with ⟨body, after, htext, hfirst⟩ | hnone
  · by_cases hbody : '\n' ∈ body
    · obtain ⟨l, body, rfl, hl⟩ := List.eq_append_cons_of_mem hbody
      have htext' : s.rest = l ++ (['\n'] ++ (body ++ closer ++ after)) := by
        rw [htext]
        simp
      have hcloser : NoCloser l (['\n'] ++ (body ++ closer ++ after)) := by
        simpa using hfirst.noCloser.left
      have hstep := step_commentLine hmode htext' hl (.inl rfl) (by simp) hcloser
      exact .stays (by rw [htext', ← List.append_assoc]) hstep
    · exact .closes htext (step_toCloser hmode htext hbody hfirst.noCloser)
  · obtain ⟨l, eol, more, htext, hl, heol⟩ := exists_endsLine s.rest
    have hwhole := noCloser_of_not_infix hnone
    rw [htext] at hwhole hrest
    have hcloser : NoCloser l (eol ++ more) := by simpa using hwhole.left
    have hstep := step_commentLine hmode htext hl heol (heol.append_ne_nil hrest) hcloser
    exact .stays (by rw [htext, List.append_assoc]) hstep

theorem category_of_comment {t : Token} (hsettled : s.settled.mode = .comment) (hrest : s.rest ≠ [])
    (ht : t ∈ s.step.1) : t.category = .comment := by
  cases commentStep hsettled hrest with
  | closes _ hstep | stays _ hstep =>
    rw [hstep] at ht
    rw [List.mem_singleton.mp ht]

end Scanner

end Highlighter
