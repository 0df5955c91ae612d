import Highlighter.Proofs.Scanner.Code

namespace Highlighter

open Grammar

/-- `fn` is the keyword `fn`, and `gaps` are spaces and tabs directly behind it and in front of a
letter or an underscore. -/
structure OpensName (text : List Char) (fn gaps : Token) : Prop where
  keyword : fn.category = .keyword
  spelling : fn.text text = "fn".toList
  plain : gaps.category = .plainText
  adjacent : gaps.start = fn.stop
  blank : ∀ c ∈ gaps.text text, isGap c = true
  next : (dropBytes gaps.stop text).head?.any isWordStart = true

section Index

variable {α : Type} {l x y : List α} {a b : α} {i : Nat}

theorem exists_split_of_getElem? (h : l[i]? = some a) : ∃ u v, l = u ++ a :: v ∧ u.length = i := by
  obtain ⟨hi, rfl⟩ := List.getElem?_eq_some_iff.mp h
  refine ⟨l.take i, l.drop (i + 1), ?_, ?_⟩
  · rw [List.getElem_cons_drop, List.take_append_drop]
  · rw [List.length_take]
    omega

theorem of_singleton_eq_append_cons (h : [a] = x ++ b :: y) : x = [] ∧ b = a ∧ y = [] := by
  rcases List.append_eq_singleton_iff.mp h.symm with ⟨hx, hy⟩ | ⟨_, hnil⟩
  · exact ⟨hx, List.cons.inj hy⟩
  · cases hnil

end Index

theorem getLast?_ne_of_gaps (v : List Char) {gaps : List Char} (hne : gaps ≠ [])
    (hgaps : ∀ c ∈ gaps, isGap c = true) : (v ++ gaps).getLast? ≠ some '\n' := by
  rw [List.getLast?_append_of_ne_nil v hne]
  intro hlast
  have hgap := hgaps '\n' (List.mem_of_getLast? hlast)
  cases hgap

namespace Scanner

variable {origin s : Scanner} {before : List Token}

/-- What holds of a place that some steps lead to from the mode `start`: a comment leads back to
`start`, and the last step in front of a name has read `fn` and gaps. -/
structure FromStart (origin : Scanner) (before : List Token) (s : Scanner) : Prop where
  remembers : s.state.mode = .comment → s.state.stack.head? = some .start
  definition : s.state.mode = .functionName → ∃ earlier s' gaps,
    origin.Emits earlier s' ∧ s'.OpensDefinition gaps s ∧ before = earlier ++ s'.step.1

theorem FromStart.of_mode_eq_start (h : s.state.mode = .start) : origin.FromStart before s where
  remembers hmode := by
    rw [h] at hmode
    cases hmode
  definition hmode := by
    rw [h] at hmode
    cases hmode

theorem FromStart.exists_opens (h : origin.FromStart before s)
    (hsettled : s.settled.mode = .functionName) : ∃ earlier s' gaps,
      origin.Emits earlier s' ∧ s'.OpensDefinition gaps s ∧ before = earlier ++ s'.step.1 := by
  have hsame := settled_eq_of_mode_ne_start (s := s) (by rw [hsettled]; exact Mode.noConfusion)
  exact h.definition (hsame ▸ hsettled)

theorem FromStart.not_gap (h : origin.FromStart before s)
    (hsettled : s.settled.mode = .functionName) : s.rest.head?.any isGap = false := by
  obtain ⟨_, _, _, _, hopens, _⟩ := h.exists_opens hsettled
  exact hopens.stop

theorem FromStart.step (hemits : origin.Emits before s) (hrest : s.rest ≠ [])
    (h : origin.FromStart before s) : origin.FromStart (before ++ s.step.1) s.step.2 := by
  cases hsettled : s.settled.mode with
  | start =>
    cases startStep hsettled hrest with
    | @definition gaps next hopens =>
      have hnext : s.step.2 = next := congrArg Prod.snd hopens.step
      rw [hnext]
      refine ⟨?_, fun _ ↦ ⟨before, s, gaps, hemits, hopens, rfl⟩⟩
      intro hmode
      rw [hopens.state] at hmode
      cases hmode
    | plain _ _ hstep =>
      rw [hstep]
      exact .of_mode_eq_start rfl
    | other _ _ hnext =>
      rcases hnext with hmode | ⟨hmode, hstack⟩
      · exact .of_mode_eq_start hmode
      · refine ⟨fun _ ↦ hstack, ?_⟩
        intro hname
        rw [hmode] at hname
        cases hname
  | comment =>
    have hstack := h.remembers ((settled_mode_eq_comment_iff s).mp hsettled)
    cases commentStep hsettled hrest with
    | closes _ hstep =>
      rw [hstep]
      refine .of_mode_eq_start ?_
      obtain ⟨stack, hcons⟩ := List.head?_eq_some_iff.mp hstack
      simp [ScanState.follow, hcons]
    | stays _ hstep =>
      rw [hstep]
      refine ⟨fun _ ↦ hstack, ?_⟩
      intro hname
      rw [(settled_mode_eq_comment_iff s).mp hsettled] at hname
      cases hname
  | functionName =>
    cases nameStep hsettled with
    | name _ hstep =>
      rw [hstep]
      exact .of_mode_eq_start rfl
    | gaps hgap _ =>
      rw [h.not_gap hsettled] at hgap
      cases hgap

theorem Emits.fromStart (h : origin.Emits before s) (hmode : origin.state.mode = .start) :
    origin.FromStart before s :=
  h.last_induction (.of_mode_eq_start hmode) fun _ _ hemits hrest hfrom ↦ hfrom.step hemits hrest

/-- Only the step behind `fn` and gaps emits a name or reads in the mode `functionName`. -/
theorem Emits.name_of_mem_step (h : origin.Emits before s) (hmode : origin.state.mode = .start)
    (hrest : s.rest ≠ []) {t : Token} (ht : t ∈ s.step.1)
    (hname : t.category = .definitionName ∨ t.mode = .functionName) :
    s.rest.head?.any isWordStart = true ∧
      s.step.1 = [⟨s.offset, s.offset + byteLength (s.rest.takeWhile isWordChar),
        .definitionName, .functionName⟩] ∧
      ∃ earlier s' gaps, origin.Emits earlier s' ∧ s'.OpensDefinition gaps s ∧
        before = earlier ++ s'.step.1 := by
  have hfrom := h.fromStart hmode
  rw [mode_of_mem_step hrest ht] at hname
  cases hsettled : s.settled.mode with
  | start =>
    rw [hsettled] at hname
    have hcategory := hname.resolve_right Mode.noConfusion
    cases startStep hsettled hrest with
    | definition hopens =>
      rw [hopens.step] at ht
      rcases List.mem_pair.mp ht with rfl | rfl <;> cases hcategory
    | plain _ _ hstep =>
      rw [hstep] at ht
      rw [List.mem_singleton.mp ht] at hcategory
      cases hcategory
    | other hother => exact absurd hcategory (hother t ht).2
  | comment =>
    rw [hsettled] at hname
    have hcategory := hname.resolve_right Mode.noConfusion
    rw [category_of_comment hsettled hrest ht] at hcategory
    cases hcategory
  | functionName =>
    cases nameStep hsettled with
    | name hhead hstep => exact ⟨hhead, congrArg Prod.fst hstep, hfrom.exists_opens hsettled⟩
    | gaps hgap _ =>
      rw [hfrom.not_gap hsettled] at hgap
      cases hgap

variable {text : List Char} {state : ScanState}

theorem OpensDefinition.text_eq {gaps : List Char} {next : Scanner}
    (hopens : s.OpensDefinition gaps next) (h : (ofText text state).Emits before s) :
    Token.text ⟨s.offset, s.offset + 2, .keyword, .start⟩ text = "fn".toList ∧
      Token.text ⟨s.offset + 2, s.offset + 2 + byteLength gaps, .plainText, .start⟩ text = gaps ∧
      dropBytes (s.offset + 2) text = gaps ++ next.rest := by
  obtain ⟨v, hv, hoffset⟩ := h.exists_before
  have hbehind : s.offset + 2 = byteLength (v ++ "fn".toList) := by
    rw [byteLength_append, hoffset]
    rfl
  have htext : text = v ++ "fn".toList ++ (gaps ++ next.rest) := by
    rw [hv, hopens.rest, List.append_assoc]
  have hfn : Token.Spans ⟨s.offset, s.offset + 2, .keyword, .start⟩ 0 v "fn".toList :=
    ⟨by rw [hoffset, Nat.zero_add], rfl⟩
  have hgaps : Token.Spans ⟨s.offset + 2, s.offset + 2 + byteLength gaps, .plainText, .start⟩ 0
      (v ++ "fn".toList) gaps :=
    ⟨by rw [hbehind, Nat.zero_add], rfl⟩
  refine ⟨?_, ?_, ?_⟩
  · rw [htext]
    exact Token.text_of_spans hfn _
  · rw [htext, ← List.append_assoc]
    exact Token.text_of_spans hgaps next.rest
  · rw [htext, hbehind, dropBytes_append]

/-- The tokens of a step that reads `fn` and gaps in front of a word open a name. -/
theorem OpensDefinition.opensName {gaps : List Char} {next : Scanner}
    (hopens : s.OpensDefinition gaps next) (h : (ofText text state).Emits before s)
    (hnext : next.rest.head?.any isWordStart = true) :
    OpensName text ⟨s.offset, s.offset + 2, .keyword, .start⟩
      ⟨s.offset + 2, s.offset + 2 + byteLength gaps, .plainText, .start⟩ := by
  obtain ⟨hfn, hgaps, _⟩ := hopens.text_eq h
  have hend := (h.trans (.of_step (by simp [hopens.rest]) hopens.step)).dropBytes_eq
  rw [hopens.offset] at hend
  refine ⟨rfl, hfn, rfl, rfl, ?_, ?_⟩
  · rw [hgaps]
    exact hopens.chars
  · rw [hend]
    exact hnext

theorem settled_of_keyword {t : Token} (hrest : s.rest ≠ []) (ht : t ∈ s.step.1)
    (hkeyword : t.category = .keyword) : s.settled.mode = .start := by
  cases hsettled : s.settled.mode with
  | start => rfl
  | comment =>
    rw [category_of_comment hsettled hrest ht] at hkeyword
    cases hkeyword
  | functionName =>
    cases nameStep hsettled with
    | name _ hstep | gaps _ hstep =>
      rw [hstep] at ht
      rw [List.mem_singleton.mp ht] at hkeyword
      cases hkeyword

/-- A keyword `fn` with a gap behind it is no keyword alone. -/
theorem Emits.not_keyword_alone {fn gaps : Token} {later : List Token} {final : Scanner}
    (h : (ofText text state).Emits before s) (hrest : s.rest ≠ []) (hstep : s.step.1 = [fn])
    (hlater : s.step.2.Emits (gaps :: later) final) (hopens : OpensName text fn gaps) :
    s.rest = "fn".toList ++ s.step.2.rest ∧ s.step.2.rest.head?.any isGap = true := by
  have hone := Emits.one hrest
  have hnext := h.trans hone
  rw [hstep] at hone
  constructor
  · obtain ⟨more, hmore, _, _, _, htiles⟩ := h.exists_next hone
    rw [hopens.spelling, htiles.eq_nil_iff.mp rfl] at hmore
    exact hmore
  · obtain ⟨more, hmore, hne, _⟩ := hnext.exists_next hlater
    obtain ⟨c, cs, hcons⟩ := List.exists_cons_of_ne_nil hne
    have hgap := hopens.blank c (by rw [hcons]; exact List.mem_cons_self)
    rw [hmore, hcons]
    exact hgap

/-- Behind the keyword `fn` and the gaps in front of a word comes the name. -/
theorem Emits.name_of_opensName {fn gaps : Token} {x y later more : List Token} {final : Scanner}
    (h : (ofText text state).Emits before s) (hrest : s.rest ≠ []) (hstep : s.step.1 = x ++ fn :: y)
    (hlater : s.step.2.Emits later final) (hfinal : final.rest = [])
    (hsplit : y ++ later = gaps :: more) (hopens : OpensName text fn gaps) :
    ∃ t, more.head? = some t ∧ t.category = .definitionName := by
  have hmem : fn ∈ s.step.1 := by
    rw [hstep]
    exact List.mem_append_right x List.mem_cons_self
  cases startStep (settled_of_keyword hrest hmem hopens.keyword) hrest with
  | @definition chars next hdefinition =>
    have hnext := h.trans (.of_step hrest hdefinition.step)
    rw [hdefinition.step] at hstep hlater
    obtain ⟨rfl, rfl, rfl⟩ : x = [] ∧ fn = ⟨s.offset, s.offset + 2, .keyword, .start⟩ ∧
        y = [⟨s.offset + 2, s.offset + 2 + byteLength chars, .plainText, .start⟩] := by
      cases x with
      | nil =>
        obtain ⟨hfn, hy⟩ := List.cons.inj hstep
        exact ⟨rfl, hfn.symm, hy.symm⟩
      | cons _ x =>
        -- the second of the two tokens is no keyword
        have hkeyword := hopens.keyword
        rw [(of_singleton_eq_append_cons (List.cons.inj hstep).2).2.1] at hkeyword
        cases hkeyword
    obtain ⟨rfl, rfl⟩ := List.cons.inj hsplit
    have hhead := hopens.next
    rw [← hdefinition.offset, hnext.dropBytes_eq] at hhead
    cases hlater with
    | refl _ =>
      rw [hfinal] at hhead
      cases hhead
    | step _ _ =>
      rw [step_name (by rw [hdefinition.state]) hhead]
      exact ⟨_, rfl, rfl⟩
  | plain _ _ hplain =>
    rw [hplain] at hmem
    have hkeyword := hopens.keyword
    rw [List.mem_singleton.mp hmem] at hkeyword
    cases hkeyword
  | other _ hkeyword _ =>
    obtain ⟨hone, hnone⟩ := hkeyword fn hmem hopens.keyword
    rw [hone] at hstep
    obtain ⟨rfl, _, rfl⟩ := of_singleton_eq_append_cons hstep
    rw [List.nil_append] at hsplit
    rw [hsplit] at hlater
    exact absurd (h.not_keyword_alone hrest hone hlater hopens) hnone

/-- The two tokens in front of a name open it. -/
theorem Emits.exists_opensName {u v : List Token} {t : Token} {final : Scanner}
    (h : (ofText text state).Emits (u ++ t :: v) final) (hmode : state.mode = .start)
    (hname : t.category = .definitionName) :
    ∃ earlier fn gaps, u = earlier ++ [fn, gaps] ∧ OpensName text fn gaps := by
  obtain ⟨before, s, x, y, later, hbefore, hrest, hstep, rfl, _, _⟩ := h.exists_step_of_split
  have hmem : t ∈ s.step.1 := by
    rw [hstep]
    exact List.mem_append_right x List.mem_cons_self
  obtain ⟨hhead, hone, earlier, s', gaps, hearlier, hopens, rfl⟩ :=
    hbefore.name_of_mem_step hmode hrest hmem (.inl hname)
  rw [hone] at hstep
  obtain ⟨rfl, _, _⟩ := of_singleton_eq_append_cons hstep
  refine ⟨earlier, _, _, ?_, hopens.opensName hearlier hhead⟩
  rw [hopens.step, List.append_nil]

/-- Two tokens that open a name stand in front of one. -/
theorem Emits.exists_name {u more : List Token} {fn gaps : Token} {final : Scanner}
    (h : (ofText text state).Emits (u ++ fn :: gaps :: more) final) (hfinal : final.rest = [])
    (hopens : OpensName text fn gaps) :
    ∃ t, more.head? = some t ∧ t.category = .definitionName := by
  obtain ⟨before, s, x, y, later, hbefore, hrest, hstep, _, hsplit, hlater⟩ :=
    h.exists_step_of_split
  exact hbefore.name_of_opensName hrest hstep hlater hfinal hsplit.symm hopens

theorem Emits.text_of_name (h : (ofText text state).Emits before s) (hmode : state.mode = .start)
    (hrest : s.rest ≠ []) {t : Token} (ht : t ∈ s.step.1)
    (hname : t.category = .definitionName ∨ t.mode = .functionName) :
    t.category = .definitionName ∧ t.mode = .functionName ∧
      t.text text = (dropBytes t.start text).takeWhile isWordChar := by
  obtain ⟨_, hstep, _⟩ := h.name_of_mem_step hmode hrest ht hname
  obtain ⟨v, hv, hoffset⟩ := h.exists_before
  rw [hstep] at ht
  obtain rfl := List.mem_singleton.mp ht
  have hspans : Token.Spans ⟨s.offset, s.offset + byteLength (s.rest.takeWhile isWordChar),
      .definitionName, .functionName⟩ 0 v (s.rest.takeWhile isWordChar) :=
    ⟨by rw [hoffset, Nat.zero_add], rfl⟩
  have htext := Token.text_of_spans hspans (s.rest.dropWhile isWordChar)
  rw [List.append_assoc, List.takeWhile_append_dropWhile, ← hv] at htext
  refine ⟨rfl, rfl, ?_⟩
  rw [htext]
  exact congrArg _ h.dropBytes_eq.symm

theorem Emits.mode_ne_functionName (h : (ofText text state).Emits before s)
    (hfeed : text.getLast? = some '\n') (hend : s.rest = []) :
    s.state.mode ≠ .functionName := by
  revert hend
  refine h.last_induction (motive := fun _ s ↦ s.rest = [] → s.state.mode ≠ .functionName) ?_ ?_
  · intro hend
    change text = [] at hend
    rw [hend] at hfeed
    cases hfeed
  · intro before s hemits hrest _ hend hmode
    obtain ⟨v, hv, _⟩ := hemits.exists_before
    -- a step to this mode reads gaps last, and a step out of a comment reads a slash
    cases hsettled : s.settled.mode with
    | start =>
      cases startStep hsettled hrest with
      | definition hopens =>
        rw [hopens.step] at hend
        refine getLast?_ne_of_gaps (v ++ "fn".toList) hopens.ne_nil hopens.chars ?_
        rw [← hfeed, hv, hopens.rest, hend, List.append_nil, List.append_assoc]
      | plain _ _ hstep =>
        rw [hstep] at hmode
        cases hmode
      | other _ _ hnext =>
        rcases hnext with hnext | ⟨hnext, _⟩
        · rw [hnext] at hmode
          cases hmode
        · rw [hnext] at hmode
          cases hmode
    | comment =>
      cases commentStep hsettled hrest with
      | @closes body after hrest' hstep =>
        rw [hstep] at hend
        change after = [] at hend
        rw [hv, hrest', hend, List.append_nil, ← List.append_assoc] at hfeed
        simp [closer_eq] at hfeed
      | stays _ hstep =>
        rw [hstep] at hmode
        rw [(settled_mode_eq_comment_iff s).mp hsettled] at hmode
        cases hmode
    | functionName =>
      cases nameStep hsettled with
      | name _ hstep =>
        rw [hstep] at hmode
        cases hmode
      | gaps hhead hstep =>
        rw [hstep] at hend
        change s.rest.dropWhile isGap = [] at hend
        have hwhole : s.rest.takeWhile isGap ++ s.rest.dropWhile isGap = s.rest :=
          List.takeWhile_append_dropWhile
        rw [hend, List.append_nil] at hwhole
        refine getLast?_ne_of_gaps v (takeWhile_ne_nil hhead)
          (List.all_eq_true.mp List.all_takeWhile) ?_
        rw [hwhole, ← hv]
        exact hfeed

end Scanner

/-- Read from the mode `start`, a text has a definition name exactly where the two tokens before are
`fn` and gaps and a word begins. The name is the whole word, and nothing else is read in the mode
`functionName`. No text that ends with a line feed leads to that mode. -/
theorem classifyFrom_definitions (state : ScanState) (text : List Char) :
    (state.mode = .start →
      (∀ i, (∃ t, (classifyFrom state text).1[i]? = some t ∧ t.category = .definitionName) ↔
        ∃ k fn gaps, i = k + 2 ∧ (classifyFrom state text).1[k]? = some fn ∧
          (classifyFrom state text).1[k + 1]? = some gaps ∧ OpensName text fn gaps) ∧
      ∀ t ∈ (classifyFrom state text).1,
        (t.category = .definitionName →
          t.text text = (dropBytes t.start text).takeWhile isWordChar) ∧
        (t.mode = .functionName ↔ t.category = .definitionName)) ∧
    (text.getLast? = some '\n' →
      (classifyFrom state text).2.mode = .start ∨ (classifyFrom state text).2.mode = .comment) := by
  have hemits := (Scanner.ofText text state).emits_run
  rw [Scanner.run_ofText] at hemits
  refine ⟨fun hmode ↦ ⟨fun i ↦ ⟨?_, ?_⟩, ?_⟩, ?_⟩
  · rintro ⟨t, ht, hcategory⟩
    obtain ⟨u, v, hsplit, rfl⟩ := exists_split_of_getElem? ht
    rw [hsplit] at hemits ⊢
    obtain ⟨earlier, fn, gaps, rfl, hopens⟩ := hemits.exists_opensName hmode hcategory
    exact ⟨earlier.length, fn, gaps, by simp, by simp, by simp, hopens⟩
  · rintro ⟨k, fn, gaps, rfl, hfn, hgaps, hopens⟩
    obtain ⟨u, v, hsplit, rfl⟩ := exists_split_of_getElem? hfn
    rw [hsplit, List.getElem?_append_right (Nat.le_add_right _ _), Nat.add_sub_cancel_left,
      List.getElem?_cons_succ, ← List.head?_eq_getElem?] at hgaps
    obtain ⟨more, rfl⟩ := List.head?_eq_some_iff.mp hgaps
    rw [hsplit] at hemits ⊢
    obtain ⟨t, ht, hcategory⟩ := hemits.exists_name rfl hopens
    refine ⟨t, ?_, hcategory⟩
    rw [List.getElem?_append_right (Nat.le_add_right _ _), Nat.add_sub_cancel_left,
      List.getElem?_cons_succ, List.getElem?_cons_succ, ← List.head?_eq_getElem?]
    exact ht
  · intro t ht
    obtain ⟨before, s, hbefore, hrest, hmem⟩ := hemits.exists_step_of_mem ht
    refine ⟨fun hcategory ↦ ?_, fun hname ↦ ?_, fun hcategory ↦ ?_⟩
    · exact (hbefore.text_of_name hmode hrest hmem (.inl hcategory)).2.2
    · exact (hbefore.text_of_name hmode hrest hmem (.inr hname)).1
    · exact (hbefore.text_of_name hmode hrest hmem (.inl hcategory)).2.1
  · intro hfeed
    have hne := hemits.mode_ne_functionName hfeed rfl
    cases hmode : (classifyFrom state text).2.mode with
    | start => exact .inl rfl
    | comment => exact .inr rfl
    | functionName => exact absurd hmode hne

/-- In `fn let(` the keyword `let` is the name. -/
theorem classifyFrom_definitions_keyword :
    (∃ k fn gaps, 2 = k + 2 ∧ (classifyFrom {} "fn\t let(".toList).1[k]? = some fn ∧
      (classifyFrom {} "fn\t let(".toList).1[k + 1]? = some gaps ∧
      OpensName "fn\t let(".toList fn gaps) ∧
    Token.text ⟨4, 7, .definitionName, .functionName⟩ "fn\t let(".toList =
      (dropBytes 4 "fn\t let(".toList).takeWhile isWordChar ∧
    ((classifyFrom (.inMode .functionName) " \n".toList).2.mode = .start ∨
      (classifyFrom (.inMode .functionName) " \n".toList).2.mode = .comment) := by
  have hname := (classifyFrom_definitions {} "fn\t let(".toList).1 rfl
  have hfeed := (classifyFrom_definitions (.inMode .functionName) " \n".toList).2
  have htoken : (classifyFrom {} "fn\t let(".toList).1[2]? =
      some ⟨4, 7, .definitionName, .functionName⟩ := by
    decide +kernel
  exact ⟨(hname.1 2).mp ⟨_, htoken, rfl⟩, (hname.2 _ (List.mem_of_getElem? htoken)).1 rfl,
    hfeed rfl⟩

end Highlighter
