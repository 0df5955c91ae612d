import Highlighter.Hover
import Highlighter.Proofs.Pattern.Word
import Highlighter.Proofs.Text.Ascii
import Highlighter.Proofs.Text.Lines

namespace Highlighter

/-- `run` is the run of word characters that touches byte `column` of a line, and `before` and
`after` are around it. -/
structure RunAt (line : List Char) (column : Nat) (before run after : List Char) : Prop
    extends IsWord run after where
  text : line = before ++ run ++ after
  start : before.getLast?.any isWordChar = false
  le_column : byteLength before ≤ column
  column_le : column ≤ byteLength before + byteLength run

def EndsQualified (text : List Char) : Prop :=
  ∃ farther, text = farther ++ Jet.qualifier.toList ∧ farther.getLast?.any isWordChar = false

def OpensMember (text : List Char) : Prop :=
  ∃ c more, text = ':' :: ':' :: c :: more ∧ isWordChar c = true

theorem qualifier_eq : Jet.qualifier.toList = ['j', 'e', 't', ':', ':'] := by
  decide

namespace IsWord

variable {w rest : List Char}

/-- Word characters take one byte each, so a column along a word falls between two of them. -/
theorem exists_append_of_le (h : IsWord w rest) {n : Nat} (hn : n ≤ byteLength w) :
    ∃ u v, w = u ++ v ∧ byteLength u = n := by
  have hascii : ∀ c ∈ w, c.toNat < 128 := fun c hc ↦ toNat_lt_of_isWordChar (h.chars c hc)
  rw [byteLength_of_ascii hascii] at hn
  refine ⟨w.take n, w.drop n, (List.take_append_drop n w).symm, ?_⟩
  rw [byteLength_of_ascii fun c hc ↦ hascii c (List.mem_of_mem_take hc), List.length_take]
  omega

end IsWord

theorem byteLength_reverse (text : List Char) : byteLength text.reverse = byteLength text := by
  induction text with
  | nil => rfl
  | cons c cs ih =>
    rw [List.reverse_cons, byteLength_append, ih, byteLength_cons, byteLength_cons]
    simp only [byteLength_nil]
    omega

namespace WordCut

theorem endsQualified_iff {before : List Char} :
    (Jet.qualifier.toList.reverse.isPrefixOf before.reverse &&
      !(before.reverse.drop Jet.qualifier.toList.reverse.length).head?.any isWordChar) = true ↔
      EndsQualified before := by
  rw [Bool.and_eq_true, List.isPrefixOf_iff_prefix, Bool.not_eq_true']
  constructor
  · rintro ⟨⟨farther, hfarther⟩, hhead⟩
    rw [← hfarther, List.drop_left, ← List.getLast?_reverse] at hhead
    refine ⟨farther.reverse, ?_, hhead⟩
    rw [← List.reverse_reverse before, ← hfarther, List.reverse_append, List.reverse_reverse]
  · rintro ⟨farther, rfl, hlast⟩
    rw [List.reverse_append, List.drop_left, List.head?_reverse]
    exact ⟨List.prefix_append _ _, hlast⟩

theorem widen_qualified {farther : List Char} (h : farther.getLast?.any isWordChar = false)
    (run after : List Char) :
    widen ⟨(farther ++ Jet.qualifier.toList).reverse, run, after⟩ =
      ⟨farther.reverse, Jet.qualifier.toList ++ run, after⟩ := by
  unfold widen
  dsimp only
  rw [if_pos (endsQualified_iff.mpr ⟨farther, rfl, h⟩), List.reverse_append, List.drop_left]

theorem widen_qualifier {before w rest : List Char} (h : ¬EndsQualified before)
    (hw : IsWord w rest) :
    widen ⟨before.reverse, ['j', 'e', 't'], ':' :: ':' :: (w ++ rest)⟩ =
      ⟨before.reverse, Jet.qualifier.toList ++ w, rest⟩ := by
  obtain ⟨c, more, rfl, hc⟩ := hw.exists_cons (List.nil_append w).symm hw.ne_nil
  have hmore : ∀ d ∈ more, isWordChar d = true := fun d hd ↦ hw.chars d (List.mem_cons_of_mem c hd)
  unfold widen
  dsimp only
  rw [if_neg (mt endsQualified_iff.mp h), if_pos rfl]
  change (if isWordChar c then WordCut.mk _ (_ ++ ':' :: ':' :: c :: (more ++ rest).takeWhile _)
    ((more ++ rest).dropWhile _) else _) = _
  rw [if_pos hc, takeWhile_append_eq hmore hw.stop, dropWhile_append_eq hmore hw.stop,
    qualifier_eq]
  rfl

theorem widen_of_not {before run after : List Char} (h : ¬EndsQualified before)
    (hmember : ¬(run = ['j', 'e', 't'] ∧ OpensMember after)) :
    widen ⟨before.reverse, run, after⟩ = ⟨before.reverse, run, after⟩ := by
  unfold widen
  dsimp only
  rw [if_neg (mt endsQualified_iff.mp h)]
  split
  · rename_i hrun
    split
    · rename_i c more
      rw [if_neg fun hc ↦ hmember ⟨hrun, c, more, rfl, hc⟩]
    · rfl
  · rfl

end WordCut

section WordAt

variable {line before run after : List Char} {column : Nat}

theorem wordAt_append (a b : List Char) :
    wordAt (a ++ b) (byteLength a) =
      if (WordCut.around a.reverse b).word = [] then none
      else some (WordCut.around a.reverse b).widen.span := by
  unfold wordAt
  rw [if_pos (isBoundary_append a b), takeBytes_append, dropBytes_append]
  simp only [List.isEmpty_iff]

theorem around_word_eq_nil_iff {a b : List Char} :
    (WordCut.around a.reverse b).word = [] ↔
      a.getLast?.any isWordChar = false ∧ b.head?.any isWordChar = false := by
  have hnil : ∀ text : List Char,
      text.takeWhile isWordChar = [] ↔ text.head?.any isWordChar = false := by
    intro text
    refine ⟨fun h ↦ ?_, takeWhile_eq_nil⟩
    exact Bool.eq_false_iff.mpr fun hhead ↦ takeWhile_ne_nil hhead h
  rw [WordCut.around, List.append_eq_nil_iff, List.reverse_eq_nil_iff, hnil, hnil,
    List.head?_reverse]

theorem wordAt_of_runAt (h : RunAt line column before run after) :
    wordAt line column = some (WordCut.widen ⟨before.reverse, run, after⟩).span := by
  have hle := h.le_column
  have hcolumn := h.column_le
  -- The column cuts the run in two, and the scans from it put the halves together again.
  obtain ⟨u, v, hrun, hu⟩ := h.exists_append_of_le (n := column - byteLength before) (by omega)
  have htext : line = (before ++ u) ++ (v ++ after) := by
    rw [h.text, hrun]
    simp only [List.append_assoc]
  have hcut : column = byteLength (before ++ u) := by
    rw [byteLength_append]
    omega
  have hpart : ∀ c ∈ u ++ v, isWordChar c = true := hrun ▸ h.chars
  have hbackwards : ∀ c ∈ u.reverse, isWordChar c = true := fun c hc ↦
    hpart c (List.mem_append_left v (List.mem_reverse.mp hc))
  have hforwards : ∀ c ∈ v, isWordChar c = true := fun c hc ↦ hpart c (List.mem_append_right u hc)
  have hstart : before.reverse.head?.any isWordChar = false := by
    rw [List.head?_reverse]
    exact h.start
  have haround : WordCut.around (before ++ u).reverse (v ++ after) =
      ⟨before.reverse, run, after⟩ := by
    rw [WordCut.around, List.reverse_append, takeWhile_append_eq hbackwards hstart,
      dropWhile_append_eq hbackwards hstart, takeWhile_append_eq hforwards h.stop,
      dropWhile_append_eq hforwards h.stop, List.reverse_reverse, hrun]
  rw [htext, hcut, wordAt_append, haround, if_neg h.ne_nil]

theorem exists_runAt (h : wordAt line column ≠ none) :
    ∃ before run after, RunAt line column before run after := by
  have hboundary : isBoundary column line = true := by
    apply Bool.of_not_eq_false
    intro hfalse
    exact h (if_neg (by rw [hfalse]; exact Bool.false_ne_true))
  obtain ⟨a, b, rfl, rfl⟩ := exists_append_of_isBoundary hboundary
  have hne : (WordCut.around a.reverse b).word ≠ [] := by
    intro hnil
    rw [wordAt_append, if_pos hnil] at h
    exact h rfl
  have ha : (a.reverse.dropWhile isWordChar).reverse ++
      (a.reverse.takeWhile isWordChar).reverse = a := by
    rw [← List.reverse_append, List.takeWhile_append_dropWhile, List.reverse_reverse]
  have hsize := congrArg byteLength ha
  rw [byteLength_append] at hsize
  refine ⟨(a.reverse.dropWhile isWordChar).reverse, _, b.dropWhile isWordChar,
    ⟨hne, ?_, any_head?_dropWhile isWordChar b⟩, ?_, ?_, ?_, ?_⟩
  · intro c hc
    rcases List.mem_append.mp hc with hc | hc
    · exact List.all_eq_true.mp List.all_takeWhile c (List.mem_reverse.mp hc)
    · exact List.all_eq_true.mp List.all_takeWhile c hc
  · rw [WordCut.around, ← List.append_assoc, ha, List.append_assoc,
      List.takeWhile_append_dropWhile]
  · rw [List.getLast?_reverse]
    exact any_head?_dropWhile isWordChar _
  · omega
  · rw [WordCut.around, byteLength_append]
    omega

theorem wordAt_eq_none_iff :
    wordAt line column = none ↔ byteLength line < column ∨ isBoundary column line = false ∨
      ∀ before after, line = before ++ after → byteLength before = column →
        before.getLast?.any isWordChar = false ∧ after.head?.any isWordChar = false := by
  cases hboundary : isBoundary column line with
  | false =>
    refine iff_of_true (if_neg ?_) (.inr (.inl rfl))
    rw [hboundary]
    exact Bool.false_ne_true
  | true =>
    obtain ⟨a, b, rfl, rfl⟩ := exists_append_of_isBoundary hboundary
    have hnone : wordAt (a ++ b) (byteLength a) = none ↔
        a.getLast?.any isWordChar = false ∧ b.head?.any isWordChar = false := by
      rw [wordAt_append, ← around_word_eq_nil_iff]
      simp
    rw [hnone]
    constructor
    · intro hword
      refine .inr (.inr fun before after htext hsize ↦ ?_)
      obtain ⟨m, rfl, rfl⟩ := exists_append_of_byteLength_le htext (by omega)
      rw [byteLength_append] at hsize
      obtain rfl : m = [] := byteLength_eq_zero.mp (by omega)
      simpa using hword
    · rintro (hsize | hfalse | hword)
      · rw [byteLength_append] at hsize
        omega
      · cases hfalse
      · exact hword a b rfl rfl

theorem WordCut.span_reverse (before word after : List Char) :
    (WordCut.mk before.reverse word after).span =
      ⟨byteLength before, byteLength before + byteLength word, word⟩ := by
  rw [span, byteLength_reverse]

theorem wordAt_qualified {farther : List Char} (hfarther : farther.getLast?.any isWordChar = false)
    (h : RunAt line column (farther ++ Jet.qualifier.toList) run after) :
    wordAt line column = some ⟨byteLength farther,
      byteLength farther + byteLength (Jet.qualifier.toList ++ run),
      Jet.qualifier.toList ++ run⟩ := by
  rw [wordAt_of_runAt h, WordCut.widen_qualified hfarther, WordCut.span_reverse]

theorem wordAt_qualifier {w rest : List Char} (hbefore : ¬EndsQualified before)
    (hw : IsWord w rest)
    (h : RunAt line column before ['j', 'e', 't'] (':' :: ':' :: (w ++ rest))) :
    wordAt line column = some ⟨byteLength before,
      byteLength before + byteLength (Jet.qualifier.toList ++ w), Jet.qualifier.toList ++ w⟩ := by
  rw [wordAt_of_runAt h, WordCut.widen_qualifier hbefore hw, WordCut.span_reverse]

theorem wordAt_unqualified (hbefore : ¬EndsQualified before)
    (hmember : ¬(run = ['j', 'e', 't'] ∧ OpensMember after))
    (h : RunAt line column before run after) :
    wordAt line column = some ⟨byteLength before, byteLength before + byteLength run, run⟩ := by
  rw [wordAt_of_runAt h, WordCut.widen_of_not hbefore hmember, WordCut.span_reverse]

end WordAt

structure WordSpan.Cuts (span : WordSpan) (line : List Char) : Prop where
  isBoundary_start : isBoundary span.start line = true
  isBoundary_stop : isBoundary span.stop line = true
  word_eq : span.word = slice line span.start span.stop

theorem WordSpan.cuts_append (before word after : List Char) :
    Cuts ⟨byteLength before, byteLength before + byteLength word, word⟩
      (before ++ word ++ after) := by
  refine ⟨?_, ?_, (slice_append before word after).symm⟩
  · rw [List.append_assoc]
    exact isBoundary_append before _
  · rw [← byteLength_append]
    exact isBoundary_append _ after

/-- The span holds the run between `before` and `after`, and is this run unless a namespace before
it or the name behind it belongs to the word. -/
structure WordSpan.Holds (span : WordSpan) (before run after : List Char) : Prop where
  start_le : span.start ≤ byteLength before
  le_stop : byteLength before + byteLength run ≤ span.stop
  eq_iff : span = ⟨byteLength before, byteLength before + byteLength run, run⟩ ↔
    ¬EndsQualified before ∧ ¬(run = ['j', 'e', 't'] ∧ OpensMember after)

theorem OpensMember.exists_isWord {text : List Char} (h : OpensMember text) :
    ∃ w rest, text = ':' :: ':' :: (w ++ rest) ∧ IsWord w rest := by
  obtain ⟨c, more, rfl, hc⟩ := h
  refine ⟨_, _, ?_, isWord_takeWhile hc more⟩
  rw [List.takeWhile_append_dropWhile]

theorem RunAt.exists_wordAt {line before run after : List Char} {column : Nat}
    (h : RunAt line column before run after) :
    ∃ span, wordAt line column = some span ∧ span.Cuts line ∧ span.Holds before run after := by
  have hsize : byteLength Jet.qualifier.toList = 5 := by decide
  by_cases hbefore : EndsQualified before
  · obtain ⟨farther, rfl, hfarther⟩ := id hbefore
    refine ⟨_, wordAt_qualified hfarther h, ?_, ?_, ?_, ?_⟩
    · have htext : line = farther ++ (Jet.qualifier.toList ++ run) ++ after := by
        rw [h.text]
        simp only [List.append_assoc]
      rw [htext]
      exact WordSpan.cuts_append _ _ _
    · change byteLength farther ≤ _
      rw [byteLength_append]
      omega
    · simp only [byteLength_append]
      omega
    · refine iff_of_false (fun heq ↦ ?_) fun hnot ↦ hnot.1 hbefore
      have hstart := congrArg WordSpan.start heq
      simp only [byteLength_append] at hstart
      omega
  by_cases hmember : run = ['j', 'e', 't'] ∧ OpensMember after
  · obtain ⟨rfl, hopens⟩ := id hmember
    obtain ⟨w, rest, rfl, hw⟩ := hopens.exists_isWord
    refine ⟨_, wordAt_qualifier hbefore hw h, ?_, Nat.le_refl _, ?_, ?_⟩
    · have htext : line = before ++ (Jet.qualifier.toList ++ w) ++ rest := by
        rw [h.text, qualifier_eq]
        simp
      rw [htext]
      exact WordSpan.cuts_append _ _ _
    · have hrun : byteLength ['j', 'e', 't'] = 3 := by decide
      change _ ≤ byteLength before + _
      rw [byteLength_append]
      omega
    · refine iff_of_false (fun heq ↦ ?_) fun hnot ↦ hnot.2 hmember
      have hword := congrArg (List.length ∘ WordSpan.word) heq
      rw [qualifier_eq] at hword
      simp at hword
  · refine ⟨_, wordAt_unqualified hbefore hmember h, ?_, Nat.le_refl _, Nat.le_refl _, ?_⟩
    · rw [h.text]
      exact WordSpan.cuts_append _ _ _
    · exact iff_of_true rfl ⟨hbefore, hmember⟩

section Reference

variable {line before w after : List Char} {column : Nat}

/-- Both halves of a reference to a jet give the whole of it. -/
theorem wordAt_reference (htext : line = before ++ (Jet.qualifier.toList ++ w) ++ after)
    (hw : IsWord w after) (hstart : before.getLast?.any isWordChar = false)
    (hfree : ¬Jet.qualifier.toList <:+ before)
    (hcolumn : byteLength before ≤ column ∧ column ≤ byteLength before + 3 ∨
      byteLength before + 5 ≤ column ∧ column ≤ byteLength before + 5 + byteLength w) :
    wordAt line column = some ⟨byteLength before, byteLength before + 5 + byteLength w,
      Jet.qualifier.toList ++ w⟩ := by
  have hsize : byteLength Jet.qualifier.toList = 5 := by decide
  have hspan : byteLength before + byteLength (Jet.qualifier.toList ++ w) =
      byteLength before + 5 + byteLength w := by
    rw [byteLength_append, hsize, Nat.add_assoc]
  rw [← hspan]
  rcases hcolumn with ⟨hle, hlt⟩ | ⟨hle, hlt⟩
  · have hrun : RunAt line column before ['j', 'e', 't'] (':' :: ':' :: (w ++ after)) := by
      refine ⟨⟨by decide, List.all_eq_true.mp (by decide), rfl⟩, ?_, hstart, hle, hlt⟩
      rw [htext, qualifier_eq]
      simp
    refine wordAt_qualifier ?_ hw hrun
    rintro ⟨farther, rfl, _⟩
    exact hfree (List.suffix_append _ _)
  · refine wordAt_qualified hstart ⟨hw, ?_, ?_, ?_, ?_⟩
    · rw [htext]
      simp only [List.append_assoc]
    · rw [qualifier_eq]
      simp [isWordChar]
    · rw [byteLength_append]
      omega
    · rw [byteLength_append]
      omega

theorem Jet.find?_name {jet : Jet} (h : jet ∈ Jet.catalogue) :
    Jet.catalogue.find? (·.name.toList == jet.name.toList) = some jet := by
  obtain ⟨u, v, hsplit⟩ := List.append_of_mem h
  have hnodup := Jet.nodup_names_catalogue
  rw [hsplit, List.map_append, List.map_cons, List.nodup_append] at hnodup
  refine List.find?_eq_some_iff_append.mpr ⟨beq_self_eq_true _, u, v, hsplit, fun other hother ↦ ?_⟩
  have hne := hnodup.2.2 _ (List.mem_map_of_mem hother) _ List.mem_cons_self
  rw [Bool.not_eq_true']
  exact beq_eq_false_iff_ne.mpr hne

theorem hover_qualified (w : List Char) :
    hover (String.ofList (Jet.qualifier.toList ++ w)) =
      (Jet.catalogue.find? (·.name.toList == w)).map Jet.hover := by
  have hfront : Jet.qualifier.toList.isPrefixOf (Jet.qualifier.toList ++ w) = true :=
    List.isPrefixOf_iff_prefix.mpr (List.prefix_append _ _)
  unfold hover Jet.find?
  simp only [String.toList_ofList, hfront, if_true, List.drop_left]

theorem hover_bare (h : ∀ c ∈ w, isWordChar c = true) :
    hover (String.ofList w) = (Jet.catalogue.find? (·.name.toList == w)).map Jet.hover := by
  have hfront : ¬Jet.qualifier.toList.isPrefixOf w = true := by
    intro hfront
    have hcolon : ':' ∈ w := (List.isPrefixOf_iff_prefix.mp hfront).subset (by decide)
    exact absurd (h ':' hcolon) (by decide)
  unfold hover Jet.find?
  simp only [String.toList_ofList, if_neg hfront]

end Reference

/-- A column has a word if it touches a word character. The word is the run of word characters there,
with `jet::` before it or a name behind it, and both halves of a reference to a jet give the whole
reference, whose hover is that of the bare name: the paragraphs of the jet, or none. -/
theorem wordAt_finds (line : List Char) (column : Nat) :
    (wordAt line column = none ↔ byteLength line < column ∨ isBoundary column line = false ∨
      ∀ before after, line = before ++ after → byteLength before = column →
        before.getLast?.any isWordChar = false ∧ after.head?.any isWordChar = false) ∧
    (∀ span, wordAt line column = some span → span.start ≤ column ∧ column ≤ span.stop ∧
      span.Cuts line ∧ (∃ before run after, RunAt line column before run after) ∧
      ∀ before run after, RunAt line column before run after → span.Holds before run after) ∧
    ∀ before w after, line = before ++ (Jet.qualifier.toList ++ w) ++ after → IsWord w after →
      before.getLast?.any isWordChar = false → ¬Jet.qualifier.toList <:+ before →
      (byteLength before ≤ column ∧ column ≤ byteLength before + 3 ∨
        byteLength before + 5 ≤ column ∧ column ≤ byteLength before + 5 + byteLength w) →
      wordAt line column = some ⟨byteLength before, byteLength before + 5 + byteLength w,
        Jet.qualifier.toList ++ w⟩ ∧
      hover (String.ofList (Jet.qualifier.toList ++ w)) = hover (String.ofList w) ∧
      (∀ jet ∈ Jet.catalogue, jet.name.toList = w →
        hover (String.ofList (Jet.qualifier.toList ++ w)) =
          some ["**" ++ jet.qualifiedName ++ "**", "\x60" ++ jet.signature ++ "\x60",
            jet.description]) ∧
      ((∀ jet ∈ Jet.catalogue, jet.name.toList ≠ w) →
        hover (String.ofList (Jet.qualifier.toList ++ w)) = none) := by
  refine ⟨wordAt_eq_none_iff, fun span hspan ↦ ?_, fun before w after htext hw hstart hfree hcolumn ↦
    ⟨wordAt_reference htext hw hstart hfree hcolumn, ?_, ?_, ?_⟩⟩
  · obtain ⟨before, run, after, hrun⟩ := exists_runAt (by rw [hspan]; exact Option.some_ne_none span)
    obtain ⟨found, hfound, hcuts, hholds⟩ := hrun.exists_wordAt
    obtain rfl : span = found := Option.some.inj (hspan.symm.trans hfound)
    refine ⟨Nat.le_trans hholds.start_le hrun.le_column,
      Nat.le_trans hrun.column_le hholds.le_stop, hcuts, ⟨before, run, after, hrun⟩,
      fun before' run' after' hrun' ↦ ?_⟩
    obtain ⟨found, hfound', _, hholds'⟩ := hrun'.exists_wordAt
    obtain rfl : span = found := Option.some.inj (hspan.symm.trans hfound')
    exact hholds'
  · rw [hover_qualified, hover_bare hw.chars]
  · rintro jet hjet rfl
    rw [hover_qualified, Jet.find?_name hjet, Option.map_some, Jet.hover]
  · intro hunknown
    rw [hover_qualified, Option.map_eq_none_iff, List.find?_eq_none]
    intro jet hjet
    simpa using hunknown jet hjet

theorem wordAt_finds_sha_256 :
    IsWord "sha_256".toList "(y)".toList ∧
    wordAt "é=jet::sha_256(y)".toList 6 = some ⟨3, 15, "jet::sha_256".toList⟩ ∧
    wordAt "é=jet::sha_256(y)".toList 15 = some ⟨3, 15, "jet::sha_256".toList⟩ ∧
    (∃ jet ∈ Jet.catalogue, jet.name.toList = "sha_256".toList ∧
      hover "jet::sha_256" = some jet.hover) ∧
    hover "jet::sha_512" = none := by
  have hword : IsWord "sha_256".toList "(y)".toList :=
    ⟨by decide, List.all_eq_true.mp (by decide), by decide⟩
  have hother : IsWord "sha_512".toList [] :=
    ⟨by decide, List.all_eq_true.mp (by decide), by decide⟩
  obtain ⟨hleft, _, hhover, _⟩ := (wordAt_finds "é=jet::sha_256(y)".toList 6).2.2 "é=".toList
    "sha_256".toList "(y)".toList (by decide) hword (by decide) (by decide) (by decide)
  obtain ⟨hright, _⟩ := (wordAt_finds "é=jet::sha_256(y)".toList 15).2.2 "é=".toList
    "sha_256".toList "(y)".toList (by decide) hword (by decide) (by decide) (by decide)
  obtain ⟨_, _, _, hnone⟩ := (wordAt_finds "jet::sha_512".toList 0).2.2 [] "sha_512".toList []
    (by decide) hother (by decide) (by decide) (by decide)
  obtain ⟨jet, hjet, hname⟩ :
      ∃ jet ∈ Jet.catalogue, jet.name.toList = "sha_256".toList := by
    decide +kernel
  exact ⟨hword, hleft, hright, ⟨jet, hjet, hname, hhover jet hjet hname⟩,
    hnone (by decide +kernel)⟩

end Highlighter
