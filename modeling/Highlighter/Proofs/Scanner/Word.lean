import Highlighter.Proofs.Pattern.Follow
import Highlighter.Proofs.Scanner.Lexeme
import Highlighter.Proofs.Text.Ascii

namespace Highlighter

open Grammar

def Namespace.qualifies (space : Namespace) (w rest : List Char) : Bool :=
  space.word == String.ofList w && "::".toList.isPrefixOf rest &&
    space.naming.admits (qualifiedName rest)

/-- What the scanner makes of the word `w` in front of `rest`. -/
def readWord (w rest : List Char) : Reading :=
  let word := String.ofList w
  if w.head?.any isLowerStart ∧ marksMacro rest then
    ⟨[⟨w ++ ['!'], .macroInvocation⟩], none⟩
  else if word = "fn" ∧ rest.head?.any isGap then
    ⟨[⟨w, .keyword⟩, ⟨rest.takeWhile isGap, .plainText⟩], some (.goto .functionName)⟩
  else if word ∈ Vocabulary.keywords then
    ⟨[⟨w, .keyword⟩], none⟩
  else if word ∈ Vocabulary.constants ∨ word ∈ Vocabulary.variants then
    ⟨[⟨w, .literalConstant⟩], none⟩
  else if word ∈ Vocabulary.primitiveTypes ∨ word ∈ Vocabulary.builtinTypes ∨
      w.head?.any Char.isUpper then
    ⟨[⟨w, .typeName⟩], none⟩
  else if word ∈ Vocabulary.builtinFunctions then
    ⟨[⟨w, .builtin⟩], none⟩
  else
    match Namespace.all.find? (·.qualifies w rest) with
    | some space =>
      ⟨[⟨w, .namespaceName⟩, ⟨"::".toList, .operator⟩,
        ⟨qualifiedName rest, space.naming.category⟩], none⟩
    | none =>
      if opensCall rest then
        ⟨[⟨w, .functionReference⟩], none⟩
      else
        ⟨[⟨w, .identifier⟩], none⟩

theorem cutsOf_cons_of_ends {piece : Piece} {pieces : List Piece} {p q : Point}
    (h : piece.pattern.ends p = [q]) :
    cutsOf (piece :: pieces) p = (cutsOf pieces q).map (q :: ·) := by
  rw [cutsOf, h, List.flatMap_singleton]

theorem cutsOf_cons_of_refuses {piece : Piece} {pieces : List Piece} {c : Char}
    (h : piece.pattern.refuses c = true) {p : Point} (hp : p.rest.head? = some c) :
    cutsOf (piece :: pieces) p = [] := by
  rw [cutsOf, Pattern.ends_of_refuses h hp]
  rfl

theorem reference_eq (space : Namespace) :
    reference space = ⟨"namespace-reference",
      [⟨.all [.boundary, .literal space.word], .namespaceName⟩, ⟨.literal "::", .operator⟩,
        ⟨space.naming.pattern, space.naming.category⟩], none⟩ := by
  unfold reference
  cases space.naming <;> rfl

theorem qualifies_iff {space : Namespace} {w rest : List Char} :
    space.qualifies w rest = true ↔ String.ofList w = space.word ∧ "::".toList <+: rest ∧
      space.naming.admits (qualifiedName rest) = true := by
  unfold Namespace.qualifies
  rw [Bool.and_eq_true, Bool.and_eq_true, beq_iff_eq, List.isPrefixOf_iff_prefix, and_assoc,
    eq_comm]

theorem head?_cutsOf_name (naming : Naming) (p : Point) :
    (cutsOf [⟨.literal "::", .operator⟩, ⟨naming.pattern, naming.category⟩] p).head? =
      if "::".toList <+: p.rest ∧ naming.admits (qualifiedName p.rest) then
        some (cutsAlong ((p.rest.drop 2).dropWhile isWordChar) p
          [⟨"::".toList, .operator⟩, ⟨qualifiedName p.rest, naming.category⟩])
      else none := by
  by_cases hsep : "::".toList <+: p.rest
  · obtain ⟨more, hmore⟩ := hsep
    have hsplit : (p.behind "::".toList more).rest =
        more.takeWhile isWordChar ++ more.dropWhile isWordChar :=
      List.takeWhile_append_dropWhile.symm
    have hname := Pattern.first?_name naming hsplit (List.all_eq_true.mp List.all_takeWhile)
      (any_head?_dropWhile isWordChar more)
    have hcuts : cutsOf [⟨.literal "::", .operator⟩, ⟨naming.pattern, naming.category⟩] p = _ :=
      cutsOf_cons_of_ends (Pattern.ends_literal hmore.symm)
    have hdrop : p.rest.drop 2 = more := by
      rw [← hmore]
      rfl
    rw [hcuts, List.head?_map, head?_cutsOf_singleton, hname]
    unfold qualifiedName
    rw [hdrop]
    by_cases hadmits : naming.admits (more.takeWhile isWordChar) = true
    · rw [if_pos hadmits, if_pos ⟨⟨more, hmore⟩, hadmits⟩]
      simp [cutsAlong]
    · rw [if_neg hadmits, if_neg fun hboth ↦ hadmits hboth.2]
      rfl
  · rw [cutsOf, Pattern.ends_literal_eq_nil hsep, if_neg fun hboth ↦ hsep hboth.1]
    rfl

namespace IsWord

variable {w rest : List Char}

theorem ends_qualifier (h : IsWord w rest) (v : String) :
    (Pattern.all [.boundary, .literal v]).ends (Point.atStart (w ++ rest)) =
      (Pattern.literal v).ends (Point.atStart (w ++ rest)) := by
  simp [Pattern.all, Pattern.ends, h.isWordBoundary_atStart]

theorem cutsOf_qualifier (h : IsWord w rest) {v : String} (hv : String.ofList w = v)
    (category : Category) (pieces : List Piece) :
    cutsOf (⟨.all [.boundary, .literal v], category⟩ :: pieces) (Point.atStart (w ++ rest)) =
      (cutsOf pieces ((Point.atStart (w ++ rest)).behind w rest)).map
        ((Point.atStart (w ++ rest)).behind w rest :: ·) := by
  have hvw : v.toList = w := by rw [← hv, String.toList_ofList]
  have hrest : (Point.atStart (w ++ rest)).rest = v.toList ++ rest := by
    rw [hvw]
    rfl
  apply cutsOf_cons_of_ends
  rw [h.ends_qualifier, Pattern.ends_literal hrest, hvw]

/-- A rule that begins with a known word matches no other word, if its second piece refuses word
characters. -/
theorem cutsOf_qualifier_of_ne (h : IsWord w rest) {v : String} (hv : String.ofList w ≠ v)
    (hchars : v.toList.all isWordChar = true) {piece : Piece}
    (hrefuses : ∀ c, isWordChar c = true → piece.pattern.refuses c = true)
    (category : Category) (pieces : List Piece) :
    cutsOf (⟨.all [.boundary, .literal v], category⟩ :: piece :: pieces)
      (Point.atStart (w ++ rest)) = [] := by
  by_cases hfront : v.toList <+: w ++ rest
  · obtain ⟨u, hu⟩ := h.prefix_of_prefix_append hchars hfront
    have hrest : (Point.atStart (w ++ rest)).rest = v.toList ++ (u ++ rest) := by
      rw [← List.append_assoc, hu]
      rfl
    have hends := (h.ends_qualifier v).trans (Pattern.ends_literal hrest)
    rw [cutsOf_cons_of_ends hends, List.map_eq_nil_iff]
    have hne : u ≠ [] := by
      rintro rfl
      rw [List.append_nil] at hu
      exact hv (by rw [← hu, String.ofList_toList])
    obtain ⟨c, more, rfl, hc⟩ := h.exists_cons hu.symm hne
    exact cutsOf_cons_of_refuses (hrefuses c hc) rfl
  · rw [cutsOf, h.ends_qualifier, Pattern.ends_literal_eq_nil hfront]
    rfl

theorem reads_definition (h : IsWord w rest) {name : String} {transition : Option Transition} :
    Reads [⟨name, [⟨.all [.boundary, .literal "fn"], .keyword⟩,
        ⟨.greedy1 (.one isGap), .plainText⟩], transition⟩] (w ++ rest)
      (if String.ofList w = "fn" ∧ rest.head?.any isGap then
        some ⟨[⟨w, .keyword⟩, ⟨rest.takeWhile isGap, .plainText⟩], transition⟩ else none) := by
  have hgaps := head?_cutsOf_singleton ⟨.greedy1 (.one isGap), .plainText⟩
    ((Point.atStart (w ++ rest)).behind w rest)
  rw [Pattern.first?_gaps, Point.rest_behind, Point.behind_behind] at hgaps
  by_cases hw : String.ofList w = "fn"
  · have hcuts := h.cutsOf_qualifier hw .keyword [⟨.greedy1 (.one isGap), .plainText⟩]
    by_cases hgap : rest.head?.any isGap = true
    · rw [if_pos ⟨hw, hgap⟩]
      rw [if_pos hgap, Option.map_some] at hgaps
      have hne := takeWhile_ne_nil hgap
      have htext : w ++ rest = spelled [⟨w, .keyword⟩, ⟨rest.takeWhile isGap, .plainText⟩] ++
          rest.dropWhile isGap := by simp
      refine reads_singleton_of_cuts htext ?_ rfl ?_ ?_ rfl
      · rw [hcuts, List.head?_map, hgaps]
        simp [cutsAlong]
      · simp [h.ne_nil, hne]
      · simp [h.ne_nil]
    · rw [if_neg fun hboth ↦ hgap hboth.2]
      rw [if_neg hgap, Option.map_none, List.head?_eq_none_iff] at hgaps
      apply reads_singleton_none
      rw [hcuts, hgaps]
      rfl
  · rw [if_neg fun hboth ↦ hw hboth.1]
    have hrefuses : ∀ c, isWordChar c = true → (Pattern.greedy1 (.one isGap)).refuses c = true := by
      intro c hc
      simp [Pattern.greedy1, Pattern.refuses, isGap, ne_of_isWordChar (d := ' ') hc (by decide),
        ne_of_isWordChar (d := '\t') hc (by decide)]
    exact reads_singleton_none
      (h.cutsOf_qualifier_of_ne hw (by decide) hrefuses .keyword [])

theorem reads_reference (h : IsWord w rest) {space : Namespace} (hspace : space ∈ Namespace.all) :
    Reads [reference space] (w ++ rest)
      (if space.qualifies w rest then
        some ⟨[⟨w, .namespaceName⟩, ⟨"::".toList, .operator⟩,
          ⟨qualifiedName rest, space.naming.category⟩], none⟩ else none) := by
  have hchars : Namespace.all.all (·.word.toList.all isWordChar) = true := by decide
  have hrefuses : ∀ c, isWordChar c = true → (Pattern.literal "::").refuses c = true := by
    intro c hc
    have hne := ne_of_isWordChar (d := ':') hc (by decide)
    change (!(c == ':') || _) = true
    simp [hne]
  rw [reference_eq]
  by_cases hw : String.ofList w = space.word
  · have hcuts := h.cutsOf_qualifier hw .namespaceName
      [⟨.literal "::", .operator⟩, ⟨space.naming.pattern, space.naming.category⟩]
    have hname := head?_cutsOf_name space.naming ((Point.atStart (w ++ rest)).behind w rest)
    rw [Point.rest_behind] at hname
    by_cases hboth : "::".toList <+: rest ∧ space.naming.admits (qualifiedName rest) = true
    · obtain ⟨more, hmore⟩ := hboth.1
      have hdrop : rest.drop 2 = more := by
        rw [← hmore]
        rfl
      have hrest : "::".toList ++ (qualifiedName rest ++ (rest.drop 2).dropWhile isWordChar) =
          rest := by
        rw [qualifiedName, List.takeWhile_append_dropWhile, hdrop, hmore]
      have hn : qualifiedName rest ≠ [] := by
        intro hnil
        have hadmits := hboth.2
        rw [hnil] at hadmits
        cases hnaming : space.naming <;> rw [hnaming] at hadmits <;> cases hadmits
      rw [if_pos (qualifies_iff.mpr ⟨hw, hboth⟩)]
      rw [if_pos hboth] at hname
      have htext : w ++ rest = spelled [⟨w, .namespaceName⟩, ⟨"::".toList, .operator⟩,
          ⟨qualifiedName rest, space.naming.category⟩] ++ (rest.drop 2).dropWhile isWordChar := by
        simp only [spelled_cons, spelled_nil, List.append_nil, List.append_assoc, hrest]
      refine reads_singleton_of_cuts htext ?_ rfl ?_ ?_ rfl
      · rw [hcuts, List.head?_map, hname]
        simp only [cutsAlong, spelled_cons, spelled_nil, List.append_nil, List.append_assoc, hrest,
          Option.map_some]
      · simp [h.ne_nil, hn]
      · simp [h.ne_nil]
    · rw [if_neg fun hqualifies ↦ hboth (qualifies_iff.mp hqualifies).2]
      rw [if_neg hboth, List.head?_eq_none_iff] at hname
      apply reads_singleton_none
      rw [hcuts, hname]
      rfl
  · have hword := List.all_eq_true.mp hchars space hspace
    rw [if_neg fun hqualifies ↦ hw (qualifies_iff.mp hqualifies).1]
    exact reads_singleton_none (h.cutsOf_qualifier_of_ne hw hword hrefuses .namespaceName _)

theorem reads_references (h : IsWord w rest) :
    Reads (Namespace.all.map reference) (w ++ rest)
      ((Namespace.all.find? (·.qualifies w rest)).map fun space ↦
        ⟨[⟨w, .namespaceName⟩, ⟨"::".toList, .operator⟩,
          ⟨qualifiedName rest, space.naming.category⟩], none⟩) := by
  have hsome : ∀ spaces : List Namespace, (∀ space ∈ spaces, space ∈ Namespace.all) →
      Reads (spaces.map reference) (w ++ rest)
        ((spaces.find? (·.qualifies w rest)).map fun space ↦
          ⟨[⟨w, .namespaceName⟩, ⟨"::".toList, .operator⟩,
            ⟨qualifiedName rest, space.naming.category⟩], none⟩) := by
    intro spaces hspaces
    induction spaces with
    | nil => rfl
    | cons space spaces ih =>
      have hfirst := h.reads_reference (hspaces space List.mem_cons_self)
      have hlater := ih fun space hspace ↦ hspaces space (List.mem_cons_of_mem _ hspace)
      have happend := hfirst.append hlater
      rw [List.find?_cons]
      cases hqualifies : space.qualifies w rest <;> rw [hqualifies] at happend <;> exact happend
  exact hsome Namespace.all fun _ hspace ↦ hspace

theorem reads_knownWord (h : IsWord w rest) {words : List String}
    (hwords : ∀ v ∈ words, v.toList ≠ [] ∧ v.toList.all isWordChar = true) {name : String}
    {category : Category} :
    Reads [whole name category (knownWord words)] (w ++ rest)
      (if String.ofList w ∈ words then some ⟨[⟨w, category⟩], none⟩ else none) :=
  reads_whole_ite (fun _ ↦ rfl) h.ne_nil (Pattern.first?_knownWord h hwords)

theorem reads_wholeWord (h : IsWord w rest) (test : Char → Bool) {name : String}
    {category : Category} :
    Reads [whole name category (.all [.boundary, .one test, wordTail, .boundary])] (w ++ rest)
      (if w.head?.any test then some ⟨[⟨w, category⟩], none⟩ else none) :=
  reads_whole_ite (fun _ ↦ rfl) h.ne_nil (Pattern.first?_wholeWord h test)

theorem reads_macro (h : IsWord w rest) {name : String} {category : Category} :
    Reads [whole name category
        (.all [.boundary, .one isLowerStart, wordTail, .char '!', .notAhead (.char '=')])]
      (w ++ rest)
      (if w.head?.any isLowerStart ∧ marksMacro rest then
        some ⟨[⟨w ++ ['!'], category⟩], none⟩ else none) := by
  refine reads_whole_ite ?_ (by simp) (Pattern.first?_macro h)
  rintro ⟨_, hmark⟩
  unfold marksMacro at hmark
  cases rest with
  | nil => cases hmark
  | cons c rest =>
    obtain ⟨rfl, _⟩ : c = '!' ∧ _ := by simpa using hmark
    simp

/-- No rule outside words matches where a letter or underscore comes next. -/
theorem reads_none_of_letter {c : Char} (hc : (c.isAlpha || c == '_') = true) {rules : List Rule}
    (hrules : rules ∈ [commentRules, numberRules, [stringRule], symbolRules]) (text : List Char) :
    Reads rules (c :: text) none := by
  have hascii : c.toNat < 128 := by
    refine toNat_lt_of_isWordChar ?_
    rcases Bool.or_eq_true _ _ ▸ hc with hc | hc
    · simp [isWordChar, Char.isAlphanum, hc]
    · simp [isWordChar, hc]
  have hrefuses : ∀ rules ∈ [commentRules, numberRules, [stringRule], symbolRules],
      rules.all (·.refuses c) = true :=
    forall_ascii (P := fun c ↦ (c.isAlpha || c == '_') = true →
      ∀ rules ∈ [commentRules, numberRules, [stringRule], symbolRules],
        rules.all (·.refuses c) = true) (by decide +kernel) hascii hc
  exact reads_of_refuses (hrefuses rules hrules) text

theorem reads_unknown {c : Char} (h : IsWord (c :: w) rest) (hlower : isLowerStart c = true) :
    Reads (numberRules ++ ([stringRule] ++ (callRule :: (symbolRules ++ [identifierRule]))))
      (c :: w ++ rest)
      (some (if opensCall rest then ⟨[⟨c :: w, .functionReference⟩], none⟩
        else ⟨[⟨c :: w, .identifier⟩], none⟩)) := by
  have hletter : ((c.isUpper || c.isLower) || c == '_') = true := by
    rcases (Bool.or_eq_true _ _).mp hlower with hc | hc
    · simp [hc]
    · simp [hc]
  have hcall : Reads [callRule] (c :: w ++ rest)
      (if opensCall rest then some ⟨[⟨c :: w, .functionReference⟩], none⟩ else none) := by
    refine reads_whole_ite (fun _ ↦ rfl) h.ne_nil ((Pattern.first?_call h).trans ?_)
    simp [hlower]
  have hidentifier : Reads [identifierRule] (c :: w ++ rest)
      (some ⟨[⟨c :: w, .identifier⟩], none⟩) := by
    have hwhole : Reads [identifierRule] (c :: w ++ rest) _ := h.reads_wholeWord isLowerStart
    rw [List.head?_cons, Option.any_some, if_pos hlower] at hwhole
    exact hwhole
  have hnumber : Reads numberRules (c :: w ++ rest) none := reads_none_of_letter hletter (by simp) _
  have hstring : Reads [stringRule] (c :: w ++ rest) none :=
    reads_none_of_letter hletter (by simp) _
  have hsymbol : Reads symbolRules (c :: w ++ rest) none := reads_none_of_letter hletter (by simp) _
  have hcalls := hcall.ite_cons fun _ ↦ hsymbol.append hidentifier
  exact hnumber.append (hstring.append hcalls)

theorem reads_start {c : Char} (h : IsWord (c :: w) rest)
    (hletter : (c.isAlpha || c == '_') = true) :
    Reads startRules (c :: w ++ rest) (some (readWord (c :: w) rest)) := by
  have hwords : ∀ words ∈ [Vocabulary.keywords, Vocabulary.constants, Vocabulary.variants,
      Vocabulary.primitiveTypes, Vocabulary.builtinTypes, Vocabulary.builtinFunctions],
      ∀ v ∈ words, v.toList ≠ [] ∧ v.toList.all isWordChar = true := by decide +kernel
  have hlower : ¬ c.isUpper = true → isLowerStart c = true := by
    intro hupper
    rcases Bool.or_eq_true _ _ ▸ hletter with hc | hc
    · rcases Bool.or_eq_true _ _ ▸ hc with hc | hc
      · exact absurd hc hupper
      · simp [isLowerStart, hc]
    · simp [isLowerStart, hc]
  have hwordRules : Reads (wordRules ++ (Namespace.all.map reference ++ (numberRules ++
      ([stringRule] ++ (callRule :: (symbolRules ++ [identifierRule])))))) (c :: w ++ rest)
      (some (readWord (c :: w) rest)) := by
    unfold readWord
    dsimp only
    -- one branch for each rule of the table, in its order
    rw [ite_or, ite_or, ite_or]
    refine h.reads_macro.ite_cons fun _ ↦ ?_
    refine h.reads_definition.ite_cons fun _ ↦ ?_
    refine (h.reads_knownWord (hwords _ (by simp))).ite_cons fun _ ↦ ?_
    refine (h.reads_knownWord (hwords _ (by simp))).ite_cons fun _ ↦ ?_
    refine (h.reads_knownWord (hwords _ (by simp))).ite_cons fun _ ↦ ?_
    refine (h.reads_knownWord (hwords _ (by simp))).ite_cons fun _ ↦ ?_
    refine (h.reads_knownWord (hwords _ (by simp))).ite_cons fun _ ↦ ?_
    refine (h.reads_wholeWord Char.isUpper).ite_cons fun hupper ↦ ?_
    refine (h.reads_knownWord (hwords _ (by simp))).ite_cons fun _ ↦ ?_
    have hmore := h.reads_references.append (h.reads_unknown (hlower hupper))
    cases hfind : Namespace.all.find? (·.qualifies (c :: w) rest) with
    | none =>
      rw [hfind] at hmore
      exact hmore
    | some space =>
      rw [hfind] at hmore
      exact hmore
  have hcomment : Reads commentRules (c :: w ++ rest) none :=
    reads_none_of_letter hletter (by simp) _
  have hall := hcomment.append hwordRules
  unfold startRules
  simp only [List.append_assoc]
  exact hall

end IsWord

theorem all_indentDelta_readWord (w rest : List Char) :
    (readWord w rest).lexemes.all (·.category.indentDelta == 0) = true := by
  have hreference : ∀ space : Namespace,
      [⟨w, .namespaceName⟩, ⟨"::".toList, .operator⟩,
        ⟨qualifiedName rest, space.naming.category⟩].all
        (fun l : Lexeme ↦ l.category.indentDelta == 0) = true := by
    intro space
    cases hnaming : space.naming <;> rfl
  unfold readWord
  dsimp only
  iterate 6
    split
    · rfl
  split
  · exact hreference _
  split
  · rfl
  · rfl

/-- A step on a word emits what `readWord` says, whatever the text before and after. -/
theorem step_word (s : Scanner) (w rest : List Char) (hmode : s.settled.mode = .start)
    (hrest : s.rest = w ++ rest) (hword : IsWord w rest)
    (hletter : w.head?.any (fun c ↦ c.isAlpha || c == '_') = true) :
    ∃ after, s.rest = spelled (readWord w rest).lexemes ++ after ∧
      s.step = (layOut .start s.offset (readWord w rest).lexemes,
        ⟨s.settled.follow? (readWord w rest).transition,
          s.offset + byteLength (spelled (readWord w rest).lexemes), after⟩) := by
  have hreads : Reads s.settled.mode.rules s.rest (some (readWord w rest)) := by
    rw [hmode, hrest]
    cases w with
    | nil => cases hletter
    | cons c w => exact hword.reads_start hletter
  have hne : s.rest ≠ [] := by
    rw [hrest]
    exact List.append_ne_nil_of_left_ne_nil hword.ne_nil rest
  have hdepth : ∀ l ∈ (readWord w rest).lexemes, l.category.indentDelta = 0 := by
    intro l hl
    exact eq_of_beq (List.all_eq_true.mp (all_indentDelta_readWord w rest) l hl)
  obtain ⟨after, hafter, hstep⟩ := Scanner.step_of_reads hreads hne hdepth
  rw [hmode] at hstep
  exact ⟨after, hafter, hstep⟩

theorem step_word_jet :
    (Scanner.mk ⟨.start, [.comment], 2⟩ 7 "jet::sha_256(x)".toList).step =
      ([⟨7, 10, .namespaceName, .start⟩, ⟨10, 12, .operator, .start⟩,
          ⟨12, 19, .functionReference, .start⟩],
        ⟨⟨.start, [.comment], 2⟩, 19, "(x)".toList⟩) := by
  have hword : IsWord "jet".toList "::sha_256(x)".toList :=
    ⟨by decide, List.all_eq_true.mp (by decide), by decide⟩
  obtain ⟨after, hafter, hstep⟩ := step_word
    ⟨⟨.start, [.comment], 2⟩, 7, "jet::sha_256(x)".toList⟩ "jet".toList "::sha_256(x)".toList
    (by decide +kernel) (by decide) hword (by decide)
  have hreading : (readWord "jet".toList "::sha_256(x)".toList).lexemes =
      [⟨"jet".toList, .namespaceName⟩, ⟨"::".toList, .operator⟩,
        ⟨"sha_256".toList, .functionReference⟩] := by decide
  have hspelled : "jet::sha_256".toList ++ "(x)".toList = "jet::sha_256".toList ++ after := by
    rw [hreading] at hafter
    exact hafter
  obtain rfl : "(x)".toList = after := List.append_cancel_left hspelled
  rw [hstep, hreading]
  decide

end Highlighter
