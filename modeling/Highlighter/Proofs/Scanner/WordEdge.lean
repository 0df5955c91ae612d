import Highlighter.Proofs.Pattern.Edge
import Highlighter.Proofs.Scanner.Origin
import Highlighter.Proofs.Scanner.Word
import Highlighter.Proofs.Text.Ascii

namespace Highlighter

open Grammar

/-- The text ends in digits with no other word character before them, and each of these digits is a
token of plain text. -/
def EndsInPlainDigits (tokens : List Token) (text : List Char) : Prop :=
  ∃ front digits, text = front ++ digits ∧ digits ≠ [] ∧
    front.getLast?.any isWordChar = false ∧
    ∀ v c u, digits = v ++ c :: u → c.isDigit = true ∧
      Token.mk (byteLength (front ++ v)) (byteLength (front ++ v) + 1) .plainText .start ∈ tokens

theorem EndsInPlainDigits.append {tokens : List Token} {text : List Char}
    (h : EndsInPlainDigits tokens text) (more : List Token) :
    EndsInPlainDigits (tokens ++ more) text := by
  obtain ⟨front, digits, htext, hne, hfront, hdigits⟩ := h
  refine ⟨front, digits, htext, hne, hfront, ?_⟩
  intro v c u hsplit
  obtain ⟨hdigit, hmem⟩ := hdigits v c u hsplit
  exact ⟨hdigit, List.mem_append_left more hmem⟩

/-- One more plain digit where no word goes on, or where plain digits end. -/
theorem EndsInPlainDigits.concat {tokens : List Token} {text : List Char} {c : Char}
    (h : text.getLast?.any isWordChar = false ∨ EndsInPlainDigits tokens text)
    (hc : c.isDigit = true)
    (hmem : Token.mk (byteLength text) (byteLength text + 1) .plainText .start ∈ tokens) :
    EndsInPlainDigits tokens (text ++ [c]) := by
  obtain ⟨front, digits, rfl, hfront, hdigits⟩ : ∃ front digits, text = front ++ digits ∧
      front.getLast?.any isWordChar = false ∧
      ∀ v d u, digits = v ++ d :: u → d.isDigit = true ∧
        Token.mk (byteLength (front ++ v)) (byteLength (front ++ v) + 1) .plainText .start
          ∈ tokens := by
    rcases h with h | ⟨front, digits, htext, _, hfront, hdigits⟩
    · refine ⟨text, [], (List.append_nil text).symm, h, ?_⟩
      intro v d u hsplit
      simp at hsplit
    · exact ⟨front, digits, htext, hfront, hdigits⟩
  refine ⟨front, digits ++ [c], List.append_assoc .., by simp, hfront, ?_⟩
  intro v d u hsplit
  rcases List.eq_nil_or_concat u with rfl | ⟨u, x, rfl⟩
  · obtain ⟨rfl, hd⟩ := List.append_inj' hsplit rfl
    cases hd
    exact ⟨hc, hmem⟩
  · rw [List.concat_eq_append, ← List.cons_append, ← List.append_assoc] at hsplit
    exact hdigits v d u (List.append_inj' hsplit rfl).1

/-- The edges of a token lie outside words. Only plain text may end inside a word, and only behind
plain digits may a token begin inside one. -/
def EdgesOutsideWords (tokens : List Token) (text : List Char) (t : Token) : Prop :=
  ∃ before part after, text = before ++ part ++ after ∧
    t.start = byteLength before ∧ t.stop = t.start + byteLength part ∧
    (t.category ≠ .plainText → part.getLast?.any isWordChar = true →
      after.head?.any isWordChar = false) ∧
    (part.head?.any isWordChar = true →
      before.getLast?.any isWordChar = false ∨ EndsInPlainDigits tokens before)

theorem EdgesOutsideWords.append {tokens : List Token} {text : List Char} {t : Token}
    (h : EdgesOutsideWords tokens text t) (more : List Token) :
    EdgesOutsideWords (tokens ++ more) text t := by
  obtain ⟨before, part, after, htext, hstart, hstop, hright, hleft⟩ := h
  refine ⟨before, part, after, htext, hstart, hstop, hright, ?_⟩
  intro hhead
  exact (hleft hhead).imp_right fun hdigits ↦ hdigits.append more

section Cuts

variable {mode : Mode} {text : List Char} {m : RuleMatch} {q : Point} {v : List Char}

/-- No word goes on behind a cut that ends in a word character. -/
theorem Mode.head?_rest_of_mem_cuts (hm : mode.find? text = some m) (hq : q ∈ m.cuts)
    (hreaches : (Point.atStart text).Reaches q v) (hlast : v.getLast?.any isWordChar = true) :
    q.rest.head?.any isWordChar = false := by
  have houtside := Mode.isInsideWord_of_find? hm q hq
  cases hc : v.getLast? with
  | none =>
    rw [hc] at hlast
    cases hlast
  | some c =>
    unfold Point.isInsideWord at houtside
    rw [hreaches.before, hc, Option.some_or, ← hc, hlast, Bool.true_and] at houtside
    exact houtside

/-- A word that begins at a cut goes on from nothing before it. -/
theorem Mode.getLast?_of_mem_cuts (hm : mode.find? text = some m) (hq : q ∈ m.cuts) (hv : v ≠ [])
    (hreaches : (Point.atStart text).Reaches q v) (hhead : q.rest.head?.any isWordChar = true)
    (before : List Char) : (before ++ v).getLast?.any isWordChar = false := by
  rw [List.getLast?_append_of_ne_nil before hv, Bool.eq_false_iff]
  intro hlast
  rw [Mode.head?_rest_of_mem_cuts hm hq hreaches hlast] at hhead
  cases hhead

theorem RuleMatch.finish_mem_cuts (hw : (Point.atStart text).Reaches (m.finish text) v)
    (hne : v ≠ []) : m.finish text ∈ m.cuts := by
  unfold RuleMatch.finish at hw ⊢
  cases hlast : m.cuts.getLast? with
  | none =>
    rw [hlast] at hw
    exact absurd (hw.eq_nil_iff.mpr rfl) hne
  | some q => exact List.mem_of_getLast? hlast

end Cuts

/-- Outside comments a word character that no rule takes is a digit. -/
theorem isDigit_of_find?_eq_none {c : Char} {cs : List Char}
    (h : Mode.start.find? (c :: cs) = none) (hc : isWordChar c = true) : c.isDigit = true := by
  by_contra hdigit
  have hletter : (c.isAlpha || c == '_') = true := by
    unfold isWordChar Char.isAlphanum at hc
    simp only [Bool.or_eq_true] at hc ⊢
    tauto
  have hword : IsWord (c :: cs.takeWhile isWordChar) (cs.dropWhile isWordChar) := by
    refine ⟨List.cons_ne_nil _ _, ?_, any_head?_dropWhile isWordChar cs⟩
    intro d hd
    rcases List.mem_cons.mp hd with rfl | hd
    · exact hc
    · exact List.all_eq_true.mp List.all_takeWhile d hd
  have hreads := hword.reads_start hletter
  rw [List.cons_append, List.takeWhile_append_dropWhile] at hreads
  obtain ⟨m, hm, _⟩ := hreads
  change startRules.findSome? _ = none at h
  rw [h] at hm
  cases hm

namespace Scanner

variable {s : Scanner}

/-- A place where the scanner steps: `before` has been read into tokens, and the place lies inside a
word only behind plain digits. -/
structure AtEdge (s : Scanner) (emitted : List Token) (before : List Char) : Prop where
  offset : s.offset = byteLength before
  edge : s.rest.head?.any isWordChar = true →
    before.getLast?.any isWordChar = false ∨ EndsInPlainDigits emitted before

theorem step_edges_of_find? {emitted : List Token} {before : List Char} {m : RuleMatch}
    (h : s.AtEdge emitted before) (hrest : s.rest ≠ [])
    (hm : s.settled.mode.find? s.rest = some m) :
    ∃ w, s.rest = w ++ s.step.2.rest ∧
      s.step.2.AtEdge (emitted ++ s.step.1) (before ++ w) ∧
      ∀ t ∈ s.step.1, EdgesOutsideWords (emitted ++ s.step.1) (before ++ s.rest) t := by
  obtain ⟨_, w, hne, hw⟩ := Mode.finish_find? hm
  have hfinish := RuleMatch.finish_mem_cuts hw hne
  rw [step_of_find?_eq_some hrest hm]
  refine ⟨w, hw.rest, ⟨?_, ?_⟩, ?_⟩
  · rw [byteLength_append, ← h.offset, hw.offset_atStart]
  · intro hhead
    exact .inl (Mode.getLast?_of_mem_cuts hm hfinish hne hw hhead before)
  · intro t ht
    obtain ⟨_, _, q, r, v, u, htook⟩ := RuleMatch.exists_tookToken (Mode.cuts_find? hm) ht
    have hrest' : s.rest = v ++ q.rest := htook.before.rest
    rw [htook.eq]
    refine ⟨before ++ v, u, r.rest, ?_, ?_, ?_, ?_, ?_⟩
    · rw [hrest', htook.text.rest, List.append_assoc, List.append_assoc]
    · rw [htook.before.offset_atStart, h.offset, byteLength_append]
    · rw [htook.text.offset, Nat.add_assoc]
    · intro _ hlast
      apply Mode.head?_rest_of_mem_cuts hm htook.stop (htook.before.trans htook.text)
      rw [List.getLast?_append_of_ne_nil v htook.ne_nil]
      exact hlast
    · intro hhead
      have hhead' : q.rest.head?.any isWordChar = true := by
        rw [htook.text.rest, List.head?_append_of_ne_nil _ htook.ne_nil]
        exact hhead
      by_cases hnil : v = []
      · rw [hnil, List.nil_append] at hrest'
        rw [hnil, List.append_nil]
        exact (h.edge (by rw [hrest']; exact hhead')).imp_right fun hdigits ↦ hdigits.append _
      · have hmem := htook.start.resolve_left fun hboth ↦ hnil hboth.1
        exact .inl (Mode.getLast?_of_mem_cuts hm hmem hnil htook.before hhead' before)

theorem step_edges_of_find?_eq_none {emitted : List Token} {before : List Char}
    (h : s.AtEdge emitted before) (hrest : s.rest ≠ [])
    (hm : s.settled.mode.find? s.rest = none) :
    ∃ w, s.rest = w ++ s.step.2.rest ∧
      s.step.2.AtEdge (emitted ++ s.step.1) (before ++ w) ∧
      ∀ t ∈ s.step.1, EdgesOutsideWords (emitted ++ s.step.1) (before ++ s.rest) t := by
  obtain ⟨c, cs, hcons⟩ := List.exists_cons_of_ne_nil hrest
  have hmode := settled_mode_of_find?_eq_none hrest hm
  rw [step_of_find?_eq_none hcons hm]
  refine ⟨[c], hcons, ⟨?_, ?_⟩, ?_⟩
  · simp [h.offset]
  · intro _
    by_cases hword : isWordChar c = true
    · right
      rw [hmode, hcons] at hm
      have hdigit := isDigit_of_find?_eq_none hm hword
      have hsize := utf8Size_of_ascii (toNat_lt_of_isWordChar hword)
      refine EndsInPlainDigits.concat (.imp_right (·.append _) (h.edge ?_)) hdigit ?_
      · rw [hcons]
        exact hword
      · rw [← h.offset, hmode, hsize]
        exact List.mem_append_right _ (List.mem_singleton_self _)
    · left
      simpa using hword
  · intro t ht
    rw [List.mem_singleton.mp ht]
    refine ⟨before, [c], cs, ?_, h.offset, ?_, ?_, ?_⟩
    · rw [hcons, List.append_assoc, List.singleton_append]
    · simp
    · intro hne
      exact absurd rfl hne
    · intro hhead
      exact (h.edge (by rw [hcons]; exact hhead)).imp_right fun hdigits ↦ hdigits.append _

theorem step_edges {emitted : List Token} {before : List Char} (h : s.AtEdge emitted before)
    (hrest : s.rest ≠ []) :
    ∃ w, s.rest = w ++ s.step.2.rest ∧
      s.step.2.AtEdge (emitted ++ s.step.1) (before ++ w) ∧
      ∀ t ∈ s.step.1, EdgesOutsideWords (emitted ++ s.step.1) (before ++ s.rest) t := by
  cases hm : s.settled.mode.find? s.rest with
  | some m => exact step_edges_of_find? h hrest hm
  | none => exact step_edges_of_find?_eq_none h hrest hm

theorem Emits.edges {s' : Scanner} {tokens : List Token} (h : s.Emits tokens s')
    {emitted : List Token} {before : List Char} (hat : s.AtEdge emitted before) :
    ∀ t ∈ tokens, EdgesOutsideWords (emitted ++ tokens) (before ++ s.rest) t := by
  induction h generalizing emitted before with
  | refl s => intro t ht; cases ht
  | @step s s' tokens hrest h ih =>
    obtain ⟨w, hw, hnext, hfirst⟩ := step_edges hat hrest
    intro t ht
    rw [← List.append_assoc]
    rcases List.mem_append.mp ht with ht | ht
    · exact (hfirst t ht).append tokens
    · rw [hw, ← List.append_assoc]
      exact ih hnext t ht

end Scanner

/-- No token but plain text ends inside a word, and none begins inside one except behind digits that
are all plain text and follow no word character. -/
theorem classifyFrom_edges (state : ScanState) (text : List Char) (t : Token)
    (ht : t ∈ (classifyFrom state text).1) :
    EdgesOutsideWords (classifyFrom state text).1 text t := by
  have hemits := (Scanner.ofText text state).emits_run
  rw [Scanner.run_ofText] at hemits
  have hat : (Scanner.ofText text state).AtEdge [] [] := ⟨rfl, fun _ ↦ .inl rfl⟩
  exact hemits.edges hat t ht

/-- The keyword of `1fn` begins inside a word. -/
theorem classifyFrom_edges_behind_digit :
    ⟨1, 3, .keyword, .start⟩ ∈ (classifyFrom {} "1fn".toList).1 ∧
      EdgesOutsideWords (classifyFrom {} "1fn".toList).1 "1fn".toList
        ⟨1, 3, .keyword, .start⟩ := by
  have hmem : ⟨1, 3, .keyword, .start⟩ ∈ (classifyFrom {} "1fn".toList).1 := by decide +kernel
  exact ⟨hmem, classifyFrom_edges {} "1fn".toList _ hmem⟩

theorem exists_keyword_inside_word :
    ¬ ∀ text, ∀ t ∈ classify text, t.category ∉ [.comment, .string, .plainText] →
      ∀ before part after, text = before ++ part ++ after → t.start = byteLength before →
        t.stop = t.start + byteLength part →
        (part.head?.any isWordChar = true → before.getLast?.any isWordChar = false) ∧
          (part.getLast?.any isWordChar = true → after.head?.any isWordChar = false) := by
  intro hall
  have hkeyword := hall "1fn".toList ⟨1, 3, .keyword, .start⟩ (by decide +kernel) (by decide)
    ['1'] ['f', 'n'] [] rfl rfl rfl
  exact absurd (hkeyword.1 (by decide)) (by decide)

end Highlighter
