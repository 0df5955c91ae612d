import Highlighter.Proofs.Scanner.Lexeme
import Highlighter.Proofs.Text.Ascii

namespace Highlighter

namespace Point

def isInsideWord (p : Point) : Bool :=
  p.before.any isWordChar && p.rest.head?.any isWordChar

theorem isInsideWord_of_before {p : Point} (h : p.before.any isWordChar = false) :
    p.isInsideWord = false := by
  rw [isInsideWord, h, Bool.false_and]

theorem isInsideWord_of_rest {p : Point} (h : p.rest.head?.any isWordChar = false) :
    p.isInsideWord = false := by
  rw [isInsideWord, h, Bool.and_false]

theorem isInsideWord_of_isWordBoundary {p : Point} (h : p.isWordBoundary = true) :
    p.isInsideWord = false := by
  unfold isWordBoundary at h
  unfold isInsideWord
  cases hbefore : p.before.any isWordChar with
  | false => rfl
  | true =>
    rw [hbefore] at h
    simpa using h

end Point

def wordChars : List Char :=
  ((List.range 128).map Char.ofNat).filter isWordChar

theorem mem_wordChars {c : Char} (h : isWordChar c = true) : c ∈ wordChars := by
  refine List.mem_filter.mpr ⟨?_, h⟩
  refine List.mem_map.mpr ⟨c.toNat, ?_, Char.ofNat_toNat c⟩
  exact List.mem_range.mpr (toNat_lt_of_isWordChar h)

namespace Pattern

def moves : Pattern → Bool
  | one _ | fail => true
  | seq first second => first.moves || second.moves
  | orElse first second => first.moves && second.moves
  | _ => false

def succeeds : Pattern → Bool
  | empty => true
  | orElse first second => first.succeeds || second.succeeds
  | _ => false

def isWordless (pattern : Pattern) : Bool :=
  wordChars.all fun c ↦ !pattern.takes c

def isApart (pattern : Pattern) : Bool :=
  pattern.moves && pattern.isWordless

/-- Whether the preferred match ends outside words, because of the form of the pattern. -/
def isTidy : Pattern → Bool
  | boundary => true
  | ahead body => body.isApart
  | greedy (one test) => wordChars.all test
  | seq first second =>
    second.isTidy || first.isTidy && second.succeeds && second.isWordless ||
      (seq first second).isApart
  | orElse first second => first.isTidy && second.isTidy
  | pattern => pattern.isApart

theorem offset_lt_of_moves {pattern : Pattern} (h : pattern.moves = true) {p q : Point}
    (hq : q ∈ pattern.ends p) : p.offset < q.offset := by
  induction pattern generalizing p q with
  | one test =>
    obtain ⟨c, _, hreaches⟩ := reaches_of_advance? (Option.mem_toList.mp hq)
    have hoffset := hreaches.offset
    have hpos := c.utf8Size_pos
    simp only [byteLength_cons, byteLength_nil] at hoffset
    omega
  | fail => cases hq
  | seq first second ih₁ ih₂ =>
    obtain ⟨r, hr, hq⟩ := List.mem_flatMap.mp hq
    obtain ⟨v, hv, _⟩ := exists_reaches_of_mem_ends hr
    obtain ⟨w, hw, _⟩ := exists_reaches_of_mem_ends hq
    have hle := hv.offset_le
    have hle' := hw.offset_le
    rcases (Bool.or_eq_true _ _).mp h with hmoves | hmoves
    · have hlt := ih₁ hmoves hr
      omega
    · have hlt := ih₂ hmoves hq
      omega
  | orElse first second ih₁ ih₂ =>
    obtain ⟨hfirst, hsecond⟩ := (Bool.and_eq_true _ _).mp h
    rcases List.mem_append.mp hq with hq | hq
    · exact ih₁ hfirst hq
    · exact ih₂ hsecond hq
  | empty | greedy _ _ | reluctant _ _ | boundary | ahead _ _ | notAhead _ _ => cases h

theorem first?_ne_none_of_succeeds {pattern : Pattern} (h : pattern.succeeds = true) (p : Point) :
    pattern.first? p ≠ none := by
  induction pattern with
  | empty => exact Option.some_ne_none p
  | orElse first second ih₁ ih₂ =>
    intro hnone
    rw [first?_orElse, Option.or_eq_none_iff] at hnone
    rcases (Bool.or_eq_true _ _).mp h with hsucceeds | hsucceeds
    · exact ih₁ hsucceeds hnone.1
    · exact ih₂ hsucceeds hnone.2
  | one _ | fail | seq _ _ _ _ | greedy _ _ | reluctant _ _ | boundary | ahead _ _ | notAhead _ _ =>
    cases h

theorem forall_of_isWordless {pattern : Pattern} (h : pattern.isWordless = true) {w : List Char}
    (hw : ∀ c ∈ w, pattern.takes c = true) : ∀ c ∈ w, isWordChar c = false := by
  intro c hc
  rw [Bool.eq_false_iff]
  intro hword
  have hrefuses := List.all_eq_true.mp h c (mem_wordChars hword)
  rw [hw c hc] at hrefuses
  cases hrefuses

theorem before_of_reaches {p q : Point} {w : List Char} (h : p.Reaches q w) (hne : w ≠ [])
    (hw : ∀ c ∈ w, isWordChar c = false) : q.before.any isWordChar = false := by
  obtain ⟨c, hc⟩ := Option.isSome_iff_exists.mp (List.getLast?_isSome.mpr hne)
  rw [h.before, hc, Option.some_or]
  exact hw c (List.mem_of_getLast? hc)

/-- A match that takes no word character has none before its end and none behind its beginning. -/
theorem of_mem_ends_of_isApart {pattern : Pattern} (h : pattern.isApart = true) {p q : Point}
    (hq : q ∈ pattern.ends p) :
    p.rest.head?.any isWordChar = false ∧ q.before.any isWordChar = false := by
  obtain ⟨hmoves, hwordless⟩ := (Bool.and_eq_true _ _).mp h
  obtain ⟨w, hw, htakes⟩ := exists_reaches_of_mem_ends hq
  have hlt := offset_lt_of_moves hmoves hq
  have hne : w ≠ [] := by
    intro hnil
    have hsame := hw.eq_nil_iff.mp hnil
    omega
  have hchars := forall_of_isWordless hwordless htakes
  refine ⟨?_, before_of_reaches hw hne hchars⟩
  obtain ⟨c, v, rfl⟩ := List.exists_cons_of_ne_nil hne
  rw [hw.rest, List.cons_append, List.head?_cons, Option.any_some]
  exact hchars c List.mem_cons_self

theorem isInsideWord_of_isApart {pattern : Pattern} (h : pattern.isApart = true) {p q : Point}
    (hq : pattern.first? p = some q) : q.isInsideWord = false :=
  Point.isInsideWord_of_before (of_mem_ends_of_isApart h (List.mem_of_mem_head? hq)).2

/-- Behind a match that ends outside words, one that takes no word character does so too. -/
theorem isInsideWord_of_isWordless {pattern : Pattern} (h : pattern.isWordless = true)
    {p q : Point} (hp : p.isInsideWord = false) (hq : pattern.first? p = some q) :
    q.isInsideWord = false := by
  obtain ⟨w, hw, htakes⟩ := exists_reaches_of_first? hq
  by_cases hnil : w = []
  · rw [hnil] at hw
    have hrest : p.rest = q.rest := hw.rest
    have hbefore : q.before = p.before := hw.before
    unfold Point.isInsideWord at hp ⊢
    rw [hbefore, ← hrest]
    exact hp
  · exact Point.isInsideWord_of_before
      (before_of_reaches hw hnil (forall_of_isWordless h htakes))

theorem isInsideWord_greedy_one {test : Char → Bool} (h : wordChars.all test = true) {p q : Point}
    (hq : (greedy (one test)).first? p = some q) : q.isInsideWord = false := by
  have hrun := first?_greedy_one (p := p) List.takeWhile_append_dropWhile.symm
    (List.all_eq_true.mp List.all_takeWhile) (any_head?_dropWhile test p.rest)
  rw [hq, Option.some.injEq] at hrun
  rw [hrun]
  apply Point.isInsideWord_of_rest
  rw [Point.rest_behind]
  have hstop := any_head?_dropWhile test p.rest
  cases hhead : (p.rest.dropWhile test).head? with
  | none => rfl
  | some c =>
    rw [hhead] at hstop
    rw [Option.any_some, Bool.eq_false_iff]
    intro hword
    have htest := List.all_eq_true.mp h c (mem_wordChars hword)
    rw [Option.any_some, htest] at hstop
    cases hstop

theorem isInsideWord_of_isTidy {pattern : Pattern} (h : pattern.isTidy = true) {p q : Point}
    (hq : pattern.first? p = some q) : q.isInsideWord = false := by
  induction pattern generalizing p q with
  | boundary =>
    rw [first?_boundary] at hq
    split at hq
    · rename_i hboundary
      obtain rfl := Option.some.inj hq
      exact Point.isInsideWord_of_isWordBoundary hboundary
    · cases hq
  | ahead body _ =>
    rw [first?_ahead] at hq
    split at hq
    · rename_i hbody
      obtain rfl := Option.some.inj hq
      obtain ⟨r, hr⟩ := Option.isSome_iff_exists.mp hbody
      have hapart := of_mem_ends_of_isApart h (List.mem_of_mem_head? hr)
      exact Point.isInsideWord_of_rest hapart.1
    · cases hq
  | greedy body _ =>
    cases body with
    | one test => exact isInsideWord_greedy_one h hq
    | _ => exact isInsideWord_of_isApart h hq
  | seq first second ih₁ ih₂ =>
    simp only [isTidy, Bool.or_eq_true, Bool.and_eq_true] at h
    rcases h with (hsecond | ⟨⟨hfirst, hsucceeds⟩, hwordless⟩) | hapart
    · rw [first?_seq] at hq
      obtain ⟨r, _, hr⟩ := List.exists_of_findSome?_eq_some hq
      exact ih₂ hsecond hr
    · -- the second pattern matches behind the preferred match of the first
      rw [first?_seq] at hq
      cases hends : first.ends p with
      | nil =>
        rw [hends] at hq
        cases hq
      | cons r others =>
        have hr : first.first? p = some r := by
          unfold first?
          rw [hends]
          rfl
        obtain ⟨q', hq'⟩ :=
          Option.ne_none_iff_exists'.mp (first?_ne_none_of_succeeds hsucceeds r)
        rw [hends, List.findSome?_cons, hq'] at hq
        obtain rfl : q' = q := Option.some.inj hq
        exact isInsideWord_of_isWordless hwordless (ih₁ hfirst hr) hq'
    · exact isInsideWord_of_isApart hapart hq
  | orElse first second ih₁ ih₂ =>
    obtain ⟨hfirst, hsecond⟩ := (Bool.and_eq_true _ _).mp h
    rw [first?_orElse, Option.or_eq_some_iff] at hq
    rcases hq with hq | ⟨_, hq⟩
    · exact ih₁ hfirst hq
    · exact ih₂ hsecond hq
  | empty | fail | one _ | reluctant _ _ | notAhead _ _ => exact isInsideWord_of_isApart h hq

end Pattern

/-- Whether no piece of the preferred match ends inside a word. Between two pieces, one of them has
no word characters. -/
def piecesTidy : List Piece → Bool
  | [] => true
  | [piece] => piece.pattern.isTidy
  | piece :: next :: more =>
    (piece.pattern.isApart || next.pattern.isApart) && piecesTidy (next :: more)

theorem piecesTidy_rules (mode : Mode) : ∀ rule ∈ mode.rules, piecesTidy rule.pieces = true := by
  cases mode <;> decide +kernel

theorem isInsideWord_of_head?_cutsOf {pieces : List Piece} (h : piecesTidy pieces = true)
    {p : Point} {cuts : List Point} (hcuts : (cutsOf pieces p).head? = some cuts) :
    ∀ q ∈ cuts, q.isInsideWord = false := by
  induction pieces generalizing p cuts with
  | nil =>
    obtain rfl : [] = cuts := Option.some.inj hcuts
    intro q hq
    cases hq
  | cons piece pieces ih =>
    cases pieces with
    | nil =>
      rw [head?_cutsOf_singleton] at hcuts
      obtain ⟨r, hr, rfl⟩ := Option.map_eq_some_iff.mp hcuts
      intro q hq
      rw [List.mem_singleton.mp hq]
      exact Pattern.isInsideWord_of_isTidy h hr
    | cons next more =>
      obtain ⟨hapart, hmore⟩ := (Bool.and_eq_true _ _).mp h
      rw [cutsOf, List.head?_flatMap] at hcuts
      obtain ⟨r, hr, hlater⟩ := List.exists_of_findSome?_eq_some hcuts
      rw [List.head?_map] at hlater
      obtain ⟨later, hhead, rfl⟩ := Option.map_eq_some_iff.mp hlater
      intro q hq
      rcases List.mem_cons.mp hq with rfl | hq
      · rcases (Bool.or_eq_true _ _).mp hapart with hpiece | hnext
        · exact Point.isInsideWord_of_before (Pattern.of_mem_ends_of_isApart hpiece hr).2
        · obtain ⟨r, hr, _⟩ := List.mem_flatMap.mp (List.mem_of_mem_head? hhead)
          exact Point.isInsideWord_of_rest (Pattern.of_mem_ends_of_isApart hnext hr).1
      · exact ih hmore hhead q hq

theorem Rule.head?_cutsOf_of_match? {rule : Rule} {text : List Char} {m : RuleMatch}
    (h : rule.match? text = some m) :
    m.rule = rule ∧ (cutsOf m.rule.pieces (Point.atStart text)).head? = some m.cuts := by
  unfold Rule.match? at h
  split at h
  · contradiction
  · rename_i cuts others hcuts
    dsimp only at h
    split at h
    · contradiction
    · obtain rfl := Option.some.inj h
      refine ⟨rfl, ?_⟩
      rw [hcuts]
      rfl

theorem Mode.isInsideWord_of_find? {mode : Mode} {text : List Char} {m : RuleMatch}
    (h : mode.find? text = some m) : ∀ q ∈ m.cuts, q.isInsideWord = false := by
  obtain ⟨rule, hrule, hm⟩ := List.exists_of_findSome?_eq_some h
  obtain ⟨rfl, hcuts⟩ := Rule.head?_cutsOf_of_match? hm
  exact isInsideWord_of_head?_cutsOf (piecesTidy_rules mode m.rule hrule) hcuts

end Highlighter
