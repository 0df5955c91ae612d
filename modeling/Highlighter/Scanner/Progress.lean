import Highlighter.Pattern.Lemmas
import Highlighter.Scanner

namespace Highlighter

theorem exists_of_mem_cutsOf_cons {piece : Piece} {pieces : List Piece} {p : Point}
    {cuts : List Point} (h : cuts ∈ cutsOf (piece :: pieces) p) :
    ∃ q later v, q ∈ piece.pattern.ends p ∧ p.Reaches q v ∧ later ∈ cutsOf pieces q ∧
      cuts = q :: later := by
  obtain ⟨q, hq, h⟩ := List.mem_flatMap.mp h
  obtain ⟨later, hlater, rfl⟩ := List.mem_map.mp h
  obtain ⟨v, hv, _⟩ := Pattern.exists_reaches_of_mem_ends hq
  exact ⟨q, later, v, hq, hv, hlater, rfl⟩

theorem getLast?_cons_getD (p q : Point) (cuts : List Point) :
    (q :: cuts).getLast?.getD p = cuts.getLast?.getD q := by
  rw [List.getLast?_cons, Option.getD_some]

theorem reaches_of_mem_cutsOf {pieces : List Piece} {p : Point} {cuts : List Point}
    (h : cuts ∈ cutsOf pieces p) : ∃ w, p.Reaches (cuts.getLast?.getD p) w := by
  induction pieces generalizing p cuts with
  | nil =>
    obtain rfl := List.mem_singleton.mp h
    exact ⟨[], .refl p⟩
  | cons piece pieces ih =>
    obtain ⟨q, cuts, v, _, hv, hcuts, rfl⟩ := exists_of_mem_cutsOf_cons h
    obtain ⟨w, hw⟩ := ih hcuts
    rw [getLast?_cons_getD]
    exact ⟨v ++ w, hv.trans hw⟩

namespace RuleMatch

def pieceTokens (mode : Mode) (base : Nat) : Nat → List (Piece × Point) → List Token
  | _, [] => []
  | done, (piece, cut) :: more =>
    spanTokens mode base done cut.offset piece.category ++ pieceTokens mode base cut.offset more

theorem mem_spanTokens {mode : Mode} {base start stop : Nat} {category : Category} {t : Token} :
    t ∈ spanTokens mode base start stop category ↔
      start < stop ∧ t = ⟨base + start, base + stop, category, mode⟩ := by
  unfold spanTokens
  split
  next hlt => simp only [List.mem_singleton, hlt, true_and]
  next hlt => simp only [List.not_mem_nil, hlt, false_and]

@[simp]
theorem spanTokens_self (mode : Mode) (base n : Nat) (category : Category) :
    spanTokens mode base n n category = [] :=
  if_neg (Nat.lt_irrefl n)

/-- The groups of a match tile it, so that no plain text is left before, between or behind them. -/
theorem groupTokens_groupsOf {pieces : List Piece} {p : Point} {cuts : List Point} (mode : Mode)
    (base : Nat) (h : cuts ∈ cutsOf pieces p) :
    groupTokens mode base (cuts.getLast?.getD p).offset p.offset
        (groupsOf p.offset (pieces.zip cuts)) =
      pieceTokens mode base p.offset (pieces.zip cuts) := by
  induction pieces generalizing p cuts with
  | nil =>
    obtain rfl := List.mem_singleton.mp h
    exact spanTokens_self mode base p.offset .plainText
  | cons piece pieces ih =>
    obtain ⟨q, cuts, v, _, hv, hcuts, rfl⟩ := exists_of_mem_cutsOf_cons h
    rw [List.zip_cons_cons, groupsOf, groupTokens, pieceTokens, getLast?_cons_getD,
      spanTokens_self, List.nil_append, Nat.max_eq_right hv.offset_le, ih hcuts]

theorem tokens_eq_pieceTokens {m : RuleMatch} {text : List Char}
    (h : m.cuts ∈ cutsOf m.rule.pieces (Point.atStart text)) (mode : Mode) (base : Nat) :
    m.tokens mode base = pieceTokens mode base 0 (m.rule.pieces.zip m.cuts) := by
  have hlength : m.length = (m.cuts.getLast?.getD (Point.atStart text)).offset :=
    Option.getD_map Point.offset (Point.atStart text) m.cuts.getLast?
  rw [tokens, hlength]
  exact groupTokens_groupsOf mode base h

/-- The piece took the text `w` of the token, from `q` to the cut `r`. The match began at `p`, and
`v` is what the pieces before took. -/
structure TookToken (cuts : List Point) (p : Point) (mode : Mode) (base : Nat) (piece : Piece)
    (q r : Point) (v w : List Char) (t : Token) : Prop where
  start : v = [] ∧ q = p ∨ q ∈ cuts
  stop : r ∈ cuts
  before : p.Reaches q v
  text : q.Reaches r w
  ne_nil : w ≠ []
  ends : r ∈ piece.pattern.ends q
  eq : t = ⟨base + q.offset, base + r.offset, piece.category, mode⟩

theorem exists_tookToken_of_mem_pieceTokens {mode : Mode} {base : Nat} {pieces : List Piece}
    {p : Point} {cuts : List Point} (h : cuts ∈ cutsOf pieces p) {t : Token}
    (ht : t ∈ pieceTokens mode base p.offset (pieces.zip cuts)) :
    ∃ piece ∈ pieces, ∃ q r v w, TookToken cuts p mode base piece q r v w t := by
  induction pieces generalizing p cuts with
  | nil => cases ht
  | cons piece pieces ih =>
    obtain ⟨q, cuts, v, hq, hv, hcuts, rfl⟩ := exists_of_mem_cutsOf_cons h
    rw [List.zip_cons_cons, pieceTokens] at ht
    rcases List.mem_append.mp ht with ht | ht
    · obtain ⟨hlt, rfl⟩ := mem_spanTokens.mp ht
      have hne : v ≠ [] := by
        intro hnil
        have hsame := hv.eq_nil_iff.mp hnil
        omega
      exact ⟨piece, List.mem_cons_self, p, q, [], v, .inl ⟨rfl, rfl⟩, List.mem_cons_self, .refl p,
        hv, hne, hq, rfl⟩
    · obtain ⟨piece', hpiece', q', r, v', w, htook⟩ := ih hcuts ht
      have hstart : q' ∈ q :: cuts := by
        rcases htook.start with ⟨_, rfl⟩ | hmem
        · exact List.mem_cons_self
        · exact List.mem_cons_of_mem q hmem
      exact ⟨piece', List.mem_cons_of_mem piece hpiece', q', r, v ++ v', w, .inr hstart,
        List.mem_cons_of_mem q htook.stop, hv.trans htook.before, htook.text, htook.ne_nil,
        htook.ends, htook.eq⟩

/-- Every token of a match is the text that one of the pieces took. -/
theorem exists_tookToken {m : RuleMatch} {text : List Char}
    (h : m.cuts ∈ cutsOf m.rule.pieces (Point.atStart text)) {mode : Mode} {base : Nat} {t : Token}
    (ht : t ∈ m.tokens mode base) :
    ∃ piece ∈ m.rule.pieces, ∃ q r v w,
      TookToken m.cuts (.atStart text) mode base piece q r v w t := by
  rw [m.tokens_eq_pieceTokens h] at ht
  exact exists_tookToken_of_mem_pieceTokens h ht

theorem mode_of_mem_tokens {m : RuleMatch} {text : List Char}
    (h : m.cuts ∈ cutsOf m.rule.pieces (Point.atStart text)) {mode : Mode} {base : Nat} {t : Token}
    (ht : t ∈ m.tokens mode base) : t.mode = mode := by
  obtain ⟨_, _, _, _, _, _, htook⟩ := exists_tookToken h ht
  rw [htook.eq]

theorem category_of_mem_tokens {m : RuleMatch} {text : List Char}
    (h : m.cuts ∈ cutsOf m.rule.pieces (Point.atStart text)) {mode : Mode} {base : Nat} {t : Token}
    (ht : t ∈ m.tokens mode base) : ∃ piece ∈ m.rule.pieces, t.category = piece.category := by
  obtain ⟨piece, hpiece, _, _, _, _, htook⟩ := exists_tookToken h ht
  exact ⟨piece, hpiece, congrArg Token.category htook.eq⟩

end RuleMatch

theorem Rule.mem_cutsOf_of_match? {rule : Rule} {text : List Char} {m : RuleMatch}
    (h : rule.match? text = some m) :
    m.rule = rule ∧ m.cuts ∈ cutsOf m.rule.pieces (Point.atStart text) ∧
      (m.finish text).offset ≠ 0 := by
  unfold Rule.match? at h
  split at h
  · contradiction
  · rename_i cuts others hcuts
    dsimp only at h
    split at h
    · contradiction
    · rename_i hne
      obtain rfl := Option.some.inj h
      refine ⟨rfl, ?_, hne⟩
      rw [hcuts]
      exact List.mem_cons_self

theorem Rule.finish_match? {rule : Rule} {text : List Char} {m : RuleMatch}
    (h : rule.match? text = some m) :
    m.rule = rule ∧ ∃ w, w ≠ [] ∧ (Point.atStart text).Reaches (m.finish text) w := by
  obtain ⟨hrule, hcuts, hne⟩ := Rule.mem_cutsOf_of_match? h
  obtain ⟨w, hw⟩ := reaches_of_mem_cutsOf hcuts
  refine ⟨hrule, w, ?_, hw⟩
  intro hnil
  exact hne (hw.eq_nil_iff.mp hnil)

theorem Mode.finish_find? {mode : Mode} {text : List Char} {m : RuleMatch}
    (h : mode.find? text = some m) :
    m.rule ∈ mode.rules ∧ ∃ w, w ≠ [] ∧ (Point.atStart text).Reaches (m.finish text) w := by
  obtain ⟨rule, hrule, hm⟩ := List.exists_of_findSome?_eq_some h
  obtain ⟨rfl, hw⟩ := Rule.finish_match? hm
  exact ⟨hrule, hw⟩

theorem Mode.cuts_find? {mode : Mode} {text : List Char} {m : RuleMatch}
    (h : mode.find? text = some m) : m.cuts ∈ cutsOf m.rule.pieces (Point.atStart text) := by
  obtain ⟨rule, hrule, hm⟩ := List.exists_of_findSome?_eq_some h
  exact (Rule.mem_cutsOf_of_match? hm).2.1

/-- Where the scanner settles, the match is one of the mode it settled in. -/
theorem ScanState.find?_settle (limit : Nat) (s : ScanState) (text : List Char) :
    (s.settle limit text).2 = (s.settle limit text).1.mode.find? text := by
  induction limit generalizing s with
  | zero => rfl
  | succ limit ih =>
    unfold ScanState.settle
    split
    · rename_i h
      exact h.symm
    · rename_i h
      split
      · exact h.symm
      · exact ih _

namespace Scanner

theorem exists_step (s : Scanner) (h : s.rest ≠ []) :
    ∃ w, w ≠ [] ∧ s.rest = w ++ s.step.2.rest ∧ s.step.2.offset = s.offset + byteLength w := by
  obtain ⟨state, offset, rest⟩ := s
  cases rest with
  | nil => contradiction
  | cons c cs =>
    have hfind := ScanState.find?_settle fallLimit state (c :: cs)
    unfold step
    split
    · contradiction
    · rename_i hrest
      obtain ⟨rfl, rfl⟩ := List.cons.inj hrest
      split
      · rename_i settled m hm
        simp only at hm
        rw [hm] at hfind
        obtain ⟨_, w, hw, hr⟩ := Mode.finish_find? hfind.symm
        refine ⟨w, hw, hr.rest, ?_⟩
        have := hr.offset
        simp only [Point.atStart] at this
        simp only
        omega
      · exact ⟨[c], by simp, rfl, by simp⟩

theorem length_rest_step (s : Scanner) (h : s.rest ≠ []) :
    s.step.2.rest.length < s.rest.length := by
  obtain ⟨w, hw, hr, _⟩ := exists_step s h
  have hpos := List.length_pos_iff.mpr hw
  rw [hr, List.length_append]
  omega

theorem rest_runWithin (budget : List Char) (s : Scanner) (h : s.rest.length ≤ budget.length) :
    (runWithin budget s).2.rest = [] := by
  induction budget generalizing s with
  | nil => exact List.eq_nil_of_length_eq_zero (Nat.le_zero.mp h)
  | cons c budget ih =>
    unfold runWithin
    split
    · assumption
    · rename_i hrest
      have hne : s.rest ≠ [] := by
        rw [hrest]
        exact List.cons_ne_nil _ _
      have hlt := length_rest_step s hne
      rw [List.length_cons] at h
      exact ih s.step.2 (by omega)

theorem rest_run (s : Scanner) : s.run.2.rest = [] :=
  rest_runWithin s.rest s (Nat.le_refl _)

end Scanner

end Highlighter
