import Highlighter.Proofs.Scanner.Turns
import Mathlib.Data.List.Chain

namespace Highlighter

/-- The tokens cut a text that begins at byte `start` into parts, none of them empty. -/
inductive Tiles : Nat → List Char → List Token → Prop
  | nil (start : Nat) : Tiles start [] []
  | cons {t : Token} {w text : List Char} {tokens : List Token} (hne : w ≠ [])
      (hstop : t.stop = t.start + byteLength w) (h : Tiles t.stop text tokens) :
      Tiles t.start (w ++ text) (t :: tokens)

namespace Tiles

theorem append {start : Nat} {a b : List Char} {first later : List Token}
    (h : Tiles start a first) (h' : Tiles (start + byteLength a) b later) :
    Tiles start (a ++ b) (first ++ later) := by
  induction h with
  | nil start => simpa using h'
  | @cons t w text tokens hne hstop h ih =>
    rw [List.append_assoc]
    refine .cons hne hstop (ih ?_)
    rw [hstop, Nat.add_assoc, ← byteLength_append]
    exact h'

theorem one {t : Token} {w : List Char} (hne : w ≠ []) (hstop : t.stop = t.start + byteLength w) :
    Tiles t.start w [t] := by
  have h := Tiles.cons hne hstop (.nil _)
  rwa [List.append_nil] at h

theorem start_eq {start : Nat} {text : List Char} {t : Token} {tokens : List Token}
    (h : Tiles start text (t :: tokens)) : t.start = start := by
  cases h
  rfl

theorem exists_head {start : Nat} {text : List Char} {t : Token} {tokens : List Token}
    (h : Tiles start text (t :: tokens)) :
    ∃ w more, text = w ++ more ∧ w ≠ [] ∧ t.start = start ∧ t.stop = start + byteLength w ∧
      Tiles t.stop more tokens := by
  cases h with
  | cons hne hstop h => exact ⟨_, _, rfl, hne, rfl, hstop, h⟩

theorem eq_nil_iff {start : Nat} {text : List Char} {tokens : List Token}
    (h : Tiles start text tokens) : tokens = [] ↔ text = [] := by
  cases h with
  | nil => simp
  | cons hne _ _ => simp [hne]

theorem length_le {start : Nat} {text : List Char} {tokens : List Token}
    (h : Tiles start text tokens) : tokens.length ≤ text.length := by
  induction h with
  | nil => exact Nat.le_refl _
  | @cons t w text tokens hne hstop h ih =>
    have := List.length_pos_iff.mpr hne
    rw [List.length_cons, List.length_append]
    omega

theorem getLast_stop {start : Nat} {text : List Char} {tokens : List Token}
    (h : Tiles start text tokens) {t : Token} (ht : tokens.getLast? = some t) :
    t.stop = start + byteLength text := by
  induction h with
  | nil => simp at ht
  | @cons t' w text tokens hne hstop h ih =>
    rw [byteLength_append, ← Nat.add_assoc, ← hstop]
    cases tokens with
    | nil =>
      obtain rfl : t' = t := by simpa using ht
      rw [h.eq_nil_iff.mp rfl]
      rfl
    | cons u tokens =>
      rw [List.getLast?_cons_cons] at ht
      exact ih ht

theorem isChain {start : Nat} {text : List Char} {tokens : List Token}
    (h : Tiles start text tokens) : tokens.IsChain (fun t u ↦ t.stop = u.start) := by
  induction h with
  | nil => exact .nil
  | @cons t w text tokens hne hstop h ih =>
    cases tokens with
    | nil => exact .singleton t
    | cons u tokens => exact .cons_cons h.start_eq.symm ih

theorem exists_part {start : Nat} {text : List Char} {tokens : List Token}
    (h : Tiles start text tokens) {t : Token} (ht : t ∈ tokens) :
    ∃ before part after, text = before ++ part ++ after ∧ part ≠ [] ∧
      t.start = start + byteLength before ∧ t.stop = t.start + byteLength part := by
  induction h with
  | nil => cases ht
  | @cons t' w text tokens hne hstop h ih =>
    rcases List.mem_cons.mp ht with rfl | ht
    · exact ⟨[], w, text, rfl, hne, rfl, hstop⟩
    · obtain ⟨before, part, after, htext, hpart, hstart, hstop'⟩ := ih ht
      refine ⟨w ++ before, part, after, ?_, hpart, ?_, hstop'⟩
      · simp only [htext, List.append_assoc]
      · rw [hstart, hstop, byteLength_append, Nat.add_assoc]

theorem start_le {start : Nat} {text : List Char} {tokens : List Token}
    (h : Tiles start text tokens) {t : Token} (ht : t ∈ tokens) : start ≤ t.start := by
  obtain ⟨before, _, _, _, _, hstart, _⟩ := h.exists_part ht
  omega

theorem stop_le {start : Nat} {text : List Char} {tokens : List Token}
    (h : Tiles start text tokens) {t : Token} (ht : t ∈ tokens) :
    t.stop ≤ start + byteLength text := by
  obtain ⟨before, part, after, rfl, _, hstart, hstop⟩ := h.exists_part ht
  simp only [byteLength_append]
  omega

theorem pairwise_start_le {start : Nat} {text : List Char} {tokens : List Token}
    (h : Tiles start text tokens) : tokens.Pairwise fun t u ↦ t.start ≤ u.start := by
  induction h with
  | nil => exact .nil
  | @cons t w text tokens hne hstop h ih =>
    refine .cons (fun u hu ↦ ?_) ih
    have := h.start_le hu
    omega

end Tiles

theorem tiles_spanTokens {p q : Point} {v : List Char} (h : p.Reaches q v) (mode : Mode)
    (base : Nat) (category : Category) :
    Tiles (base + p.offset) v (RuleMatch.spanTokens mode base p.offset q.offset category) := by
  have hoffset := h.offset
  unfold RuleMatch.spanTokens
  split
  · refine Tiles.one (t := ⟨base + p.offset, base + q.offset, category, mode⟩) ?_ ?_
    · intro hnil
      have := h.eq_nil_iff.mp hnil
      omega
    · simp only
      omega
  · have hnil : v = [] := h.eq_nil_iff.mpr (by omega)
    rw [hnil]
    exact .nil _

theorem tiles_pieceTokens {pieces : List Piece} {p : Point} {cuts : List Point} (mode : Mode)
    (base : Nat) (h : cuts ∈ cutsOf pieces p) :
    ∃ w, p.Reaches (cuts.getLast?.getD p) w ∧ Tiles (base + p.offset) w
      (RuleMatch.pieceTokens mode base p.offset (pieces.zip cuts)) := by
  induction pieces generalizing p cuts with
  | nil =>
    obtain rfl := List.mem_singleton.mp h
    exact ⟨[], .refl p, .nil _⟩
  | cons piece pieces ih =>
    obtain ⟨q, cuts, v, _, hv, hcuts, rfl⟩ := exists_of_mem_cutsOf_cons h
    obtain ⟨w, hw, htiles⟩ := ih hcuts
    rw [getLast?_cons_getD]
    refine ⟨v ++ w, hv.trans hw, (tiles_spanTokens hv mode base piece.category).append ?_⟩
    rw [Nat.add_assoc, ← hv.offset]
    exact htiles

namespace Scanner

theorem tiles_step {s : Scanner} (hrest : s.rest ≠ []) :
    ∃ w, s.rest = w ++ s.step.2.rest ∧ s.step.2.offset = s.offset + byteLength w ∧
      Tiles s.offset w s.step.1 := by
  cases hm : s.settled.mode.find? s.rest with
  | some m =>
    have hcuts := Mode.cuts_find? hm
    obtain ⟨w, hw, htiles⟩ := tiles_pieceTokens s.settled.mode s.offset hcuts
    rw [step_of_find?_eq_some hrest hm, RuleMatch.tokens_eq_pieceTokens hcuts]
    refine ⟨w, hw.rest, ?_, htiles⟩
    have hoffset := hw.offset
    simp only [Point.atStart, Nat.zero_add] at hoffset
    exact congrArg (s.offset + ·) hoffset
  | none =>
    obtain ⟨c, cs, hcons⟩ := List.exists_cons_of_ne_nil hrest
    rw [step_of_find?_eq_none hcons hm]
    refine ⟨[c], hcons, by simp, ?_⟩
    exact Tiles.one (t := ⟨s.offset, s.offset + c.utf8Size, .plainText, s.settled.mode⟩)
      (List.cons_ne_nil c []) (by simp)

theorem step_tokens_ne_nil {s : Scanner} (hrest : s.rest ≠ []) : s.step.1 ≠ [] := by
  obtain ⟨w, hw, _, htiles⟩ := tiles_step hrest
  have hlt := length_rest_step s hrest
  intro hnil
  rw [htiles.eq_nil_iff.mp hnil, List.nil_append] at hw
  have hlength := congrArg List.length hw
  omega

theorem Emits.tiles {s s' : Scanner} {tokens : List Token} (h : s.Emits tokens s') :
    ∃ w, s.rest = w ++ s'.rest ∧ s'.offset = s.offset + byteLength w ∧
      Tiles s.offset w tokens := by
  induction h with
  | refl s => exact ⟨[], rfl, rfl, .nil _⟩
  | @step s s' tokens hrest h ih =>
    obtain ⟨v, hv, hoffset, hfirst⟩ := tiles_step hrest
    obtain ⟨w, hw, hoffset', hlater⟩ := ih
    refine ⟨v ++ w, ?_, ?_, ?_⟩
    · rw [hv, hw, List.append_assoc]
    · rw [hoffset', hoffset, byteLength_append, Nat.add_assoc]
    · rw [hoffset] at hlater
      exact hfirst.append hlater

theorem Emits.stop_le {s s' : Scanner} {tokens : List Token} (h : s.Emits tokens s') {t : Token}
    (ht : t ∈ tokens) : t.stop ≤ s'.offset := by
  obtain ⟨w, _, hoffset, htiles⟩ := h.tiles
  rw [hoffset]
  exact htiles.stop_le ht

theorem Emits.start_le {s s' : Scanner} {tokens : List Token} (h : s.Emits tokens s') {t : Token}
    (ht : t ∈ tokens) : s.offset ≤ t.start := by
  obtain ⟨w, _, _, htiles⟩ := h.tiles
  exact htiles.start_le ht

end Scanner

theorem tiles_classifyFrom (state : ScanState) (text : List Char) :
    Tiles 0 text (classifyFrom state text).1 := by
  obtain ⟨w, hw, _, htiles⟩ := (Scanner.ofText text state).emits_run.tiles
  rw [Scanner.run_ofText] at hw htiles
  rw [List.append_nil] at hw
  obtain rfl : text = w := hw
  exact htiles

/-- The tokens cut the text at character boundaries into parts that follow one another from its
first byte to its last. -/
structure Partition (text : List Char) (tokens : List Token) : Prop where
  eq_nil_iff : tokens = [] ↔ text = []
  head_start : ∀ t, tokens.head? = some t → t.start = 0
  stop_eq_start : tokens.IsChain fun t u ↦ t.stop = u.start
  last_stop : ∀ t, tokens.getLast? = some t → t.stop = byteLength text
  start_lt_stop : ∀ t ∈ tokens, t.start < t.stop
  isBoundary : ∀ t ∈ tokens, isBoundary t.start text ∧ isBoundary t.stop text
  length_le : tokens.length ≤ text.length
  exists_text : ∀ t ∈ tokens, ∃ before after, text = before ++ t.text text ++ after ∧
    byteLength before = t.start ∧ byteLength (t.text text) = t.length

theorem Tiles.partition {text : List Char} {tokens : List Token} (h : Tiles 0 text tokens) :
    Partition text tokens where
  eq_nil_iff := h.eq_nil_iff
  head_start t ht := by
    cases tokens with
    | nil => simp at ht
    | cons u tokens =>
      obtain rfl : u = t := by simpa using ht
      exact h.start_eq
  stop_eq_start := h.isChain
  last_stop t ht := by
    rw [h.getLast_stop ht, Nat.zero_add]
  start_lt_stop t ht := by
    obtain ⟨before, part, after, _, hpart, _, hstop⟩ := h.exists_part ht
    have := mt byteLength_eq_zero.mp hpart
    omega
  isBoundary t ht := by
    obtain ⟨before, part, after, htext, _, hstart, hstop⟩ := h.exists_part ht
    rw [Nat.zero_add] at hstart
    constructor
    · rw [hstart, htext, List.append_assoc]
      exact isBoundary_append before _
    · rw [hstop, hstart, ← byteLength_append, htext]
      exact isBoundary_append _ after
  length_le := h.length_le
  exists_text t ht := by
    obtain ⟨before, part, after, htext, _, hstart, hstop⟩ := h.exists_part ht
    rw [Nat.zero_add] at hstart
    have hslice : t.text text = part := by
      rw [Token.text, hstop, hstart, htext]
      exact slice_append before part after
    refine ⟨before, after, ?_, hstart.symm, ?_⟩
    · rw [hslice, htext]
    · rw [hslice, Token.length, hstop, Nat.add_sub_cancel_left]

/-- However the scanning loop turns, it ends within two passes for each character. It comes to the
end of the text with the tokens and the state of `classifyFrom`, and these tokens partition the
text. -/
theorem classifyFrom_partition (state : ScanState) (text : List Char) :
    (∀ n tokens s, Scanner.Turns n (Scanner.ofText text state) tokens s →
      n ≤ 2 * text.length) ∧
    (∃ n, Scanner.Turns n (Scanner.ofText text state) (classifyFrom state text).1
      ⟨(classifyFrom state text).2, byteLength text, []⟩) ∧
    Partition text (classifyFrom state text).1 := by
  refine ⟨?_, ?_, (tiles_classifyFrom state text).partition⟩
  · intro n tokens s h
    have hweight := h.add_weight_le
    have hle : (Scanner.ofText text state).weight ≤ 2 * text.length := Scanner.weight_le _
    omega
  · have hemits := (Scanner.ofText text state).emits_run
    rw [Scanner.run_ofText] at hemits
    exact hemits.exists_turns

end Highlighter
