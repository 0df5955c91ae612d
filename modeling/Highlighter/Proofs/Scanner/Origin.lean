import Highlighter.Proofs.Scanner.Comment

namespace Highlighter

structure Token.Spans (t : Token) (base : Nat) (v w : List Char) : Prop where
  start : t.start = base + byteLength v
  stop : t.stop = t.start + byteLength w

theorem Token.text_of_spans {t : Token} {v w : List Char} (h : t.Spans 0 v w) (u : List Char) :
    t.text (v ++ w ++ u) = w := by
  rw [Token.text, h.stop, h.start, Nat.zero_add]
  exact slice_append v w u

theorem Tiles.exists_around {start : Nat} {before after : List Char} {c : Char}
    {tokens : List Token} (h : Tiles start (before ++ c :: after) tokens) :
    ∃ t ∈ tokens, ∃ v u w rest, before = v ++ u ∧ after = w ++ rest ∧
      t.Spans start v (u ++ c :: w) := by
  generalize htext : before ++ c :: after = text at h
  induction h generalizing before with
  | nil start => simp at htext
  | @cons t part text tokens hne hstop h ih =>
    rcases List.append_eq_append_iff.mp htext with ⟨u, hpart, hafter⟩ | ⟨u, hbefore, htext⟩
    · -- the part goes on behind `before`, or ends with it
      cases u with
      | nil =>
        rw [List.append_nil] at hpart
        obtain ⟨t', ht', v, u, w, rest, hv, hrest, hspans⟩ := @ih [] hafter
        refine ⟨t', List.mem_cons_of_mem t ht', part ++ v, u, w, rest, ?_, hrest, ?_, hspans.stop⟩
        · rw [List.append_assoc, ← hv, List.append_nil, hpart]
        · rw [hspans.start, hstop, byteLength_append, Nat.add_assoc]
      | cons d u =>
        obtain ⟨rfl, rfl⟩ : c = d ∧ after = u ++ text := List.cons.inj hafter
        refine ⟨t, List.mem_cons_self, [], before, u, text, rfl, rfl, rfl, ?_⟩
        rw [hstop, hpart]
    · obtain ⟨t', ht', v, u, w, rest, hv, hrest, hspans⟩ := ih htext.symm
      refine ⟨t', List.mem_cons_of_mem t ht', part ++ v, u, w, rest, ?_, hrest, ?_, hspans.stop⟩
      · rw [hbefore, hv, List.append_assoc]
      · rw [hspans.start, hstop, byteLength_append, Nat.add_assoc]

/-- How a token of a mode comes by its category and its text. -/
inductive Lexed : Mode → Category → List Char → Prop
  | piece {mode : Mode} {rule : Rule} {piece : Piece} {p q : Point} {w : List Char}
      (hrule : rule ∈ mode.rules) (hpiece : piece ∈ rule.pieces) (hends : q ∈ piece.pattern.ends p)
      (hw : p.Reaches q w) : Lexed mode piece.category w
  | plain {c : Char} {cs : List Char} (h : Mode.start.find? (c :: cs) = none) :
      Lexed .start .plainText [c]

namespace Scanner

variable {s s' : Scanner} {tokens : List Token} {t : Token}

theorem lexed_step (hrest : s.rest ≠ []) (ht : t ∈ s.step.1) :
    ∃ v w u, s.rest = v ++ w ++ u ∧ t.Spans s.offset v w ∧ Lexed t.mode t.category w := by
  cases hm : s.settled.mode.find? s.rest with
  | some m =>
    rw [step_of_find?_eq_some hrest hm] at ht
    obtain ⟨piece, hpiece, q, r, v, w, htook⟩ :=
      RuleMatch.exists_tookToken (Mode.cuts_find? hm) ht
    have htext : s.rest = v ++ q.rest := htook.before.rest
    have hlexed := Lexed.piece (Mode.finish_find? hm).1 hpiece htook.ends htook.text
    rw [htook.eq]
    refine ⟨v, w, r.rest, ?_, ⟨?_, ?_⟩, hlexed⟩
    · rw [htext, htook.text.rest, List.append_assoc]
    · rw [htook.before.offset_atStart]
    · rw [htook.text.offset, Nat.add_assoc]
  | none =>
    obtain ⟨c, cs, hcons⟩ := List.exists_cons_of_ne_nil hrest
    have hmode := settled_mode_of_find?_eq_none hrest hm
    rw [step_of_find?_eq_none hcons hm] at ht
    obtain rfl := List.mem_singleton.mp ht
    rw [hmode, hcons] at hm
    refine ⟨[], [c], cs, hcons, ⟨rfl, by simp⟩, ?_⟩
    rw [hmode]
    exact .plain hm

theorem Emits.lexed (h : s.Emits tokens s') (ht : t ∈ tokens) :
    ∃ v w u, s.rest = v ++ w ++ u ∧ t.Spans s.offset v w ∧ Lexed t.mode t.category w := by
  induction h with
  | refl s => cases ht
  | @step s s' tokens hrest h ih =>
    rcases List.mem_append.mp ht with ht | ht
    · exact lexed_step hrest ht
    · obtain ⟨x, _, hx, hoffset⟩ := exists_step s hrest
      obtain ⟨v, w, u, hsplit, hspans, hlexed⟩ := ih ht
      refine ⟨x ++ v, w, u, ?_, ⟨?_, hspans.stop⟩, hlexed⟩
      · rw [hx, hsplit]
        simp only [List.append_assoc]
      · rw [hspans.start, hoffset, byteLength_append, Nat.add_assoc]

section Place

variable {text : List Char} {state : ScanState}

theorem Emits.exists_before (h : (ofText text state).Emits tokens s) :
    ∃ v, text = v ++ s.rest ∧ s.offset = byteLength v := by
  obtain ⟨v, hv, hoffset⟩ := h.exists_text
  exact ⟨v, hv, hoffset.trans (Nat.zero_add _)⟩

theorem Emits.dropBytes_eq (h : (ofText text state).Emits tokens s) :
    dropBytes s.offset text = s.rest := by
  obtain ⟨v, hv, hoffset⟩ := h.exists_before
  rw [hv, hoffset, dropBytes_append]

theorem Emits.exists_next {later : List Token} (h : (ofText text state).Emits tokens s)
    (hnext : s.Emits (t :: later) s') :
    ∃ more, s.rest = t.text text ++ (more ++ s'.rest) ∧ t.text text ≠ [] ∧ t.start = s.offset ∧
      t.stop = s.offset + byteLength (t.text text) ∧ Tiles t.stop more later := by
  obtain ⟨v, hv, hoffset⟩ := h.exists_before
  obtain ⟨w, hw, _, htiles⟩ := hnext.tiles
  obtain ⟨part, more, rfl, hne, hstart, hstop, hlater⟩ := htiles.exists_head
  have hspans : t.Spans 0 v part :=
    ⟨by rw [hstart, hoffset, Nat.zero_add], by rw [hstop, hstart]⟩
  have htext : t.text text = part := by
    rw [hv, hw, List.append_assoc, ← List.append_assoc]
    exact Token.text_of_spans hspans _
  rw [htext]
  exact ⟨more, by rw [hw, List.append_assoc], hne, hstart, hstop, hlater⟩

end Place

end Scanner

theorem lexed_of_mem_classifyFrom {state : ScanState} {text : List Char} {t : Token}
    (ht : t ∈ (classifyFrom state text).1) :
    ∃ v w u, text = v ++ w ++ u ∧ t.Spans 0 v w ∧ Lexed t.mode t.category w := by
  have hemits := (Scanner.ofText text state).emits_run
  rw [Scanner.run_ofText] at hemits
  exact hemits.lexed ht

/-- A token around a character is a piece that takes the character, or the character alone. -/
theorem exists_lexed_around (state : ScanState) (before after : List Char) (c : Char) :
    ∃ t ∈ (classifyFrom state (before ++ c :: after)).1, ∃ v u w rest,
      before = v ++ u ∧ after = w ++ rest ∧ t.Spans 0 v (u ++ c :: w) ∧
      Lexed t.mode t.category (u ++ c :: w) := by
  obtain ⟨t, ht, v, u, w, rest, hbefore, hafter, hspans⟩ :=
    (tiles_classifyFrom state (before ++ c :: after)).exists_around
  refine ⟨t, ht, v, u, w, rest, hbefore, hafter, hspans, ?_⟩
  obtain ⟨v', w', u', htext, hspans', hlexed⟩ := lexed_of_mem_classifyFrom ht
  have hwhole : before ++ c :: after = v ++ (u ++ c :: w) ++ rest := by
    rw [hbefore, hafter]
    simp only [List.append_assoc, List.cons_append]
  have hsame : u ++ c :: w = w' := by
    rw [← Token.text_of_spans hspans rest, ← hwhole, htext]
    exact Token.text_of_spans hspans' u'
  rw [hsame]
  exact hlexed

end Highlighter
