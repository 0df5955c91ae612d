import Highlighter.Proofs.Pattern.Repetition

namespace Highlighter

namespace Point

/-- The place behind `w`, where `rest` is still ahead. -/
def behind (p : Point) (w rest : List Char) : Point :=
  ⟨w.getLast?.or p.before, rest, p.offset + byteLength w⟩

@[simp]
theorem rest_behind (p : Point) (w rest : List Char) : (p.behind w rest).rest = rest := rfl

@[simp]
theorem offset_behind (p : Point) (w rest : List Char) :
    (p.behind w rest).offset = p.offset + byteLength w := rfl

@[simp]
theorem behind_nil (p : Point) : p.behind [] p.rest = p := rfl

@[simp]
theorem behind_behind (p : Point) (v w rest rest' : List Char) :
    (p.behind v rest).behind w rest' = p.behind (v ++ w) rest' := by
  unfold behind
  simp only [byteLength_append, Nat.add_assoc, List.getLast?_append, Option.or_assoc]

theorem advance?_of_pos {test : Char → Bool} {p : Point} {c : Char} {rest : List Char}
    (hrest : p.rest = c :: rest) (hc : test c = true) :
    p.advance? test = some (p.behind [c] rest) := by
  unfold advance?
  rw [hrest]
  exact if_pos hc

theorem advance?_of_neg {test : Char → Bool} {p : Point}
    (h : p.rest.head?.any test = false) : p.advance? test = none := by
  unfold advance?
  split
  · rfl
  · rename_i c cs hrest
    rw [hrest] at h
    exact if_neg (by simpa using h)

end Point

theorem any_head?_dropWhile (test : Char → Bool) (text : List Char) :
    (text.dropWhile test).head?.any test = false := by
  have hhead := List.head?_dropWhile_not test text
  cases hdrop : (text.dropWhile test).head? with
  | none => rfl
  | some c =>
    rw [hdrop] at hhead
    exact hhead

theorem takeWhile_ne_nil {α : Type} {test : α → Bool} {l : List α}
    (h : l.head?.any test = true) : l.takeWhile test ≠ [] := by
  cases l with
  | nil => cases h
  | cons a l =>
    have ha : test a = true := h
    rw [List.takeWhile_cons_of_pos ha]
    exact List.cons_ne_nil _ _

theorem takeWhile_eq_nil {α : Type} {test : α → Bool} {l : List α}
    (h : l.head?.any test = false) : l.takeWhile test = [] := by
  cases l with
  | nil => rfl
  | cons a l => exact List.takeWhile_cons_of_neg (Bool.eq_false_iff.mp h)

theorem takeWhile_append_eq {α : Type} {test : α → Bool} {w rest : List α}
    (hw : ∀ a ∈ w, test a = true) (hstop : rest.head?.any test = false) :
    (w ++ rest).takeWhile test = w := by
  rw [List.takeWhile_append_of_pos hw, takeWhile_eq_nil hstop, List.append_nil]

theorem dropWhile_append_eq {α : Type} {test : α → Bool} {w rest : List α}
    (hw : ∀ a ∈ w, test a = true) (hstop : rest.head?.any test = false) :
    (w ++ rest).dropWhile test = rest := by
  have hsplit := List.takeWhile_append_dropWhile (p := test) (l := w ++ rest)
  rw [takeWhile_append_eq hw hstop] at hsplit
  exact List.append_cancel_left hsplit

namespace Pattern

theorem first?_one (test : Char → Bool) (p : Point) : (one test).first? p = p.advance? test := by
  unfold first?
  simp [ends]

theorem repeat?_one (test : Char → Bool) (p : Point) :
    (one test).repeat? p = p.advance? test := by
  rw [repeat?, first?_one]
  cases h : p.advance? test with
  | none => rfl
  | some q =>
    obtain ⟨c, _, hreaches⟩ := reaches_of_advance? h
    have hoffset := hreaches.offset
    have hpos := c.utf8Size_pos
    rw [Option.filter_some, if_pos]
    simp only [byteLength_cons, byteLength_nil] at hoffset
    exact decide_eq_true (by omega)

theorem first?_seq_one (test : Char → Bool) (next : Pattern) (p : Point) :
    (seq (one test) next).first? p = (p.advance? test).bind next.first? := by
  rw [first?_seq, ends]
  cases p.advance? test <;> simp

theorem first?_boundary (p : Point) :
    boundary.first? p = if p.isWordBoundary then some p else none := by
  unfold first? ends
  split <;> rfl

theorem first?_seq_boundary (next : Pattern) (p : Point) :
    (seq boundary next).first? p = if p.isWordBoundary then next.first? p else none := by
  rw [first?_seq, ends]
  split <;> simp

theorem first?_ahead (body : Pattern) (p : Point) :
    (ahead body).first? p = if (body.first? p).isSome then some p else none := by
  unfold first?
  cases h : body.ends p <;> simp [ends, h]

theorem first?_notAhead (body : Pattern) (p : Point) :
    (notAhead body).first? p = if (body.first? p).isSome then none else some p := by
  unfold first?
  cases h : body.ends p <;> simp [ends, h]

/-- A greedy repetition goes to the end of the run, unless what follows matches only inside it. -/
theorem first?_seq_greedy_one {test : Char → Bool} {next : Pattern} {p : Point}
    {w rest : List Char} (hrest : p.rest = w ++ rest) (hw : ∀ c ∈ w, test c = true)
    (hstop : rest.head?.any test = false)
    (hinside : next.first? (p.behind w rest) = none →
      ∀ v u, w = v ++ u → u ≠ [] → next.first? (p.behind v (u ++ rest)) = none) :
    (seq (greedy (one test)) next).first? p = next.first? (p.behind w rest) := by
  induction w generalizing p with
  | nil =>
    rw [List.nil_append] at hrest
    rw [first?_seq_greedy, repeat?_one, Point.advance?_of_neg (by rw [hrest]; exact hstop),
      ← hrest, Point.behind_nil]
    rfl
  | cons c w ih =>
    have hmove : p.advance? test = some (p.behind [c] (w ++ rest)) :=
      Point.advance?_of_pos hrest (hw c List.mem_cons_self)
    have hlater := ih (p := p.behind [c] (w ++ rest)) rfl
      (fun d hd ↦ hw d (List.mem_cons_of_mem c hd))
      (fun hnone v u hvu hu ↦ by
        rw [Point.behind_behind] at hnone ⊢
        exact hinside hnone (c :: v) u (by rw [hvu]; rfl) hu)
    rw [Point.behind_behind, List.singleton_append] at hlater
    rw [first?_seq_greedy, repeat?_one, hmove, Option.bind_some, hlater]
    -- where the end of the run fails, stopping here has to fail as well
    cases hnone : next.first? (p.behind (c :: w) rest) with
    | some q => rfl
    | none =>
      have hhere := hinside hnone [] (c :: w) rfl (List.cons_ne_nil c w)
      rw [← hrest, Point.behind_nil] at hhere
      rw [hhere]
      rfl

theorem first?_greedy_one {test : Char → Bool} {p : Point} {w rest : List Char}
    (hrest : p.rest = w ++ rest) (hw : ∀ c ∈ w, test c = true)
    (hstop : rest.head?.any test = false) :
    (greedy (one test)).first? p = some (p.behind w rest) := by
  have h : (seq (greedy (one test)) empty).first? p = some (p.behind w rest) :=
    first?_seq_greedy_one hrest hw hstop (fun hnone ↦ nomatch hnone)
  rw [first?_seq] at h
  rw [← h]
  unfold first?
  cases (greedy (one test)).ends p <;> rfl

/-- A reluctant repetition stops at the first place where what follows matches, and there is no
match where it matches nowhere in the run. -/
theorem first?_seq_reluctant_one {test : Char → Bool} {next : Pattern} {p : Point}
    {w rest : List Char} (hrest : p.rest = w ++ rest) (hw : ∀ c ∈ w, test c = true)
    (hinside : ∀ v u, w = v ++ u → u ≠ [] → next.first? (p.behind v (u ++ rest)) = none)
    (hstop : (next.first? (p.behind w rest)).isSome ∨ rest.head?.any test = false) :
    (seq (reluctant (one test)) next).first? p = next.first? (p.behind w rest) := by
  induction w generalizing p with
  | nil =>
    rw [List.nil_append] at hrest
    rw [← hrest, Point.behind_nil] at hstop ⊢
    rw [first?_seq_reluctant, repeat?_one]
    rcases hstop with hsome | hstop
    · obtain ⟨q, hq⟩ := Option.isSome_iff_exists.mp hsome
      rw [hq, Option.some_or]
    · rw [Point.advance?_of_neg hstop, Option.bind_none, Option.or_none]
  | cons c w ih =>
    have hmove : p.advance? test = some (p.behind [c] (w ++ rest)) :=
      Point.advance?_of_pos hrest (hw c List.mem_cons_self)
    have hlater := ih (p := p.behind [c] (w ++ rest)) rfl
      (fun d hd ↦ hw d (List.mem_cons_of_mem c hd))
      (fun v u hvu hu ↦ by
        rw [Point.behind_behind]
        exact hinside (c :: v) u (by rw [hvu]; rfl) hu)
      (by rw [Point.behind_behind]; exact hstop)
    have hhere := hinside [] (c :: w) rfl (List.cons_ne_nil c w)
    rw [← hrest, Point.behind_nil] at hhere
    rw [first?_seq_reluctant, repeat?_one, hmove, Option.bind_some, hlater, hhere,
      Option.none_or, Point.behind_behind]
    rfl

theorem ends_all_cons (pattern : Pattern) (patterns : List Pattern) (p : Point) :
    (all (pattern :: patterns)).ends p = (pattern.ends p).flatMap (all patterns).ends := by
  cases patterns with
  | nil => simp [all, ends]
  | cons next patterns => rfl

theorem ends_any_cons (pattern : Pattern) (patterns : List Pattern) (p : Point) :
    (any (pattern :: patterns)).ends p = pattern.ends p ++ (any patterns).ends p := by
  cases patterns with
  | nil => simp [any, ends]
  | cons next patterns => rfl

theorem ends_all_char {p : Point} {w rest : List Char} (hrest : p.rest = w ++ rest) :
    (all (w.map char)).ends p = [p.behind w rest] := by
  induction w generalizing p with
  | nil =>
    rw [List.nil_append] at hrest
    rw [← hrest]
    rfl
  | cons c w ih =>
    have hmove : p.advance? (· == c) = some (p.behind [c] (w ++ rest)) :=
      Point.advance?_of_pos hrest (beq_self_eq_true c)
    have hlater := ih (p := p.behind [c] (w ++ rest)) rfl
    rw [Point.behind_behind] at hlater
    rw [List.map_cons, ends_all_cons]
    simp only [char, ends, hmove, Option.toList_some, List.flatMap_cons, List.flatMap_nil,
      List.append_nil]
    exact hlater

theorem prefix_of_mem_ends_all_char {p q : Point} {w : List Char}
    (h : q ∈ (all (w.map char)).ends p) : w <+: p.rest := by
  induction w generalizing p with
  | nil => exact List.nil_prefix
  | cons c w ih =>
    rw [List.map_cons, ends_all_cons] at h
    obtain ⟨r, hr, hq⟩ := List.mem_flatMap.mp h
    obtain ⟨d, hd, hreaches⟩ := reaches_of_advance? (Option.mem_toList.mp hr)
    obtain rfl : d = c := by simpa using hd
    rw [hreaches.rest, List.singleton_append]
    exact List.cons_prefix_cons.mpr ⟨rfl, ih hq⟩

theorem ends_literal {word : String} {p : Point} {rest : List Char}
    (hrest : p.rest = word.toList ++ rest) :
    (literal word).ends p = [p.behind word.toList rest] :=
  ends_all_char hrest

theorem ends_literal_eq_nil {word : String} {p : Point} (h : ¬ word.toList <+: p.rest) :
    (literal word).ends p = [] :=
  List.eq_nil_iff_forall_not_mem.mpr fun _ hq ↦ h (prefix_of_mem_ends_all_char hq)

theorem first?_seq_literal {word : String} {p : Point} {rest : List Char}
    (hrest : p.rest = word.toList ++ rest) (next : Pattern) :
    (seq (literal word) next).first? p = next.first? (p.behind word.toList rest) := by
  rw [first?_seq, ends_literal hrest]
  simp

theorem first?_seq_literal_eq_none {word : String} {p : Point}
    (h : ¬ word.toList <+: p.rest) (next : Pattern) :
    (seq (literal word) next).first? p = none := by
  rw [first?_seq, ends_literal_eq_nil h]
  rfl

theorem ends_anyWord (words : List String) (p : Point) :
    (anyWord words).ends p = words.flatMap fun word ↦ (literal word).ends p := by
  unfold anyWord
  induction words with
  | nil => rfl
  | cons word words ih => rw [List.map_cons, ends_any_cons, ih, List.flatMap_cons]

theorem first?_seq_anyWord (words : List String) (next : Pattern) (p : Point) :
    (seq (anyWord words) next).first? p =
      words.findSome? fun word ↦ (seq (literal word) next).first? p := by
  rw [first?_seq, ends_anyWord]
  simp only [first?_seq]
  induction words with
  | nil => rfl
  | cons word words ih =>
    rw [List.flatMap_cons, List.findSome?_append, ih, List.findSome?_cons]
    cases ((literal word).ends p).findSome? next.first? <;> rfl

end Pattern

end Highlighter
