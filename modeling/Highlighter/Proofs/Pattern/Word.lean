import Highlighter.Grammar
import Highlighter.Proofs.Pattern.Place

namespace Highlighter

/-- `w` is a word, and the text after it does not go on with a word character. -/
structure IsWord (w rest : List Char) : Prop where
  ne_nil : w ≠ []
  chars : ∀ c ∈ w, isWordChar c = true
  stop : rest.head?.any isWordChar = false

theorem isWord_takeWhile {c : Char} (hc : isWordChar c = true) (cs : List Char) :
    IsWord ((c :: cs).takeWhile isWordChar) ((c :: cs).dropWhile isWordChar) := by
  refine ⟨?_, List.all_eq_true.mp List.all_takeWhile, any_head?_dropWhile isWordChar _⟩
  rw [List.takeWhile_cons_of_pos hc]
  exact List.cons_ne_nil _ _

namespace Point

theorem isWordBoundary_of_before {p : Point} (h : p.before.any isWordChar = true) :
    p.isWordBoundary = !p.rest.head?.any isWordChar := by
  unfold isWordBoundary
  rw [h, Bool.true_bne]

theorem before_behind {p : Point} {w : List Char} (hw : ∀ c ∈ w, isWordChar c = true)
    (h : w ≠ [] ∨ p.before.any isWordChar = true) (rest : List Char) :
    (p.behind w rest).before.any isWordChar = true := by
  unfold behind
  cases hlast : w.getLast? with
  | none =>
    rw [List.getLast?_eq_none_iff] at hlast
    exact h.resolve_left (not_not_intro hlast)
  | some c => exact hw c (List.mem_of_getLast? hlast)

theorem isWordBoundary_inside {p : Point} {v u : List Char}
    (hbefore : v ≠ [] ∨ p.before.any isWordChar = true)
    (hword : ∀ c ∈ v ++ u, isWordChar c = true) (hu : u ≠ []) (more : List Char) :
    (p.behind v (u ++ more)).isWordBoundary = false := by
  have hv : ∀ c ∈ v, isWordChar c = true := fun c hc ↦ hword c (List.mem_append_left u hc)
  rw [isWordBoundary_of_before (before_behind hv hbefore _), rest_behind]
  cases u with
  | nil => exact absurd rfl hu
  | cons c u =>
    have hc := hword c (List.mem_append_right v List.mem_cons_self)
    simp [hc]

end Point

namespace IsWord

variable {w rest : List Char}

theorem exists_cons (h : IsWord w rest) {v u : List Char} (hvu : w = v ++ u) (hu : u ≠ []) :
    ∃ c more, u = c :: more ∧ isWordChar c = true := by
  obtain ⟨c, more, rfl⟩ := List.exists_cons_of_ne_nil hu
  refine ⟨c, more, rfl, h.chars c ?_⟩
  rw [hvu]
  exact List.mem_append_right v List.mem_cons_self

theorem head_isWordChar (h : IsWord w rest) : w.head?.any isWordChar = true := by
  cases w with
  | nil => exact absurd rfl h.ne_nil
  | cons c w => exact h.chars c List.mem_cons_self

theorem isWordBoundary_atStart (h : IsWord w rest) :
    (Point.atStart (w ++ rest)).isWordBoundary = true := by
  have hhead := h.head_isWordChar
  cases w with
  | nil => exact absurd rfl h.ne_nil
  | cons c w =>
    simp only [List.head?_cons, Option.any_some] at hhead
    simp [Point.atStart, Point.isWordBoundary, hhead]

theorem isWordBoundary_behind (h : IsWord w rest) (p : Point) :
    (p.behind w rest).isWordBoundary = true := by
  rw [Point.isWordBoundary_of_before (Point.before_behind h.chars (.inl h.ne_nil) rest),
    Point.rest_behind, h.stop]
  rfl

theorem isWordBoundary_inside (h : IsWord w rest) {v u : List Char} (hvu : w = v ++ u)
    (hv : v ≠ []) (hu : u ≠ []) (p : Point) :
    (p.behind v (u ++ rest)).isWordBoundary = false :=
  Point.isWordBoundary_inside (.inl hv) (hvu ▸ h.chars) hu rest

theorem prefix_of_prefix_append (h : IsWord w rest) {v : List Char}
    (hv : v.all isWordChar = true) (hfront : v <+: w ++ rest) : v <+: w := by
  rcases List.prefix_or_prefix_of_prefix hfront (List.prefix_append w rest) with hvw | hwv
  · exact hvw
  · obtain ⟨u, rfl⟩ := hwv
    have hu : u <+: rest := (List.prefix_append_right_inj w).mp hfront
    cases u with
    | nil => exact ⟨[], by rw [List.append_nil, List.append_nil]⟩
    | cons c u =>
      obtain ⟨more, rfl⟩ := hu
      have hstop := h.stop
      have hc := List.all_eq_true.mp hv c (List.mem_append_right w List.mem_cons_self)
      simp [hc] at hstop

end IsWord

namespace Pattern

open Grammar

variable {w rest : List Char}

theorem first?_literal_boundary (h : IsWord w rest) {v : String} (hne : v.toList ≠ [])
    (hv : v.toList.all isWordChar = true) :
    (seq (literal v) boundary).first? (Point.atStart (w ++ rest)) =
      if v.toList = w then some ((Point.atStart (w ++ rest)).behind w rest) else none := by
  by_cases hfront : v.toList <+: w ++ rest
  · obtain ⟨u, hu⟩ := h.prefix_of_prefix_append hv hfront
    have hrest : (Point.atStart (w ++ rest)).rest = v.toList ++ (u ++ rest) := by
      rw [← List.append_assoc, hu]
      rfl
    rw [first?_seq_literal hrest, first?_boundary]
    by_cases hnil : u = []
    · have hvw : v.toList = w := by rw [← hu, hnil, List.append_nil]
      rw [hnil, List.nil_append, hvw, h.isWordBoundary_behind, if_pos rfl, if_pos rfl]
    · rw [h.isWordBoundary_inside hu.symm hne hnil, if_neg Bool.false_ne_true, if_neg]
      intro hvw
      rw [hvw] at hu
      exact hnil (List.append_right_eq_self.mp hu)
  · rw [first?_seq_literal_eq_none hfront, if_neg]
    rintro rfl
    exact hfront (List.prefix_append _ rest)

/-- A pattern for known words matches a word exactly where it lists the word. -/
theorem first?_knownWord (h : IsWord w rest) {words : List String}
    (hwords : ∀ v ∈ words, v.toList ≠ [] ∧ v.toList.all isWordChar = true) :
    (knownWord words).first? (Point.atStart (w ++ rest)) =
      if String.ofList w ∈ words then some ((Point.atStart (w ++ rest)).behind w rest)
      else none := by
  change (seq boundary (seq (anyWord words) boundary)).first? _ = _
  rw [first?_seq_boundary, h.isWordBoundary_atStart, if_pos rfl, first?_seq_anyWord]
  induction words with
  | nil => rfl
  | cons v words ih =>
    obtain ⟨hne, hv⟩ := hwords v List.mem_cons_self
    rw [List.findSome?_cons, first?_literal_boundary h hne hv,
      ih fun v hv ↦ hwords v (List.mem_cons_of_mem _ hv)]
    by_cases hvw : v.toList = w
    · have hmem : String.ofList w ∈ v :: words := by
        rw [← hvw, String.ofList_toList]
        exact List.mem_cons_self
      rw [if_pos hvw, if_pos hmem]
    · have hiff : String.ofList w ∈ v :: words ↔ String.ofList w ∈ words := by
        rw [List.mem_cons, or_iff_right]
        rintro rfl
        exact hvw String.toList_ofList
      rw [if_neg hvw]
      simp only [hiff]

/-- A pattern for words that start in some way takes the whole word, where what follows matches
nowhere inside the word. -/
theorem first?_startedWord (h : IsWord w rest) (test : Char → Bool) {next : Pattern}
    (hinside : ∀ v u, w = v ++ u → v ≠ [] → u ≠ [] →
      next.first? ((Point.atStart (w ++ rest)).behind v (u ++ rest)) = none) :
    (seq boundary (seq (one test) (seq wordTail next))).first? (Point.atStart (w ++ rest)) =
      if w.head?.any test then next.first? ((Point.atStart (w ++ rest)).behind w rest)
      else none := by
  rw [first?_seq_boundary, h.isWordBoundary_atStart, if_pos rfl, first?_seq_one]
  cases w with
  | nil => exact absurd rfl h.ne_nil
  | cons c w =>
    by_cases hc : test c = true
    · have hmove : (Point.atStart (c :: w ++ rest)).advance? test =
          some ((Point.atStart (c :: w ++ rest)).behind [c] (w ++ rest)) :=
        Point.advance?_of_pos rfl hc
      have htail : (seq (greedy (one isWordChar)) next).first?
          ((Point.atStart (c :: w ++ rest)).behind [c] (w ++ rest)) = _ := first?_seq_greedy_one rfl
        (fun d hd ↦ h.chars d (List.mem_cons_of_mem c hd)) h.stop
        (fun _ v u hvu hu ↦ by
          rw [Point.behind_behind]
          exact hinside (c :: v) u (by rw [hvu]; rfl) (List.cons_ne_nil c v) hu)
      rw [Point.behind_behind, List.singleton_append] at htail
      rw [hmove, Option.bind_some]
      exact htail.trans (if_pos (by simpa using hc)).symm
    · rw [Point.advance?_of_neg (by simpa [Point.atStart] using hc), Option.bind_none, if_neg]
      simpa using hc

theorem first?_boundary_inside {p : Point} (hbefore : p.before.any isWordChar = true)
    {v u : List Char} (hword : ∀ c ∈ v ++ u, isWordChar c = true) (hu : u ≠ [])
    (more : List Char) : boundary.first? (p.behind v (u ++ more)) = none := by
  have hnone := Point.isWordBoundary_inside (.inr hbefore) hword hu more
  rw [first?_boundary, hnone, if_neg Bool.false_ne_true]

/-- A run of some word characters that must end the word takes what is left of the word, if that
has no other characters. -/
theorem first?_seq_run_boundary {test : Char → Bool}
    (htest : ∀ c, test c = true → isWordChar c = true) {p : Point} {n more : List Char}
    (hbefore : p.before.any isWordChar = true) (hrest : p.rest = n ++ more)
    (hn : ∀ c ∈ n, isWordChar c = true) (hstop : more.head?.any isWordChar = false) :
    (seq (greedy (one test)) boundary).first? p =
      if n.all test then some (p.behind n more) else none := by
  by_cases hall : n.all test = true
  · have hstop' : more.head?.any test = false := by
      cases more with
      | nil => rfl
      | cons c more =>
        simp only [List.head?_cons, Option.any_some] at hstop ⊢
        exact Bool.eq_false_iff.mpr fun hc ↦ Bool.eq_false_iff.mp hstop (htest c hc)
    have hinside : ∀ v u, n = v ++ u → u ≠ [] →
        boundary.first? (p.behind v (u ++ more)) = none := by
      rintro v u rfl hu
      exact first?_boundary_inside hbefore hn hu more
    rw [first?_seq_greedy_one hrest (List.all_eq_true.mp hall) hstop' fun _ ↦ hinside,
      first?_boundary, Point.isWordBoundary_of_before (Point.before_behind hn (.inr hbefore) more),
      Point.rest_behind, hstop, if_pos hall]
    rfl
  · -- the run stops at a word character it does not take
    obtain ⟨d, u, hdrop⟩ : ∃ d u, n.dropWhile test = d :: u := by
      refine List.exists_cons_of_ne_nil fun hnil ↦ hall ?_
      rw [← List.takeWhile_append_dropWhile (p := test) (l := n), hnil, List.append_nil]
      exact List.all_takeWhile
    have hd : test d = false := by
      have hhead := List.head?_dropWhile_not test n
      rw [hdrop] at hhead
      simpa using hhead
    have hsplit : n.takeWhile test ++ d :: u = n := by
      rw [← hdrop]
      exact List.takeWhile_append_dropWhile
    have hrun : ∀ c ∈ n.takeWhile test, test c = true := List.all_eq_true.mp List.all_takeWhile
    have hinside : ∀ v u', n.takeWhile test = v ++ u' → u' ≠ [] →
        boundary.first? (p.behind v (u' ++ (d :: u ++ more))) = none := by
      intro v u' hvu hu'
      rw [← List.append_assoc]
      refine first?_boundary_inside hbefore ?_ (by simp) more
      rw [← List.append_assoc, ← hvu, hsplit]
      exact hn
    have hrest' : p.rest = n.takeWhile test ++ (d :: u ++ more) := by
      rw [← List.append_assoc, hsplit, hrest]
    rw [first?_seq_greedy_one hrest' hrun (by simpa using hd) fun _ ↦ hinside, if_neg hall]
    exact first?_boundary_inside hbefore (by rw [hsplit]; exact hn) (List.cons_ne_nil d u) more

theorem first?_one_of_cons {test : Char → Bool} {p : Point} {c : Char} {rest : List Char}
    (hrest : p.rest = c :: rest) :
    (one test).first? p = if test c then some (p.behind [c] rest) else none := by
  rw [first?_one]
  by_cases hc : test c = true
  · rw [if_pos hc]
    exact Point.advance?_of_pos hrest hc
  · rw [if_neg hc]
    exact Point.advance?_of_neg (by rw [hrest]; simpa using hc)

/-- One character of some kind and then what can follow in the word, up to the end of the word. -/
theorem first?_seq_one_run {first : Char → Bool} {next : Pattern} {p : Point} {n more : List Char}
    (hfirst : ∀ c, first c = true → isWordChar c = true) (hrest : p.rest = n ++ more)
    (hstop : more.head?.any isWordChar = false) :
    (seq (one first) next).first? p =
      if n.head?.any first then next.first? (p.behind (n.take 1) (n.tail ++ more)) else none := by
  rw [first?_seq_one]
  cases n with
  | nil =>
    have hnone : p.rest.head?.any first = false := by
      rw [hrest, List.nil_append]
      cases more with
      | nil => rfl
      | cons c more =>
        simp only [List.head?_cons, Option.any_some] at hstop ⊢
        exact Bool.eq_false_iff.mpr fun hc ↦ Bool.eq_false_iff.mp hstop (hfirst c hc)
    rw [Point.advance?_of_neg hnone]
    rfl
  | cons c n =>
    by_cases hc : first c = true
    · rw [Point.advance?_of_pos hrest hc]
      exact (if_pos hc).symm
    · rw [Point.advance?_of_neg (by rw [hrest]; simpa using hc)]
      exact (if_neg hc).symm

end Pattern

end Highlighter
