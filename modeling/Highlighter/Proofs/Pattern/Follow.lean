import Mathlib.Logic.Basic
import Highlighter.Proofs.Pattern.Start
import Highlighter.Proofs.Pattern.Word

namespace Highlighter

open Grammar

def marksMacro (rest : List Char) : Bool :=
  rest.head? == some '!' && rest.tail.head? != some '='

def opensCall (rest : List Char) : Bool :=
  (rest.dropWhile isGap).head? == some '('

def qualifiedName (rest : List Char) : List Char :=
  (rest.drop 2).takeWhile isWordChar

namespace Naming

def admits : Naming → List Char → Bool
  | snake, n => n.head?.any isLowerStart
  | upperSnake, n => n.head?.any isUpperStart && n.all fun c ↦ isUpperStart c || c.isDigit

def category : Naming → Category
  | snake => .functionReference
  | upperSnake => .constantReference

def pattern : Naming → Pattern
  | snake => .all [.one isLowerStart, wordTail]
  | upperSnake =>
    .all [.one isUpperStart, .greedy (.one fun c ↦ isUpperStart c || c.isDigit), .boundary]

end Naming

theorem isWordChar_of_isLowerStart {c : Char} (h : isLowerStart c = true) :
    isWordChar c = true := by
  change (((c.isUpper || c.isLower) || c.isDigit) || c == '_') = true
  rcases (Bool.or_eq_true _ _).mp h with h | h
  · simp [h]
  · simp [h]

theorem isWordChar_of_isUpperStart {c : Char} (h : isUpperStart c = true) :
    isWordChar c = true := by
  change (((c.isUpper || c.isLower) || c.isDigit) || c == '_') = true
  rcases (Bool.or_eq_true _ _).mp h with h | h
  · simp [h]
  · simp [h]

theorem isWordChar_of_isUpperStart_or_isDigit {c : Char}
    (h : (isUpperStart c || c.isDigit) = true) : isWordChar c = true := by
  rcases Bool.or_eq_true _ _ ▸ h with h | h
  · exact isWordChar_of_isUpperStart h
  · simp only [isWordChar, Char.isAlphanum, Bool.or_eq_true]
    exact .inl (.inr h)

theorem ne_of_isWordChar {c d : Char} (hc : isWordChar c = true) (hd : isWordChar d = false) :
    c ≠ d := by
  rintro rfl
  rw [hc] at hd
  cases hd

namespace Pattern

variable {w rest : List Char}

/-- A pattern that refuses word characters matches nowhere inside a word. -/
theorem first?_inside_of_refuses (h : IsWord w rest) {next : Pattern}
    (hnext : ∀ c, isWordChar c = true → next.refuses c = true) {v u : List Char}
    (hvu : w = v ++ u) (hu : u ≠ []) (p : Point) :
    next.first? (p.behind v (u ++ rest)) = none := by
  obtain ⟨c, more, rfl, hc⟩ := h.exists_cons hvu hu
  exact first?_of_refuses (hnext c hc) rfl

theorem isSome_first?_one (test : Char → Bool) (p : Point) :
    ((one test).first? p).isSome = p.rest.head?.any test := by
  cases hrest : p.rest with
  | nil =>
    rw [first?_one, Point.advance?_of_neg (by rw [hrest]; rfl)]
    rfl
  | cons c more =>
    rw [first?_one_of_cons hrest]
    cases hc : test c <;> simp [hc]

theorem first?_macroMark (p : Point) :
    (seq (char '!') (notAhead (char '='))).first? p =
      if marksMacro p.rest then some (p.behind ['!'] p.rest.tail) else none := by
  unfold marksMacro
  rw [char, first?_seq_one]
  cases hrest : p.rest with
  | nil =>
    rw [Point.advance?_of_neg (by rw [hrest]; rfl)]
    rfl
  | cons c more =>
    by_cases hc : c = '!'
    · rw [Point.advance?_of_pos hrest (by rw [hc]; rfl), Option.bind_some, first?_notAhead, char,
        isSome_first?_one, Point.rest_behind, hc]
      cases more with
      | nil => rfl
      | cons d more => by_cases hd : d = '=' <;> simp [hd]
    · rw [Point.advance?_of_neg (by rw [hrest]; simpa using hc)]
      simp [hc]

theorem first?_macro (h : IsWord w rest) :
    (all [boundary, one isLowerStart, wordTail, char '!', notAhead (char '=')]).first?
        (Point.atStart (w ++ rest)) =
      if w.head?.any isLowerStart ∧ marksMacro rest then
        some ((Point.atStart (w ++ rest)).behind (w ++ ['!']) rest.tail) else none := by
  have hrefuses : ∀ c, isWordChar c = true →
      (seq (char '!') (notAhead (char '='))).refuses c = true := by
    intro c hc
    have hne := ne_of_isWordChar (d := '!') hc (by decide)
    simp [refuses, idle, char, hne]
  have hstarted := first?_startedWord h isLowerStart fun v u hvu _ hu ↦
    first?_inside_of_refuses h hrefuses hvu hu _
  refine hstarted.trans ?_
  rw [first?_macroMark, Point.rest_behind, Point.behind_behind, ite_and]

theorem first?_wholeWord (h : IsWord w rest) (test : Char → Bool) :
    (all [boundary, one test, wordTail, boundary]).first? (Point.atStart (w ++ rest)) =
      if w.head?.any test then some ((Point.atStart (w ++ rest)).behind w rest) else none := by
  have hinside : ∀ v u, w = v ++ u → v ≠ [] → u ≠ [] →
      boundary.first? ((Point.atStart (w ++ rest)).behind v (u ++ rest)) = none := by
    intro v u hvu hv hu
    rw [first?_boundary, h.isWordBoundary_inside hvu hv hu, if_neg Bool.false_ne_true]
  refine (first?_startedWord h test hinside).trans ?_
  rw [first?_boundary, h.isWordBoundary_behind, if_pos rfl]

theorem first?_openCall (p : Point) :
    (ahead (all [greedy (one isGap), char '('])).first? p =
      if opensCall p.rest then some p else none := by
  have hgaps : ∀ c ∈ p.rest.takeWhile isGap, isGap c = true :=
    List.all_eq_true.mp List.all_takeWhile
  have hstop := any_head?_dropWhile isGap p.rest
  have hinside : ∀ v u, p.rest.takeWhile isGap = v ++ u → u ≠ [] →
      (char '(').first? (p.behind v (u ++ p.rest.dropWhile isGap)) = none := by
    intro v u hvu hu
    cases u with
    | nil => exact absurd rfl hu
    | cons c u =>
      have hc : isGap c = true := by
        refine hgaps c ?_
        rw [hvu]
        exact List.mem_append_right v List.mem_cons_self
      have hne : c ≠ '(' := by
        rintro rfl
        revert hc
        decide
      exact first?_of_refuses (c := c) (by simp [refuses, char, hne]) rfl
  have hbody : (all [greedy (one isGap), char '(']).first? p =
      (char '(').first? (p.behind (p.rest.takeWhile isGap) (p.rest.dropWhile isGap)) :=
    first?_seq_greedy_one List.takeWhile_append_dropWhile.symm hgaps hstop fun _ ↦ hinside
  rw [first?_ahead, hbody, char, isSome_first?_one, Point.rest_behind]
  unfold opensCall
  cases (p.rest.dropWhile isGap).head? <;> simp

theorem first?_call (h : IsWord w rest) :
    (all [boundary, one isLowerStart, wordTail, ahead (all [greedy (one isGap), char '('])]).first?
        (Point.atStart (w ++ rest)) =
      if w.head?.any isLowerStart ∧ opensCall rest then
        some ((Point.atStart (w ++ rest)).behind w rest) else none := by
  have hinside : ∀ v u, w = v ++ u → v ≠ [] → u ≠ [] →
      (ahead (all [greedy (one isGap), char '('])).first?
        ((Point.atStart (w ++ rest)).behind v (u ++ rest)) = none := by
    intro v u hvu _ hu
    obtain ⟨c, more, rfl, hc⟩ := h.exists_cons hvu hu
    have hgap : isGap c = false := by
      simp [isGap, ne_of_isWordChar (d := ' ') hc (by decide),
        ne_of_isWordChar (d := '\t') hc (by decide)]
    rw [first?_openCall, if_neg]
    simp [opensCall, hgap, ne_of_isWordChar (d := '(') hc (by decide)]
  refine (first?_startedWord h isLowerStart hinside).trans ?_
  rw [first?_openCall, Point.rest_behind, ite_and]

theorem first?_gaps (p : Point) :
    (greedy1 (one isGap)).first? p =
      if p.rest.head?.any isGap then
        some (p.behind (p.rest.takeWhile isGap) (p.rest.dropWhile isGap)) else none := by
  cases hrest : p.rest with
  | nil =>
    rw [greedy1, first?_seq_one, Point.advance?_of_neg (by rw [hrest]; rfl)]
    rfl
  | cons c more =>
    by_cases hc : isGap c = true
    · have hrun := first?_greedy_one (p := p.behind [c] more)
        List.takeWhile_append_dropWhile.symm (List.all_eq_true.mp List.all_takeWhile)
        (any_head?_dropWhile isGap more)
      rw [greedy1, first?_seq_one, Point.advance?_of_pos hrest hc, Option.bind_some, hrun,
        Point.behind_behind, List.takeWhile_cons_of_pos hc, List.dropWhile_cons_of_pos hc]
      exact (if_pos hc).symm
    · rw [greedy1, first?_seq_one, Point.advance?_of_neg (by rw [hrest]; simpa using hc)]
      exact (if_neg hc).symm

theorem first?_name (naming : Naming) {p : Point} {n more : List Char} (hrest : p.rest = n ++ more)
    (hn : ∀ c ∈ n, isWordChar c = true) (hstop : more.head?.any isWordChar = false) :
    naming.pattern.first? p = if naming.admits n then some (p.behind n more) else none := by
  cases n with
  | nil =>
    have hnone : (Naming.admits naming []) = false := by cases naming <;> rfl
    rw [hnone]
    cases naming with
    | snake => exact first?_seq_one_run (fun _ ↦ isWordChar_of_isLowerStart) hrest hstop
    | upperSnake => exact first?_seq_one_run (fun _ ↦ isWordChar_of_isUpperStart) hrest hstop
  | cons c n =>
    have hc := hn c List.mem_cons_self
    have hn' : ∀ d ∈ n, isWordChar d = true := fun d hd ↦ hn d (List.mem_cons_of_mem c hd)
    cases naming with
    | snake =>
      have hrun : wordTail.first? (p.behind [c] (n ++ more)) = some (p.behind (c :: n) more) := by
        rw [wordTail, first?_greedy_one rfl hn' hstop, Point.behind_behind]
        rfl
      refine (first?_seq_one_run (fun _ ↦ isWordChar_of_isLowerStart) hrest hstop).trans ?_
      rw [← hrun]
      rfl
    | upperSnake =>
      have hbefore : (p.behind [c] (n ++ more)).before.any isWordChar = true := by
        simpa [Point.behind] using hc
      have hrun : (seq (greedy (one fun c ↦ isUpperStart c || c.isDigit)) boundary).first?
          (p.behind [c] (n ++ more)) = _ :=
        first?_seq_run_boundary (fun _ ↦ isWordChar_of_isUpperStart_or_isDigit) hbefore rfl hn'
          hstop
      rw [Point.behind_behind, List.singleton_append] at hrun
      refine (first?_seq_one_run (fun _ ↦ isWordChar_of_isUpperStart) hrest hstop).trans ?_
      refine (ite_congr rfl (fun _ ↦ hrun) fun _ ↦ rfl).trans ?_
      by_cases hupper : isUpperStart c = true <;> simp [Naming.admits, hupper]

end Pattern

end Highlighter
