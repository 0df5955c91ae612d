import Highlighter.Pattern.Lemmas

namespace Highlighter

namespace Pattern

/-- The preferred end of a match from `p`. -/
def first? (pattern : Pattern) (p : Point) : Option Point :=
  (pattern.ends p).head?

def repeat? (body : Pattern) (p : Point) : Option Point :=
  (body.first? p).filter fun q ↦ p.offset < q.offset

theorem first?_seq (first second : Pattern) (p : Point) :
    (seq first second).first? p = (first.ends p).findSome? second.first? :=
  List.head?_flatMap

theorem first?_orElse (first second : Pattern) (p : Point) :
    (orElse first second).first? p = (first.first? p).or (second.first? p) :=
  List.head?_append

theorem exists_reaches_of_first? {pattern : Pattern} {p q : Point}
    (h : pattern.first? p = some q) :
    ∃ w, p.Reaches q w ∧ ∀ c ∈ w, pattern.takes c = true :=
  exists_reaches_of_mem_ends (List.mem_of_mem_head? h)

theorem length_rest_of_repeat? {body : Pattern} {p q : Point} (h : body.repeat? p = some q) :
    q.rest.length < p.rest.length := by
  obtain ⟨hfirst, hlt⟩ := Option.filter_eq_some_iff.mp h
  obtain ⟨w, hw, _⟩ := exists_reaches_of_first? hfirst
  have hne : w ≠ [] := by
    intro hnil
    have := hw.eq_nil_iff.mp hnil
    simp only [decide_eq_true_eq] at hlt
    omega
  have := List.length_pos_iff.mpr hne
  rw [hw.rest, List.length_append]
  omega

theorem runs_append (step : Point → Option Point) (budget : List Char) (p : Point)
    (reached : List Point) : runs step budget p reached = runs step budget p [] ++ reached := by
  induction budget generalizing p reached with
  | nil => rfl
  | cons c budget ih =>
    unfold runs
    split
    · rfl
    · split
      · rw [ih _ (p :: reached), ih _ [p], List.append_assoc]
        rfl
      · rfl

theorem runs_of_repeat? {body : Pattern} {p q : Point} (h : body.repeat? p = some q) (c : Char)
    (budget : List Char) (reached : List Point) :
    runs body.first? (c :: budget) p reached = runs body.first? budget q (p :: reached) := by
  obtain ⟨hfirst, hlt⟩ := Option.filter_eq_some_iff.mp h
  rw [runs, hfirst]
  exact if_pos (of_decide_eq_true hlt)

theorem runs_of_repeat?_eq_none {body : Pattern} {p : Point} (h : body.repeat? p = none)
    (budget : List Char) (reached : List Point) :
    runs body.first? budget p reached = p :: reached := by
  cases budget with
  | nil => rfl
  | cons c budget =>
    rw [runs]
    split
    · rfl
    · rename_i q hq
      rw [repeat?, hq, Option.filter_some] at h
      split at h
      · contradiction
      · rename_i hlt
        exact if_neg (by simpa only [decide_eq_true_eq] using hlt)

theorem runs_budget (body : Pattern) {budget budget' : List Char} {p : Point}
    (h : p.rest.length ≤ budget.length) (h' : p.rest.length ≤ budget'.length)
    (reached : List Point) :
    runs body.first? budget p reached = runs body.first? budget' p reached := by
  induction budget generalizing budget' p reached with
  | nil =>
    have hnone : body.repeat? p = none := by
      rw [Option.eq_none_iff_forall_ne_some]
      intro q hq
      have := length_rest_of_repeat? hq
      rw [List.length_nil] at h
      omega
    rw [runs_of_repeat?_eq_none hnone, runs_of_repeat?_eq_none hnone]
  | cons c budget ih =>
    cases hq : body.repeat? p with
    | none => rw [runs_of_repeat?_eq_none hq, runs_of_repeat?_eq_none hq]
    | some q =>
      have hlt := length_rest_of_repeat? hq
      rw [List.length_cons] at h
      cases budget' with
      | nil =>
        rw [List.length_nil] at h'
        omega
      | cons c' budget' =>
        rw [List.length_cons] at h'
        rw [runs_of_repeat? hq, runs_of_repeat? hq]
        exact ih (by omega) (by omega) _

theorem ends_greedy_of_none {body : Pattern} {p : Point} (h : body.repeat? p = none) :
    (greedy body).ends p = [p] :=
  runs_of_repeat?_eq_none h p.rest []

theorem ends_greedy_of_some {body : Pattern} {p q : Point} (h : body.repeat? p = some q) :
    (greedy body).ends p = (greedy body).ends q ++ [p] := by
  have hlt := length_rest_of_repeat? h
  change runs body.first? p.rest p [] = runs body.first? q.rest q [] ++ [p]
  cases hp : p.rest with
  | nil => simp [hp] at hlt
  | cons c rest =>
    rw [hp, List.length_cons] at hlt
    rw [runs_of_repeat? h, runs_append]
    congr 1
    exact runs_budget body (by omega) (Nat.le_refl _) []

theorem ends_reluctant (body : Pattern) (p : Point) :
    (reluctant body).ends p = ((greedy body).ends p).reverse :=
  rfl

/-- A greedy repetition would rather go on. -/
theorem first?_seq_greedy (body next : Pattern) (p : Point) :
    (seq (greedy body) next).first? p =
      ((body.repeat? p).bind (seq (greedy body) next).first?).or (next.first? p) := by
  rw [first?_seq]
  cases h : body.repeat? p with
  | none => simp [ends_greedy_of_none h]
  | some q =>
    rw [ends_greedy_of_some h, List.findSome?_append, ← first?_seq]
    simp

/-- A reluctant repetition would rather stop. -/
theorem first?_seq_reluctant (body next : Pattern) (p : Point) :
    (seq (reluctant body) next).first? p =
      (next.first? p).or ((body.repeat? p).bind (seq (reluctant body) next).first?) := by
  rw [first?_seq, ends_reluctant]
  cases h : body.repeat? p with
  | none => simp [ends_greedy_of_none h]
  | some q =>
    rw [ends_greedy_of_some h, List.reverse_append, List.findSome?_append, ← ends_reluctant,
      ← first?_seq]
    simp

end Pattern

end Highlighter
