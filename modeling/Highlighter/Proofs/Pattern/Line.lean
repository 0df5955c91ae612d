import Highlighter.Proofs.Pattern.Repetition
import Mathlib.Data.List.Basic

namespace Highlighter

theorem getLast?_of_append {w rest : List Char} {c : Char} (h : (w ++ rest).getLast? = some c)
    (hw : c ∉ w) : rest.getLast? = some c := by
  rw [List.getLast?_append] at h
  cases hrest : rest.getLast? with
  | none =>
    rw [hrest, Option.none_or] at h
    exact absurd (List.mem_of_getLast? h) hw
  | some d => rwa [hrest, Option.some_or] at h

namespace Point

def extend (more : List Char) (p : Point) : Point :=
  ⟨p.before, p.rest ++ more, p.offset⟩

@[simp]
theorem offset_extend (more : List Char) (p : Point) : (p.extend more).offset = p.offset := rfl

theorem advance?_extend (test : Char → Bool) (more : List Char) {p : Point} (hp : p.rest ≠ []) :
    (p.extend more).advance? test = (p.advance? test).map (extend more) := by
  obtain ⟨before, rest, offset⟩ := p
  cases rest with
  | nil => exact absurd rfl hp
  | cons c rest =>
    by_cases hc : test c = true
    · simp [advance?, extend, hc]
    · simp [advance?, extend, hc]

theorem isWordBoundary_extend (more : List Char) {p : Point} (hp : p.rest ≠ []) :
    (p.extend more).isWordBoundary = p.isWordBoundary := by
  obtain ⟨before, rest, offset⟩ := p
  cases rest with
  | nil => exact absurd rfl hp
  | cons c rest => rfl

end Point

namespace Pattern

/-- Whether a match may take the character or look for it. -/
def reads (c : Char) : Pattern → Bool
  | one test => test c
  | seq first second => first.reads c || second.reads c
  | orElse first second => first.reads c || second.reads c
  | greedy body => body.reads c
  | reluctant body => body.reads c
  | ahead body => body.reads c
  | notAhead body => body.reads c
  | empty | fail | boundary => false

/-- Whether a line feed, where a match takes one, is the last character it takes. -/
def endsLine : Pattern → Bool
  | one _ => true
  | seq first second => !first.reads '\n' && second.endsLine
  | orElse first second => first.endsLine && second.endsLine
  | pattern => !pattern.reads '\n'

theorem reads_of_takes {pattern : Pattern} {c : Char} (h : pattern.takes c = true) :
    pattern.reads c = true := by
  induction pattern with
  | one test => exact h
  | seq first second ih₁ ih₂ =>
    simp only [takes, Bool.or_eq_true] at h
    simp only [reads, Bool.or_eq_true]
    exact h.imp ih₁ ih₂
  | orElse first second ih₁ ih₂ =>
    simp only [takes, Bool.or_eq_true] at h
    simp only [reads, Bool.or_eq_true]
    exact h.imp ih₁ ih₂
  | greedy body ih => exact ih h
  | reluctant body ih => exact ih h
  | empty | fail | boundary | ahead _ | notAhead _ => cases h

theorem getLast?_rest_of_mem_ends {pattern : Pattern} (h : pattern.reads '\n' = false)
    {p q : Point} (hp : p.rest.getLast? = some '\n') (hq : q ∈ pattern.ends p) :
    q.rest.getLast? = some '\n' := by
  obtain ⟨w, hw, htakes⟩ := exists_reaches_of_mem_ends hq
  rw [hw.rest] at hp
  refine getLast?_of_append hp fun hmem ↦ ?_
  rw [reads_of_takes (htakes _ hmem)] at h
  contradiction

theorem repeat?_extend {body : Pattern} {more : List Char} {p : Point}
    (h : body.ends (p.extend more) = (body.ends p).map (·.extend more)) :
    body.repeat? (p.extend more) = (body.repeat? p).map (·.extend more) := by
  rw [repeat?, repeat?, first?, first?, h, List.head?_map, Option.filter_map]
  rfl

theorem ends_greedy_extend {body : Pattern} {more : List Char}
    (hbody : ∀ p, p.rest.getLast? = some '\n' →
      body.ends (p.extend more) = (body.ends p).map (·.extend more))
    (hreads : body.reads '\n' = false) {p : Point} (hp : p.rest.getLast? = some '\n') :
    (greedy body).ends (p.extend more) = ((greedy body).ends p).map (·.extend more) := by
  induction hn : p.rest.length using Nat.strongRecOn generalizing p with
  | _ n ih =>
    have hrepeat := repeat?_extend (hbody p hp)
    cases hq : body.repeat? p with
    | none =>
      rw [hq] at hrepeat
      rw [ends_greedy_of_none hq, ends_greedy_of_none hrepeat]
      rfl
    | some q =>
      rw [hq] at hrepeat
      have hlt := length_rest_of_repeat? hq
      have hfirst := (Option.filter_eq_some_iff.mp hq).1
      have hline := getLast?_rest_of_mem_ends hreads hp (List.mem_of_mem_head? hfirst)
      rw [ends_greedy_of_some hq, ends_greedy_of_some hrepeat, ih _ (by omega) hline rfl,
        List.map_append]
      rfl

/-- A pattern that reads no line feed decides within the line. -/
theorem ends_extend {pattern : Pattern} (hreads : pattern.reads '\n' = false) (more : List Char)
    {p : Point} (hp : p.rest.getLast? = some '\n') :
    pattern.ends (p.extend more) = (pattern.ends p).map (·.extend more) := by
  have hne {p : Point} (hp : p.rest.getLast? = some '\n') : p.rest ≠ [] := by
    intro hnil
    simp [hnil] at hp
  induction pattern generalizing p with
  | empty => rfl
  | fail => rfl
  | one test =>
    simp only [ends, Point.advance?_extend test more (hne hp)]
    cases p.advance? test <;> rfl
  | seq first second ih₁ ih₂ =>
    simp only [reads, Bool.or_eq_false_iff] at hreads
    simp only [ends, ih₁ hreads.1 hp, List.flatMap_map, List.map_flatMap]
    refine List.flatMap_congr fun q hq ↦ ?_
    exact ih₂ hreads.2 (getLast?_rest_of_mem_ends hreads.1 hp hq)
  | orElse first second ih₁ ih₂ =>
    simp only [reads, Bool.or_eq_false_iff] at hreads
    simp only [ends, ih₁ hreads.1 hp, ih₂ hreads.2 hp, List.map_append]
  | greedy body ih => exact ends_greedy_extend (fun p hp ↦ ih hreads hp) hreads hp
  | reluctant body ih =>
    rw [ends_reluctant, ends_greedy_extend (fun p hp ↦ ih hreads hp) hreads hp, ends_reluctant,
      List.map_reverse]
  | boundary =>
    simp only [ends, Point.isWordBoundary_extend more (hne hp)]
    split <;> rfl
  | ahead body ih =>
    simp only [ends, ih hreads hp, List.isEmpty_map]
    split <;> rfl
  | notAhead body ih =>
    simp only [ends, ih hreads hp, List.isEmpty_map]
    split <;> rfl

theorem ends_extend_of_endsLine {pattern : Pattern} (hline : pattern.endsLine = true)
    (more : List Char) {p : Point} (hp : p.rest.getLast? = some '\n') :
    pattern.ends (p.extend more) = (pattern.ends p).map (·.extend more) := by
  induction pattern generalizing p with
  | one test =>
    have hne : p.rest ≠ [] := by
      intro hnil
      simp [hnil] at hp
    simp only [ends, Point.advance?_extend test more hne]
    cases p.advance? test <;> rfl
  | seq first second _ ih =>
    simp only [endsLine, Bool.and_eq_true, Bool.not_eq_true'] at hline
    simp only [ends, ends_extend hline.1 more hp, List.flatMap_map, List.map_flatMap]
    refine List.flatMap_congr fun q hq ↦ ?_
    exact ih hline.2 (getLast?_rest_of_mem_ends hline.1 hp hq)
  | orElse first second ih₁ ih₂ =>
    simp only [endsLine, Bool.and_eq_true] at hline
    simp only [ends, ih₁ hline.1 hp, ih₂ hline.2 hp, List.map_append]
  | empty | fail | greedy _ _ | reluctant _ _ | boundary | ahead _ _ | notAhead _ _ =>
    simp only [endsLine, Bool.not_eq_true'] at hline
    exact ends_extend hline more hp

end Pattern

end Highlighter
