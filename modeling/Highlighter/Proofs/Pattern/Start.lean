import Highlighter.Grammar
import Highlighter.Proofs.Pattern.Repetition

namespace Highlighter

namespace Pattern

def idle : Pattern → Bool
  | empty | boundary | ahead _ | notAhead _ => true
  | _ => false

/-- Whether no match begins with the character. -/
def refuses (c : Char) : Pattern → Bool
  | fail => true
  | one test => !test c
  | seq first second => first.refuses c || (first.idle && second.refuses c)
  | orElse first second => first.refuses c && second.refuses c
  | _ => false

theorem eq_of_mem_ends_of_idle {pattern : Pattern} (hidle : pattern.idle = true) {p q : Point}
    (hq : q ∈ pattern.ends p) : q = p := by
  cases pattern with
  | empty => exact List.mem_singleton.mp hq
  | boundary =>
    unfold ends at hq
    split at hq
    · exact List.mem_singleton.mp hq
    · cases hq
  | ahead body =>
    unfold ends at hq
    split at hq
    · cases hq
    · exact List.mem_singleton.mp hq
  | notAhead body =>
    unfold ends at hq
    split at hq
    · exact List.mem_singleton.mp hq
    · cases hq
  | _ => cases hidle

theorem ends_of_refuses {pattern : Pattern} {c : Char} (h : pattern.refuses c = true) {p : Point}
    (hp : p.rest.head? = some c) : pattern.ends p = [] := by
  induction pattern generalizing p with
  | fail => rfl
  | one test =>
    obtain ⟨before, rest, offset⟩ := p
    cases rest with
    | nil => cases hp
    | cons d rest =>
      obtain rfl : d = c := by simpa using hp
      simp only [refuses, Bool.not_eq_true'] at h
      simp [ends, Point.advance?, h]
  | seq first second ih₁ ih₂ =>
    simp only [refuses, Bool.or_eq_true, Bool.and_eq_true] at h
    rcases h with h | ⟨hidle, h⟩
    · simp [ends, ih₁ h hp]
    · rw [ends, List.flatMap_eq_nil_iff]
      intro q hq
      rw [eq_of_mem_ends_of_idle hidle hq]
      exact ih₂ h hp
  | orElse first second ih₁ ih₂ =>
    simp only [refuses, Bool.and_eq_true] at h
    rw [ends, ih₁ h.1 hp, ih₂ h.2 hp]
    rfl
  | empty | greedy _ _ | reluctant _ _ | boundary | ahead _ _ | notAhead _ _ => cases h

theorem first?_of_refuses {pattern : Pattern} {c : Char} (h : pattern.refuses c = true) {p : Point}
    (hp : p.rest.head? = some c) : pattern.first? p = none := by
  unfold first?
  rw [ends_of_refuses h hp]
  rfl

end Pattern

def Rule.refuses (c : Char) (rule : Rule) : Bool :=
  rule.pieces.head?.any (·.pattern.refuses c)

theorem Rule.match?_of_refuses {rule : Rule} {c : Char} (h : rule.refuses c = true)
    (text : List Char) : rule.match? (c :: text) = none := by
  obtain ⟨name, pieces, transition⟩ := rule
  cases pieces with
  | nil => cases h
  | cons piece pieces =>
    have hnone : cutsOf (piece :: pieces) (Point.atStart (c :: text)) = [] := by
      rw [cutsOf, Pattern.ends_of_refuses h rfl]
      rfl
    unfold match?
    rw [hnone]

theorem findSome?_of_refuses {rules : List Rule} {c : Char}
    (h : rules.all (·.refuses c) = true) (text : List Char) :
    rules.findSome? (·.match? (c :: text)) = none := by
  rw [List.findSome?_eq_none_iff]
  intro rule hrule
  exact rule.match?_of_refuses (List.all_eq_true.mp h rule hrule) text

end Highlighter
