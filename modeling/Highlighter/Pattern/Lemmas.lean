import Highlighter.Pattern
import Highlighter.Text.Bytes

namespace Highlighter

/-- The text from `p` to `q` is `w`. -/
structure Point.Reaches (p q : Point) (w : List Char) : Prop where
  rest : p.rest = w ++ q.rest
  offset : q.offset = p.offset + byteLength w
  before : q.before = w.getLast?.or p.before

namespace Point.Reaches

theorem refl (p : Point) : p.Reaches p [] :=
  ⟨rfl, rfl, rfl⟩

theorem trans {p q r : Point} {v w : List Char} (h : p.Reaches q v) (k : q.Reaches r w) :
    p.Reaches r (v ++ w) := by
  refine ⟨?_, ?_, ?_⟩
  · rw [h.rest, k.rest, List.append_assoc]
  · rw [k.offset, h.offset, byteLength_append, Nat.add_assoc]
  · rw [k.before, h.before, List.getLast?_append, Option.or_assoc]

theorem offset_le {p q : Point} {w : List Char} (h : p.Reaches q w) : p.offset ≤ q.offset := by
  have := h.offset
  omega

theorem offset_atStart {text w : List Char} {q : Point} (h : (Point.atStart text).Reaches q w) :
    q.offset = byteLength w :=
  h.offset.trans (Nat.zero_add _)

theorem eq_nil_iff {p q : Point} {w : List Char} (h : p.Reaches q w) :
    w = [] ↔ q.offset = p.offset := by
  rw [← byteLength_eq_zero, h.offset]
  omega

end Point.Reaches

namespace Pattern

/-- Whether a match may take the character. What a pattern only looks at it does not take. -/
def takes (c : Char) : Pattern → Bool
  | one test => test c
  | seq first second => first.takes c || second.takes c
  | orElse first second => first.takes c || second.takes c
  | greedy body => body.takes c
  | reluctant body => body.takes c
  | empty | fail | boundary | ahead _ | notAhead _ => false

theorem reaches_of_advance? {test : Char → Bool} {p q : Point} (h : p.advance? test = some q) :
    ∃ c, test c = true ∧ p.Reaches q [c] := by
  unfold Point.advance? at h
  split at h
  · contradiction
  · rename_i c cs hp
    split at h
    · rename_i hc
      obtain rfl := Option.some.inj h
      exact ⟨c, hc, hp, rfl, rfl⟩
    · contradiction

theorem reaches_of_mem_singleton {P : Char → Prop} {p q : Point} (h : q ∈ [p]) :
    ∃ w, p.Reaches q w ∧ ∀ c ∈ w, P c := by
  rw [List.mem_singleton.mp h]
  exact ⟨[], .refl p, by simp⟩

theorem mem_runs {step : Point → Option Point} {P : Char → Prop}
    (hstep : ∀ p q, step p = some q → ∃ w, p.Reaches q w ∧ ∀ c ∈ w, P c) {budget : List Char}
    {p q : Point} {reached : List Point} (h : q ∈ runs step budget p reached) :
    q ∈ reached ∨ ∃ w, p.Reaches q w ∧ ∀ c ∈ w, P c := by
  induction budget generalizing p reached with
  | nil =>
    rcases List.mem_cons.mp h with rfl | h
    · exact .inr (reaches_of_mem_singleton List.mem_cons_self)
    · exact .inl h
  | cons c budget ih =>
    have hcons : q ∈ p :: reached → q ∈ reached ∨ ∃ w, p.Reaches q w ∧ ∀ c ∈ w, P c := by
      intro h
      rcases List.mem_cons.mp h with rfl | h
      · exact .inr (reaches_of_mem_singleton List.mem_cons_self)
      · exact .inl h
    unfold runs at h
    split at h
    · exact hcons h
    · rename_i r hr
      split at h
      · obtain ⟨v, hv, hfirst⟩ := hstep p r hr
        rcases ih h with h | ⟨w, hw, hlater⟩
        · exact hcons h
        · refine .inr ⟨v ++ w, hv.trans hw, ?_⟩
          intro c hc
          exact (List.mem_append.mp hc).elim (hfirst c) (hlater c)
      · exact hcons h

/-- A match ends behind the place where it began and takes only what the pattern takes. -/
theorem exists_reaches_of_mem_ends {pattern : Pattern} {p q : Point} (h : q ∈ pattern.ends p) :
    ∃ w, p.Reaches q w ∧ ∀ c ∈ w, pattern.takes c = true := by
  induction pattern generalizing p q with
  | empty => exact reaches_of_mem_singleton h
  | fail => cases h
  | one test =>
    obtain ⟨c, hc, hr⟩ := reaches_of_advance? (Option.mem_toList.mp h)
    refine ⟨[c], hr, ?_⟩
    intro d hd
    rw [List.mem_singleton.mp hd]
    exact hc
  | seq first second ih₁ ih₂ =>
    obtain ⟨r, hr, hq⟩ := List.mem_flatMap.mp h
    obtain ⟨v, hv, hfirst⟩ := ih₁ hr
    obtain ⟨w, hw, hsecond⟩ := ih₂ hq
    refine ⟨v ++ w, hv.trans hw, ?_⟩
    intro c hc
    rw [takes, Bool.or_eq_true]
    exact (List.mem_append.mp hc).imp (hfirst c) (hsecond c)
  | orElse first second ih₁ ih₂ =>
    simp only [takes, Bool.or_eq_true]
    rcases List.mem_append.mp h with h | h
    · obtain ⟨w, hw, htakes⟩ := ih₁ h
      exact ⟨w, hw, fun c hc ↦ .inl (htakes c hc)⟩
    · obtain ⟨w, hw, htakes⟩ := ih₂ h
      exact ⟨w, hw, fun c hc ↦ .inr (htakes c hc)⟩
  | greedy body ih =>
    rcases mem_runs (fun p q hq ↦ ih (List.mem_of_mem_head? hq)) h with h | h
    · cases h
    · exact h
  | reluctant body ih =>
    rcases mem_runs (fun p q hq ↦ ih (List.mem_of_mem_head? hq)) (List.mem_reverse.mp h) with h | h
    · cases h
    · exact h
  | boundary =>
    unfold ends at h
    split at h
    · exact reaches_of_mem_singleton h
    · cases h
  | ahead body _ =>
    unfold ends at h
    split at h
    · cases h
    · exact reaches_of_mem_singleton h
  | notAhead body _ =>
    unfold ends at h
    split at h
    · exact reaches_of_mem_singleton h
    · cases h

end Pattern

end Highlighter
