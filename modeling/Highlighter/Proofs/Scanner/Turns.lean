import Highlighter.Proofs.Scanner.Steps

namespace Highlighter

namespace Scanner

/-- One pass of the loop where some text is left: the first rule that matches is taken, or else the
mode falls through, or else one character is plain text. -/
inductive Turn : Scanner → List Token → Scanner → Prop
  | take {s : Scanner} {m : RuleMatch} (hrest : s.rest ≠ [])
      (hfind : s.state.mode.find? s.rest = some m) :
      Turn s (m.tokens s.state.mode s.offset)
        ⟨(s.state.nestAll (m.tokens s.state.mode s.offset)).follow? m.rule.transition,
          s.offset + (m.finish s.rest).offset, (m.finish s.rest).rest⟩
  | fall {s : Scanner} {t : Transition} (hrest : s.rest ≠ [])
      (hfind : s.state.mode.find? s.rest = none) (hfall : s.state.mode.fallThrough = some t) :
      Turn s [] ⟨s.state.follow t, s.offset, s.rest⟩
  | plain {s : Scanner} {c : Char} {cs : List Char} (hrest : s.rest = c :: cs)
      (hfind : s.state.mode.find? s.rest = none) (hfall : s.state.mode.fallThrough = none) :
      Turn s [⟨s.offset, s.offset + c.utf8Size, .plainText, s.state.mode⟩]
        ⟨s.state, s.offset + c.utf8Size, cs⟩

inductive Turns : Nat → Scanner → List Token → Scanner → Prop
  | done (s : Scanner) : Turns 0 s [] s
  | next {n : Nat} {s s' s'' : Scanner} {first later : List Token} (h : Turn s first s')
      (h' : Turns n s' later s'') : Turns (n + 1) s (first ++ later) s''

namespace Turns

theorem one {s s' : Scanner} {tokens : List Token} (h : Turn s tokens s') :
    Turns 1 s tokens s' := by
  have hone := Turns.next h (.done s')
  rwa [List.append_nil] at hone

theorem trans {m n : Nat} {s s' s'' : Scanner} {first later : List Token}
    (h : Turns m s first s') (h' : Turns n s' later s'') :
    Turns (m + n) s (first ++ later) s'' := by
  induction h with
  | done s => rwa [Nat.zero_add]
  | next hturn h ih =>
    rw [Nat.add_right_comm, List.append_assoc]
    exact .next hturn (ih h')

end Turns

/-- A step from a mode that does not fall through, or whose rules match, is one pass. -/
theorem turn_step {s : Scanner} (hrest : s.rest ≠ [])
    (h : s.state.mode.find? s.rest = none → s.state.mode.fallThrough = none) :
    Turn s s.step.1 s.step.2 := by
  cases hfind : s.state.mode.find? s.rest with
  | some m =>
    have hsettled := settled_eq_of_find? hfind
    rw [step_of_find?_eq_some hrest (by rw [hsettled]; exact hfind), hsettled]
    exact .take hrest hfind
  | none =>
    have hfall := h hfind
    have hsettled := settled_eq_state hfall
    obtain ⟨c, cs, hcons⟩ := List.exists_cons_of_ne_nil hrest
    rw [step_of_find?_eq_none hcons (by rw [hsettled]; exact hfind), hsettled]
    exact .plain hcons hfind hfall

theorem turns_step {s : Scanner} (hrest : s.rest ≠ []) : ∃ n, Turns n s s.step.1 s.step.2 := by
  by_cases hfall : s.state.mode = .functionName ∧ s.state.mode.find? s.rest = none
  · obtain ⟨hmode, hfind⟩ := hfall
    have hfirst : Turn s [] ⟨s.state.follow (.goto .start), s.offset, s.rest⟩ :=
      .fall hrest hfind (by rw [hmode]; rfl)
    have hsecond := turn_step (s := ⟨s.state.follow (.goto .start), s.offset, s.rest⟩) hrest
      (fun _ ↦ rfl)
    rw [step_settled hrest, settled_eq_goto_start hmode hfind]
    exact ⟨2, .next hfirst (.one hsecond)⟩
  · refine ⟨1, .one (turn_step hrest ?_)⟩
    intro hfind
    cases hmode : s.state.mode with
    | start => rfl
    | comment => rfl
    | functionName => exact absurd ⟨hmode, hfind⟩ hfall

theorem Emits.exists_turns {s s' : Scanner} {tokens : List Token} (h : s.Emits tokens s') :
    ∃ n, Turns n s tokens s' := by
  induction h with
  | refl s => exact ⟨0, .done s⟩
  | step hrest h ih =>
    obtain ⟨m, hfirst⟩ := turns_step hrest
    obtain ⟨n, hlater⟩ := ih
    exact ⟨m + n, hfirst.trans hlater⟩

/-- Twice the number of characters left, less one where the mode does not fall through. -/
def weight (s : Scanner) : Nat :=
  2 * s.rest.length - if s.state.mode.fallThrough = none then 1 else 0

theorem weight_le (s : Scanner) : s.weight ≤ 2 * s.rest.length :=
  Nat.sub_le _ _

theorem Turn.weight_lt {s s' : Scanner} {tokens : List Token} (h : Turn s tokens s') :
    s'.weight < s.weight := by
  cases h with
  | @take m hrest hfind =>
    obtain ⟨_, w, hw, hreaches⟩ := Mode.finish_find? hfind
    have htext : s.rest = w ++ (m.finish s.rest).rest := hreaches.rest
    have hpos := List.length_pos_iff.mpr hw
    have hlength := congrArg List.length htext
    rw [List.length_append] at hlength
    simp only [weight]
    split <;> split <;> omega
  | @fall t hrest hfind hfall =>
    have hpos := List.length_pos_iff.mpr hrest
    have hnext : (s.state.follow t).mode.fallThrough = none := by
      cases hmode : s.state.mode with
      | start => simp [hmode, Mode.fallThrough] at hfall
      | comment => simp [hmode, Mode.fallThrough] at hfall
      | functionName =>
        simp only [hmode, Mode.fallThrough, Option.some.injEq] at hfall
        rw [← hfall]
        rfl
    simp only [weight, hnext, hfall, if_true, reduceCtorEq, if_false]
    omega
  | @plain c cs hrest hfind hfall =>
    simp only [weight, hrest, hfall, List.length_cons, if_true]
    omega

theorem Turns.add_weight_le {n : Nat} {s s' : Scanner} {tokens : List Token}
    (h : Turns n s tokens s') : n + s'.weight ≤ s.weight := by
  induction h with
  | done s => omega
  | next hturn h ih =>
    have hlt := hturn.weight_lt
    omega

end Scanner

end Highlighter
