import Highlighter.Scanner.Progress

namespace Highlighter

namespace ScanState

theorem settle_of_find? {s : ScanState} {text : List Char} {m : RuleMatch}
    (h : s.mode.find? text = some m) (limit : Nat) : s.settle limit text = (s, some m) := by
  cases limit with
  | zero => rw [settle, h]
  | succ limit => rw [settle, h]

theorem settle_of_stuck {s : ScanState} {text : List Char} (h : s.mode.find? text = none)
    (hfall : s.mode.fallThrough = none) (limit : Nat) : s.settle limit text = (s, none) := by
  cases limit with
  | zero => rw [settle, h]
  | succ limit => rw [settle, h, hfall]

theorem settle_of_fall {s : ScanState} {text : List Char} {t : Transition}
    (h : s.mode.find? text = none) (hfall : s.mode.fallThrough = some t) (limit : Nat) :
    s.settle (limit + 1) text = (s.follow t).settle limit text := by
  rw [settle, h, hfall]

end ScanState

namespace Scanner

/-- The state in which a step reads the text: no mode is left to fall through. -/
def settled (s : Scanner) : ScanState :=
  (s.state.settle fallLimit s.rest).1

theorem settled_eq_state {s : Scanner} (h : s.state.mode.fallThrough = none) :
    s.settled = s.state := by
  unfold settled
  cases hm : s.state.mode.find? s.rest with
  | none => rw [ScanState.settle_of_stuck hm h]
  | some m => rw [ScanState.settle_of_find? hm]

/-- Where a function name is due and none is found, the step is one of the mode `start`. -/
theorem settled_eq_goto_start {s : Scanner} (hmode : s.state.mode = .functionName)
    (h : s.state.mode.find? s.rest = none) : s.settled = s.state.follow (.goto .start) := by
  have hfall : s.state.mode.fallThrough = some (.goto .start) := by rw [hmode]; rfl
  unfold settled
  change (s.state.settle (2 + 1) s.rest).1 = _
  rw [ScanState.settle_of_fall h hfall]
  cases hm : (s.state.follow (.goto .start)).mode.find? s.rest with
  | none => rw [ScanState.settle_of_stuck hm rfl]
  | some m => rw [ScanState.settle_of_find? hm]

theorem settled_eq_of_find? {s : Scanner} {m : RuleMatch}
    (h : s.state.mode.find? s.rest = some m) : s.settled = s.state := by
  unfold settled
  rw [ScanState.settle_of_find? h]

theorem settled_cases (s : Scanner) :
    s.settled = s.state ∨
      s.state.mode = .functionName ∧ s.settled = s.state.follow (.goto .start) := by
  cases hmode : s.state.mode with
  | start => exact .inl (settled_eq_state (by rw [hmode]; rfl))
  | comment => exact .inl (settled_eq_state (by rw [hmode]; rfl))
  | functionName =>
    cases hm : s.state.mode.find? s.rest with
    | none => exact .inr ⟨rfl, settled_eq_goto_start hmode hm⟩
    | some m => exact .inl (settled_eq_of_find? hm)

theorem settled_eq_of_mode_ne_start {s : Scanner} (h : s.settled.mode ≠ .start) :
    s.settled = s.state := by
  rcases settled_cases s with hsame | ⟨_, hgoto⟩
  · exact hsame
  · rw [hgoto] at h
    exact absurd rfl h

theorem stack_settled (s : Scanner) : s.settled.stack = s.state.stack := by
  rcases settled_cases s with h | ⟨_, h⟩
  · rw [h]
  · rw [h]
    rfl

theorem depth_settled (s : Scanner) : s.settled.depth = s.state.depth := by
  rcases settled_cases s with h | ⟨_, h⟩
  · rw [h]
  · rw [h]
    rfl

theorem settled_mode_eq_comment_iff (s : Scanner) :
    s.settled.mode = .comment ↔ s.state.mode = .comment := by
  rcases settled_cases s with h | ⟨hmode, h⟩
  · rw [h]
  · rw [h, hmode]
    simp [ScanState.follow]

theorem step_of_rest_eq_nil {s : Scanner} (h : s.rest = []) : s.step = ([], s) := by
  unfold step
  rw [h]

theorem step_of_find?_eq_some {s : Scanner} {m : RuleMatch} (hrest : s.rest ≠ [])
    (h : s.settled.mode.find? s.rest = some m) :
    s.step = (m.tokens s.settled.mode s.offset,
      ⟨(s.settled.nestAll (m.tokens s.settled.mode s.offset)).follow? m.rule.transition,
        s.offset + (m.finish s.rest).offset, (m.finish s.rest).rest⟩) := by
  have hsettle : s.state.settle fallLimit s.rest = (s.settled, some m) := by
    rw [← h, settled, ← ScanState.find?_settle]
  obtain ⟨state, offset, rest⟩ := s
  cases rest with
  | nil => exact absurd rfl hrest
  | cons c cs =>
    simp only [step]
    rw [hsettle]

theorem step_of_find?_eq_none {s : Scanner} {c : Char} {cs : List Char} (hrest : s.rest = c :: cs)
    (h : s.settled.mode.find? s.rest = none) :
    s.step = ([⟨s.offset, s.offset + c.utf8Size, .plainText, s.settled.mode⟩],
      ⟨s.settled, s.offset + c.utf8Size, cs⟩) := by
  have hsettle : s.state.settle fallLimit s.rest = (s.settled, none) := by
    rw [← h, settled, ← ScanState.find?_settle]
  obtain ⟨state, offset, rest⟩ := s
  obtain rfl : rest = c :: cs := hrest
  simp only [step]
  rw [hsettle]

theorem settled_settled (s : Scanner) :
    (Scanner.mk s.settled s.offset s.rest).settled = s.settled := by
  rcases settled_cases s with h | ⟨_, h⟩
  · rw [h]
    exact h
  · rw [h]
    exact settled_eq_state rfl

theorem step_settled {s : Scanner} (hrest : s.rest ≠ []) :
    s.step = (Scanner.mk s.settled s.offset s.rest).step := by
  have hsettled := settled_settled s
  obtain ⟨c, cs, hcons⟩ := List.exists_cons_of_ne_nil hrest
  cases hm : s.settled.mode.find? s.rest with
  | some m =>
    have hstep := step_of_find?_eq_some (s := Scanner.mk s.settled s.offset s.rest) (m := m) hrest
      (by rw [hsettled, hm])
    rw [step_of_find?_eq_some hrest hm, hstep, hsettled]
  | none =>
    have hstep := step_of_find?_eq_none (s := Scanner.mk s.settled s.offset s.rest) hcons
      (by rw [hsettled, hm])
    rw [step_of_find?_eq_none hcons hm, hstep, hsettled]

/-- What holds at the end of the text, and before a step where it holds after it, holds always. -/
theorem step_induction {motive : Scanner → Prop} (stop : ∀ s, s.rest = [] → motive s)
    (step : ∀ s, s.rest ≠ [] → motive s.step.2 → motive s) (s : Scanner) : motive s := by
  induction hn : s.rest.length using Nat.strongRecOn generalizing s with
  | _ n ih =>
    by_cases hrest : s.rest = []
    · exact stop s hrest
    · have hlt := length_rest_step s hrest
      exact step s hrest (ih _ (by omega) _ rfl)

theorem runWithin_cons {s : Scanner} (h : s.rest ≠ []) (c : Char) (budget : List Char) :
    runWithin (c :: budget) s =
      (s.step.1 ++ (runWithin budget s.step.2).1, (runWithin budget s.step.2).2) := by
  rw [runWithin]
  split
  · contradiction
  · rfl

theorem runWithin_budget {budget budget' : List Char} {s : Scanner}
    (h : s.rest.length ≤ budget.length) (h' : s.rest.length ≤ budget'.length) :
    runWithin budget s = runWithin budget' s := by
  induction budget generalizing budget' s with
  | nil =>
    have hrest := List.eq_nil_of_length_eq_zero (Nat.le_zero.mp h)
    cases budget' with
    | nil => rfl
    | cons c budget' => simp [runWithin, hrest]
  | cons c budget ih =>
    by_cases hrest : s.rest = []
    · cases budget' with
      | nil => simp [runWithin, hrest]
      | cons c' budget' => simp [runWithin, hrest]
    · have hlt := length_rest_step s hrest
      have hpos := List.length_pos_iff.mpr hrest
      cases budget' with
      | nil =>
        rw [List.length_nil] at h'
        omega
      | cons c' budget' =>
        rw [List.length_cons] at h h'
        have hnext : runWithin budget s.step.2 = runWithin budget' s.step.2 :=
          ih (by omega) (by omega)
        rw [runWithin_cons hrest, runWithin_cons hrest, hnext]

@[simp]
theorem run_of_rest_eq_nil {s : Scanner} (h : s.rest = []) : s.run = ([], s) := by
  rw [run, h]
  rfl

theorem run_eq_step {s : Scanner} (h : s.rest ≠ []) :
    s.run = (s.step.1 ++ s.step.2.run.1, s.step.2.run.2) := by
  have hlt := length_rest_step s h
  unfold run
  cases hrest : s.rest with
  | nil => exact absurd hrest h
  | cons c cs =>
    have hnext : runWithin cs s.step.2 = runWithin s.step.2.rest s.step.2 := by
      rw [hrest, List.length_cons] at hlt
      exact runWithin_budget (by omega) (Nat.le_refl _)
    rw [runWithin_cons h, hnext]

/-- Some steps lead from the first scanner to the second and emit the tokens. -/
inductive Emits : Scanner → List Token → Scanner → Prop
  | refl (s : Scanner) : Emits s [] s
  | step {s s' : Scanner} {tokens : List Token} (hrest : s.rest ≠ [])
      (h : Emits s.step.2 tokens s') : Emits s (s.step.1 ++ tokens) s'

namespace Emits

theorem one {s : Scanner} (h : s.rest ≠ []) : s.Emits s.step.1 s.step.2 := by
  have hone := Emits.step h (.refl _)
  rwa [List.append_nil] at hone

theorem of_step {s s' : Scanner} {tokens : List Token} (hrest : s.rest ≠ [])
    (hstep : s.step = (tokens, s')) : s.Emits tokens s' := by
  have hone := one hrest
  rwa [hstep] at hone

theorem trans {s s' s'' : Scanner} {first second : List Token} (h : s.Emits first s')
    (h' : s'.Emits second s'') : s.Emits (first ++ second) s'' := by
  induction h with
  | refl s => exact h'
  | step hrest h ih =>
    rw [List.append_assoc]
    exact .step hrest (ih h')

/-- A run emits the tokens of its first steps, and then goes on from where they lead. -/
theorem run_eq {s s' : Scanner} {tokens : List Token} (h : s.Emits tokens s') :
    s.run = (tokens ++ s'.run.1, s'.run.2) := by
  induction h with
  | refl s => rfl
  | step hrest h ih => rw [run_eq_step hrest, ih, List.append_assoc]

theorem exists_text {s s' : Scanner} {tokens : List Token} (h : s.Emits tokens s') :
    ∃ w, s.rest = w ++ s'.rest ∧ s'.offset = s.offset + byteLength w := by
  induction h with
  | refl s => exact ⟨[], rfl, rfl⟩
  | @step s s' tokens hrest h ih =>
    obtain ⟨v, _, hv, hoffset⟩ := exists_step s hrest
    obtain ⟨w, hw, hoffset'⟩ := ih
    refine ⟨v ++ w, ?_, ?_⟩
    · rw [hv, hw, List.append_assoc]
    · rw [hoffset', hoffset, byteLength_append, Nat.add_assoc]

/-- What holds at the origin, and behind a step where it holds before it, holds wherever some steps
lead. -/
theorem last_induction {origin : Scanner} {motive : List Token → Scanner → Prop}
    (refl : motive [] origin)
    (step : ∀ before s, origin.Emits before s → s.rest ≠ [] → motive before s →
      motive (before ++ s.step.1) s.step.2)
    {tokens : List Token} {final : Scanner} (h : origin.Emits tokens final) :
    motive tokens final := by
  have hfrom : ∀ {s s' : Scanner} {later : List Token}, s.Emits later s' → ∀ before,
      origin.Emits before s → motive before s → motive (before ++ later) s' := by
    intro s s' later hlater
    induction hlater with
    | refl s =>
      intro before _ hbefore
      rwa [List.append_nil]
    | @step s s' later hrest _ ih =>
      intro before hemits hbefore
      rw [← List.append_assoc]
      exact ih _ (hemits.trans (.one hrest)) (step before s hemits hrest hbefore)
  exact hfrom h [] (.refl origin) refl

theorem exists_step_of_split {origin final : Scanner} {u v : List Token} {t : Token}
    (h : origin.Emits (u ++ t :: v) final) :
    ∃ before s x y later, origin.Emits before s ∧ s.rest ≠ [] ∧ s.step.1 = x ++ t :: y ∧
      u = before ++ x ∧ v = y ++ later ∧ s.step.2.Emits later final := by
  generalize htokens : u ++ t :: v = tokens at h
  induction h generalizing u with
  | refl s => simp at htokens
  | @step s s' tokens hrest h ih =>
    rcases List.append_eq_append_iff.mp htokens with ⟨x, hstep, hv⟩ | ⟨x, hu, hx⟩
    · cases x with
      | nil =>
        rw [List.append_nil] at hstep
        obtain ⟨before, s₁, x, y, later, hemits, hrest₁, hstep₁, hnil, hv', hlater⟩ :=
          ih (u := []) hv
        refine ⟨s.step.1 ++ before, s₁, x, y, later, .step hrest hemits, hrest₁, hstep₁, ?_, hv',
          hlater⟩
        rw [List.append_assoc, ← hnil, List.append_nil, hstep]
      | cons t' y =>
        obtain ⟨rfl, rfl⟩ : t = t' ∧ v = y ++ tokens := List.cons.inj hv
        exact ⟨[], s, u, y, tokens, .refl s, hrest, hstep, rfl, rfl, h⟩
    · obtain ⟨before, s₁, x', y, later, hemits, hrest₁, hstep₁, hx', hv', hlater⟩ := ih hx.symm
      refine ⟨s.step.1 ++ before, s₁, x', y, later, .step hrest hemits, hrest₁, hstep₁, ?_, hv',
        hlater⟩
      rw [hu, hx', List.append_assoc]

theorem exists_step_of_mem {origin final : Scanner} {tokens : List Token} {t : Token}
    (h : origin.Emits tokens final) (ht : t ∈ tokens) :
    ∃ before s, origin.Emits before s ∧ s.rest ≠ [] ∧ t ∈ s.step.1 := by
  obtain ⟨u, v, rfl⟩ := List.append_of_mem ht
  obtain ⟨before, s, x, y, _, hemits, hrest, hstep, _⟩ := h.exists_step_of_split
  refine ⟨before, s, hemits, hrest, ?_⟩
  rw [hstep]
  exact List.mem_append_right x List.mem_cons_self

end Emits

theorem emits_run (s : Scanner) : s.Emits s.run.1 s.run.2 := by
  induction s using step_induction with
  | stop s hrest =>
    rw [run_of_rest_eq_nil hrest]
    exact .refl s
  | step s hrest ih =>
    rw [run_eq_step hrest]
    exact .step hrest ih

theorem run_ofText (text : List Char) (state : ScanState) :
    (ofText text state).run =
      ((classifyFrom state text).1, ⟨(classifyFrom state text).2, byteLength text, []⟩) := by
  obtain ⟨w, hw, hoffset⟩ := (ofText text state).emits_run.exists_text
  have hrest := (ofText text state).rest_run
  rw [hrest, List.append_nil] at hw
  obtain rfl : text = w := hw
  have hoffset' : (ofText text state).run.2.offset = byteLength text := by
    rw [hoffset]
    exact Nat.zero_add _
  unfold classifyFrom
  generalize (ofText text state).run = run at hrest hoffset'
  obtain ⟨tokens, final, offset, rest⟩ := run
  obtain rfl : rest = [] := hrest
  obtain rfl : offset = byteLength text := hoffset'
  rfl

end Scanner

end Highlighter
