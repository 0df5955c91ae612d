import Highlighter.Editor.Binding
import Highlighter.Proofs.Scanner.Steps

namespace Highlighter

namespace Transition

def target : Transition → Mode
  | push mode => mode
  | pop => .start
  | goto mode => mode

end Transition

namespace Category

def depthAfter : Category → Nat → Nat
  | bracketOpen, depth => depth + 1
  | bracketClose, depth => depth - 1
  | _, depth => depth

end Category

def depthBehind (depth : Nat) (tokens : List Token) : Nat :=
  tokens.foldl (fun depth t ↦ t.category.depthAfter depth) depth

namespace Mode

def settle (mode : Mode) (text : List Char) : Mode :=
  match mode.find? text, mode.fallThrough with
  | none, some t => t.target
  | _, _ => mode

end Mode

/-- A scanner that keeps a mode and a depth and takes every transition as a `goto`. -/
structure GotoScanner where
  mode : Mode
  depth : Nat
  offset : Nat
  rest : List Char

namespace GotoScanner

def step (s : GotoScanner) : List Token × GotoScanner :=
  match s.rest with
  | [] => ([], s)
  | c :: cs =>
    let mode := s.mode.settle s.rest
    match mode.find? s.rest with
    | some m =>
      let tokens := m.tokens mode s.offset
      let finish := m.finish s.rest
      (tokens,
        ⟨(m.rule.transition.map (·.target)).getD mode, depthBehind s.depth tokens,
          s.offset + finish.offset, finish.rest⟩)
    | none =>
      let stop := s.offset + c.utf8Size
      ([⟨s.offset, stop, .plainText, mode⟩], ⟨mode, s.depth, stop, cs⟩)

def runWithin : List Char → GotoScanner → List Token × GotoScanner
  | [], s => ([], s)
  | _ :: budget, s =>
    match s.rest with
    | [] => ([], s)
    | _ :: _ =>
      let (tokens, next) := s.step
      let (later, final) := runWithin budget next
      (tokens ++ later, final)

def classify (mode : Mode) (depth : Nat) (text : List Char) : List Token × Mode × Nat :=
  let (tokens, final) := runWithin text ⟨mode, depth, 0, text⟩
  (tokens, final.mode, final.depth)

structure Agree (s s' : GotoScanner) : Prop where
  mode : s.mode = s'.mode
  offset : s.offset = s'.offset
  rest : s.rest = s'.rest

theorem Agree.step {s s' : GotoScanner} (h : s.Agree s') :
    s.step.1 = s'.step.1 ∧ s.step.2.Agree s'.step.2 := by
  obtain ⟨mode, depth, offset, rest⟩ := s
  obtain ⟨mode', depth', offset', rest'⟩ := s'
  obtain ⟨hmode, hoffset, hrest⟩ := h
  simp only at hmode hoffset hrest
  subst hmode hoffset hrest
  cases rest with
  | nil => exact ⟨rfl, rfl, rfl, rfl⟩
  | cons c cs =>
    unfold GotoScanner.step
    dsimp only
    cases (mode.settle (c :: cs)).find? (c :: cs) with
    | some m => exact ⟨rfl, rfl, rfl, rfl⟩
    | none => exact ⟨rfl, rfl, rfl, rfl⟩

theorem Agree.runWithin {s s' : GotoScanner} (h : s.Agree s') (budget : List Char) :
    (runWithin budget s).1 = (runWithin budget s').1 ∧
      (GotoScanner.runWithin budget s).2.Agree (GotoScanner.runWithin budget s').2 := by
  induction budget generalizing s s' with
  | nil => exact ⟨rfl, h⟩
  | cons c budget ih =>
    obtain ⟨htokens, hnext⟩ := h.step
    obtain ⟨hlater, hfinal⟩ := ih hnext
    unfold GotoScanner.runWithin
    rw [← h.rest]
    cases hrest : s.rest with
    | nil => exact ⟨rfl, h⟩
    | cons d ds =>
      refine ⟨?_, hfinal⟩
      dsimp only
      rw [htokens, hlater]

/-- The depth a text is read with changes neither the tokens nor the mode behind them. -/
theorem classify_depth (mode : Mode) (depth depth' : Nat) (text : List Char) :
    (classify mode depth text).1 = (classify mode depth' text).1 ∧
      (classify mode depth text).2.1 = (classify mode depth' text).2.1 := by
  have hstart : Agree ⟨mode, depth, 0, text⟩ ⟨mode, depth', 0, text⟩ := ⟨rfl, rfl, rfl⟩
  obtain ⟨htokens, hfinal⟩ := hstart.runWithin text
  exact ⟨htokens, hfinal.mode⟩

end GotoScanner

namespace Mode

/-- The transitions of a mode. A mode is remembered only from `start` to `comment`, and only
`comment` returns to it. -/
def permits : Mode → Transition → Bool
  | start, .push mode => mode == comment
  | comment, .pop => true
  | start, .goto _ => true
  | functionName, .goto _ => true
  | _, _ => false

theorem permits_rules (mode : Mode) :
    ∀ rule ∈ mode.rules, rule.transition.all mode.permits = true := by
  cases mode <;> decide +kernel

end Mode

namespace ScanState

/-- Nothing is remembered, except inside a comment the mode `start`. -/
def RemembersStart (s : ScanState) : Prop :=
  s.stack = [] ∨ s.stack = [.start] ∧ s.mode = .comment

theorem nest_indentDelta (s : ScanState) (c : Category) :
    s.nest c.indentDelta = ⟨s.mode, s.stack, c.depthAfter s.depth⟩ := by
  cases c <;> rfl

theorem nestAll_eq (s : ScanState) (tokens : List Token) :
    s.nestAll tokens = ⟨s.mode, s.stack, depthBehind s.depth tokens⟩ := by
  induction tokens generalizing s with
  | nil => rfl
  | cons t tokens ih =>
    have hlater := ih (s.nest t.category.indentDelta)
    rw [nest_indentDelta] at hlater
    have hfirst : s.nestAll (t :: tokens) = (s.nest t.category.indentDelta).nestAll tokens := rfl
    rw [hfirst, nest_indentDelta, hlater]
    rfl

theorem RemembersStart.follow {s : ScanState} (h : s.RemembersStart) {t : Transition}
    (ht : s.mode.permits t = true) :
    (s.follow t).RemembersStart ∧ (s.follow t).mode = t.target := by
  obtain ⟨mode, stack, depth⟩ := s
  cases t with
  | push next =>
    cases mode with
    | start =>
      -- only in `comment` may something be remembered already
      have hstack : stack = [] := h.resolve_right fun hboth ↦ nomatch hboth.2
      have hnext : next = .comment := eq_of_beq ht
      rw [hstack, hnext]
      exact ⟨.inr ⟨rfl, rfl⟩, rfl⟩
    | comment => cases ht
    | functionName => cases ht
  | pop =>
    rcases h with hstack | ⟨hstack, -⟩
    · change stack = [] at hstack
      rw [hstack]
      exact ⟨.inl rfl, rfl⟩
    · change stack = [.start] at hstack
      rw [hstack]
      exact ⟨.inl rfl, rfl⟩
  | goto next =>
    have hmode : mode ≠ .comment := by
      rintro rfl
      cases ht
    exact ⟨.inl (h.resolve_right fun hboth ↦ hmode hboth.2), rfl⟩

theorem depth_follow? (s : ScanState) (transition : Option Transition) :
    (s.follow? transition).depth = s.depth := by
  cases transition with
  | none => rfl
  | some t => exact s.depth_follow t

theorem RemembersStart.follow? {s : ScanState} (h : s.RemembersStart)
    {transition : Option Transition} (ht : transition.all s.mode.permits = true) :
    (s.follow? transition).RemembersStart ∧
      (s.follow? transition).mode = (transition.map (·.target)).getD s.mode := by
  cases transition with
  | none => exact ⟨h, rfl⟩
  | some t => exact h.follow ht

end ScanState

namespace Scanner

def forget (s : Scanner) : GotoScanner :=
  ⟨s.state.mode, s.state.depth, s.offset, s.rest⟩

theorem mode_settled (s : Scanner) : s.settled.mode = s.state.mode.settle s.rest := by
  unfold Mode.settle
  cases hfind : s.state.mode.find? s.rest with
  | some m => rw [settled_eq_of_find? hfind]
  | none =>
    cases hmode : s.state.mode with
    | start => rw [settled_eq_state (by rw [hmode]; rfl), hmode]; rfl
    | comment => rw [settled_eq_state (by rw [hmode]; rfl), hmode]; rfl
    | functionName => rw [settled_eq_goto_start hmode hfind]; rfl

theorem remembersStart_settled {s : Scanner} (h : s.state.RemembersStart) :
    s.settled.RemembersStart := by
  rcases settled_cases s with hsettled | ⟨hmode, hsettled⟩
  · rw [hsettled]
    exact h
  · rw [hsettled]
    exact (h.follow (by rw [hmode]; rfl)).1

/-- A step remembers nothing but `start`, and one that remembers nothing does the same. -/
theorem step_forget {s : Scanner} (h : s.state.RemembersStart) :
    s.step.2.state.RemembersStart ∧ s.forget.step = (s.step.1, s.step.2.forget) := by
  cases hrest : s.rest with
  | nil =>
    obtain ⟨state, offset, rest⟩ := s
    obtain rfl : rest = [] := hrest
    exact ⟨h, rfl⟩
  | cons c cs =>
    have hsettled := remembersStart_settled h
    have hne : s.rest ≠ [] := by rw [hrest]; exact List.cons_ne_nil c cs
    have hmode := mode_settled s
    have hdepth := depth_settled s
    cases hfind : s.settled.mode.find? s.rest with
    | none =>
      rw [step_of_find?_eq_none hrest hfind]
      refine ⟨hsettled, ?_⟩
      rw [hmode, hrest] at hfind
      unfold GotoScanner.step forget
      simp only [hrest, hfind, hmode, hdepth]
    | some m =>
      have hrule := (Mode.finish_find? hfind).1
      have hpermits := s.settled.mode.permits_rules m.rule hrule
      rw [step_of_find?_eq_some hne hfind, ScanState.nestAll_eq]
      have hnested : (ScanState.mk s.settled.mode s.settled.stack
          (depthBehind s.settled.depth (m.tokens s.settled.mode s.offset))).RemembersStart :=
        hsettled
      obtain ⟨hremembers, htarget⟩ := hnested.follow? hpermits
      refine ⟨hremembers, ?_⟩
      unfold GotoScanner.step forget
      rw [htarget, ScanState.depth_follow?, hmode, hdepth]
      rw [hmode, hrest] at hfind
      simp only [hrest, hfind]

theorem runWithin_forget {s : Scanner} (h : s.state.RemembersStart) (budget : List Char) :
    (runWithin budget s).2.state.RemembersStart ∧
      GotoScanner.runWithin budget s.forget =
        ((runWithin budget s).1, (runWithin budget s).2.forget) := by
  induction budget generalizing s with
  | nil => exact ⟨h, rfl⟩
  | cons c budget ih =>
    obtain ⟨hnext, hstep⟩ := step_forget h
    obtain ⟨hfinal, hlater⟩ := ih hnext
    by_cases hrest : s.rest = []
    · unfold runWithin GotoScanner.runWithin
      have hrest' : s.forget.rest = [] := hrest
      rw [hrest, hrest']
      exact ⟨h, rfl⟩
    · obtain ⟨d, ds, hcons⟩ := List.exists_cons_of_ne_nil hrest
      have hcons' : s.forget.rest = d :: ds := hcons
      rw [runWithin_cons hrest]
      refine ⟨hfinal, ?_⟩
      rw [GotoScanner.runWithin, hcons']
      simp only [hstep, hlater]

end Scanner

theorem classify_forget {state : ScanState} (h : state.RemembersStart) (text : List Char) :
    (classifyFrom state text).2.RemembersStart ∧
      GotoScanner.classify state.mode state.depth text =
        ((classifyFrom state text).1, (classifyFrom state text).2.mode,
          (classifyFrom state text).2.depth) := by
  obtain ⟨hfinal, hrun⟩ := Scanner.runWithin_forget (s := .ofText text state) h text
  refine ⟨hfinal, ?_⟩
  unfold GotoScanner.classify
  have hstart : GotoScanner.mk state.mode state.depth 0 text =
      (Scanner.ofText text state).forget := rfl
  rw [hstart, hrun]
  rfl

/-- The states a scanner can come to: it begins in some mode, and texts and lines are read one after
the other, each from the state that the one before left behind. -/
inductive Reachable : ScanState → Prop
  | inMode (mode : Mode) : Reachable (.inMode mode)
  | classify {state : ScanState} (h : Reachable state) (text : List Char) :
    Reachable (classifyFrom state text).2
  | tokenize {state : ScanState} (h : Reachable state) (host : Host) (line : List Char) :
    Reachable (host.tokenizeLine state line).2

theorem Reachable.remembersStart {state : ScanState} (h : Reachable state) :
    state.RemembersStart := by
  induction h with
  | inMode mode => exact .inl rfl
  | classify h text ih => exact (classify_forget ih text).1
  | tokenize h host line ih =>
    rw [host.snd_tokenizeLine]
    exact (classify_forget ih line).1

/-- What is on the stack of a state that can be reached has no influence on a text read from it: the
tokens, the mode and the depth are those of the scanner without a stack, and the tokens and the mode
depend on nothing but the mode before. -/
theorem classifyFrom_stackless :
    (∀ state, Reachable state →
      (state.stack = [] ∨ state.stack = [.start]) ∧
        (state.stack ≠ [] → state.mode = .comment)) ∧
    (∀ state state', Reachable state → Reachable state' → state.mode = state'.mode →
      ∀ text, (classifyFrom state text).1 = (classifyFrom state' text).1 ∧
        (classifyFrom state text).2.mode = (classifyFrom state' text).2.mode ∧
        (state.depth = state'.depth →
          (classifyFrom state text).2.depth = (classifyFrom state' text).2.depth)) ∧
    ∀ state, Reachable state → ∀ text,
      GotoScanner.classify state.mode state.depth text =
        ((classifyFrom state text).1, (classifyFrom state text).2.mode,
          (classifyFrom state text).2.depth) := by
  refine ⟨?_, ?_, fun state h text ↦ (classify_forget h.remembersStart text).2⟩
  · intro state h
    rcases h.remembersStart with hstack | ⟨hstack, hmode⟩
    · exact ⟨.inl hstack, fun hne ↦ absurd hstack hne⟩
    · exact ⟨.inr hstack, fun _ ↦ hmode⟩
  · intro state state' h h' hmode text
    have hrun := (classify_forget h.remembersStart text).2
    have hrun' := (classify_forget h'.remembersStart text).2
    obtain ⟨htokens, hfinal⟩ :=
      GotoScanner.classify_depth state.mode state.depth state'.depth text
    rw [hrun, hmode, hrun'] at htokens hfinal
    refine ⟨htokens, hfinal, ?_⟩
    intro hdepth
    rw [hmode, hdepth, hrun'] at hrun
    exact (congrArg (·.2.2) hrun).symm

theorem classifyFrom_stackless_open_comment :
    Reachable ⟨.comment, [.start], 1⟩ ∧ Reachable (.inMode .comment) ∧
      (classifyFrom ⟨.comment, [.start], 1⟩ "é */ fn x)".toList).1 =
        (classifyFrom (.inMode .comment) "é */ fn x)".toList).1 ∧
      GotoScanner.classify .comment 1 "é */ fn x)".toList =
        ((classifyFrom (.inMode .comment) "é */ fn x)".toList).1, .start, 0) := by
  have hopen : (classifyFrom (.inMode .start) "f( /* x\n".toList).2 = ⟨.comment, [.start], 1⟩ := by
    decide +kernel
  have hstate : Reachable ⟨.comment, [.start], 1⟩ := by
    rw [← hopen]
    exact .classify (.inMode .start) _
  have hfinal : (classifyFrom ⟨.comment, [.start], 1⟩ "é */ fn x)".toList).2 =
      ⟨.start, [], 0⟩ := by
    decide +kernel
  have hseeded := (classifyFrom_stackless.2.1 _ _ hstate (.inMode .comment) rfl
    "é */ fn x)".toList).1
  refine ⟨hstate, .inMode .comment, hseeded, ?_⟩
  rw [classifyFrom_stackless.2.2 _ hstate, hfinal, hseeded]

end Highlighter
