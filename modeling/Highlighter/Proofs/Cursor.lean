import Highlighter.Cursor
import Highlighter.Proofs.Scanner.Coverage
import Mathlib.Order.Bounds.Basic
import Mathlib.Order.Monotone.Basic

namespace Highlighter

namespace Scanner

/-- What a number of steps emits, and where they lead. At the end of the text a step does
nothing. -/
def steps : Nat → Scanner → List Token × Scanner
  | 0, s => ([], s)
  | n + 1, s =>
    let (tokens, last) := steps n s
    let (later, next) := last.step
    (tokens ++ later, next)

theorem steps_succ (s : Scanner) (n : Nat) :
    s.steps (n + 1) =
      ((s.steps n).1 ++ (s.steps n).2.step.1, (s.steps n).2.step.2) :=
  rfl

theorem emits_steps (s : Scanner) (n : Nat) : s.Emits (s.steps n).1 (s.steps n).2 := by
  induction n with
  | zero => exact .refl s
  | succ n ih =>
    rw [steps_succ]
    by_cases hrest : (s.steps n).2.rest = []
    · rw [step_of_rest_eq_nil hrest, List.append_nil]
      exact ih
    · exact ih.trans (.one hrest)

theorem length_steps_mono (s : Scanner) : Monotone fun n ↦ (s.steps n).1.length := by
  apply monotone_nat_of_le_succ
  intro n
  simp only [steps_succ, List.length_append]
  omega

theorem isLeast_steps_succ {s : Scanner} {n count : Nat} (hlt : (s.steps n).1.length < count)
    (hle : count ≤ (s.steps (n + 1)).1.length) :
    IsLeast {n | count ≤ (s.steps n).1.length} (n + 1) := by
  refine ⟨hle, ?_⟩
  intro m hm
  have hcount : count ≤ (s.steps m).1.length := hm
  by_contra hnot
  -- fewer steps emit no more than the first `n`
  have hmono : (s.steps m).1.length ≤ (s.steps n).1.length := by
    apply s.length_steps_mono
    omega
  omega

end Scanner

namespace Cursor

/-- The cursor has delivered `count` of the tokens of a run from `origin`: the steps made are the
fewest that emit so many, and the tokens they emitted beyond wait. -/
def HasDelivered (origin : Scanner) (count : Nat) (c : Cursor) : Prop :=
  ∃ n, IsLeast {n | count ≤ (origin.steps n).1.length} n ∧
    (origin.steps n).1.drop count = c.pending ∧ (origin.steps n).2 = c.scanner

theorem next_of_rest_eq_nil {scanner : Scanner} (h : scanner.rest = []) :
    (Cursor.mk [] scanner).next = (none, ⟨[], scanner⟩) := by
  simp only [next, Scanner.step_of_rest_eq_nil h]

theorem next_of_step {scanner : Scanner} {t : Token} {later : List Token}
    (h : scanner.step.1 = t :: later) :
    (Cursor.mk [] scanner).next = (some t, ⟨later, scanner.step.2⟩) := by
  have hstep : scanner.step = (t :: later, scanner.step.2) := Prod.ext h rfl
  unfold next
  rw [hstep]

def pull : Nat → Cursor → List Token × Cursor
  | 0, c => ([], c)
  | limit + 1, c =>
    match c.next with
    | (none, c) => ([], c)
    | (some t, c) =>
      let (later, c) := pull limit c
      (t :: later, c)

theorem skip_eq_pull (limit : Nat) (c : Cursor) :
    c.skip limit = ((c.pull limit).1.length, (c.pull limit).2) := by
  induction limit generalizing c with
  | zero => rfl
  | succ limit ih =>
    unfold skip pull
    cases hnext : c.next with
    | mk delivered c' =>
      cases delivered with
      | none => rfl
      | some t => simp only [ih, List.length_cons]

namespace HasDelivered

variable {origin scanner : Scanner} {count : Nat} {c : Cursor} {t : Token} {later : List Token}

theorem zero (origin : Scanner) : HasDelivered origin 0 ⟨[], origin⟩ :=
  ⟨0, ⟨Nat.zero_le _, fun _ _ ↦ Nat.zero_le _⟩, rfl, rfl⟩

theorem count_le (h : HasDelivered origin count c) : count ≤ origin.run.1.length := by
  obtain ⟨n, ⟨hle, _⟩, _⟩ := h
  have hcount : count ≤ (origin.steps n).1.length := hle
  rw [(origin.emits_steps n).run_eq, List.length_append]
  omega

theorem drain_eq (h : HasDelivered origin count c) :
    c.drain = (origin.run.1.drop count, ⟨[], origin.run.2⟩) := by
  obtain ⟨n, ⟨hle, _⟩, hpending, hscanner⟩ := h
  rw [(origin.emits_steps n).run_eq, List.drop_append_of_le_length hle, hpending, hscanner]
  rfl

theorem of_waiting (h : HasDelivered origin count ⟨t :: later, scanner⟩) :
    HasDelivered origin (count + 1) ⟨later, scanner⟩ := by
  obtain ⟨n, ⟨_, hleast⟩, hpending, hscanner⟩ := h
  refine ⟨n, ⟨?_, ?_⟩, ?_, hscanner⟩
  · have hlength := congrArg List.length hpending
    rw [List.length_drop, List.length_cons] at hlength
    apply Nat.succ_le_of_lt
    omega
  · intro m hm
    have hmore : count + 1 ≤ (origin.steps m).1.length := hm
    apply hleast
    exact Nat.le_of_succ_le hmore
  · rw [← List.tail_drop, hpending]
    rfl

theorem of_step (h : HasDelivered origin count ⟨[], scanner⟩)
    (hstep : scanner.step.1 = t :: later) :
    HasDelivered origin (count + 1) ⟨later, scanner.step.2⟩ := by
  obtain ⟨n, ⟨hle, _⟩, hpending, rfl⟩ := h
  have hcount : (origin.steps n).1.length = count :=
    Nat.le_antisymm (List.drop_eq_nil_iff.mp hpending) hle
  have htokens : (origin.steps (n + 1)).1 = (origin.steps n).1 ++ t :: later :=
    congrArg ((origin.steps n).1 ++ ·) hstep
  refine ⟨n + 1, Scanner.isLeast_steps_succ (by omega) ?_, ?_, rfl⟩
  · rw [htokens, List.length_append, List.length_cons]
    omega
  · rw [htokens, ← hcount, List.drop_length_add_append]
    rfl

/-- A cursor delivers the next token of the run, or is at its end and stays there. -/
theorem next (h : HasDelivered origin count c) :
    (count = origin.run.1.length ∧ c = ⟨[], origin.run.2⟩ ∧ c.next = (none, c)) ∨
      ∃ t c', origin.run.1[count]? = some t ∧ c.next = (some t, c') ∧
        HasDelivered origin (count + 1) c' := by
  have hle := h.count_le
  have hdrain := h.drain_eq
  obtain ⟨pending, scanner⟩ := c
  obtain ⟨htokens, hfinal⟩ : pending ++ scanner.run.1 = origin.run.1.drop count ∧
      Cursor.mk [] scanner.run.2 = ⟨[], origin.run.2⟩ := Prod.mk.inj hdrain
  rw [← List.head?_drop, ← htokens]
  cases pending with
  | cons t later => exact .inr ⟨t, ⟨later, scanner⟩, rfl, rfl, h.of_waiting⟩
  | nil =>
    -- nothing waits: the scanner is at the end of the text, or its next step emits a token
    by_cases hrest : scanner.rest = []
    · rw [Scanner.run_of_rest_eq_nil hrest] at htokens hfinal
      have hend := List.drop_eq_nil_iff.mp htokens.symm
      exact .inl ⟨by omega, hfinal, next_of_rest_eq_nil hrest⟩
    · obtain ⟨t, later, hstep⟩ := List.exists_cons_of_ne_nil (Scanner.step_tokens_ne_nil hrest)
      refine .inr ⟨t, ⟨later, scanner.step.2⟩, ?_, next_of_step hstep, h.of_step hstep⟩
      rw [Scanner.run_eq_step hrest, hstep]
      rfl

theorem pull (h : HasDelivered origin count c) (limit : Nat) :
    (c.pull limit).1 = (origin.run.1.drop count).take limit ∧
      HasDelivered origin (count + (c.pull limit).1.length) (c.pull limit).2 := by
  induction limit generalizing count c with
  | zero => exact ⟨rfl, h⟩
  | succ limit ih =>
    unfold Cursor.pull
    rcases h.next with ⟨hend, _, hnext⟩ | ⟨t, c', ht, hnext, h'⟩
    · rw [hnext, List.drop_eq_nil_of_le hend.ge]
      exact ⟨rfl, h⟩
    · obtain ⟨hlater, hdelivered⟩ := ih h'
      rw [hnext, List.drop_eq_getElem?_toList_append, ht]
      refine ⟨congrArg (t :: ·) hlater, ?_⟩
      rwa [Nat.add_right_comm] at hdelivered

theorem skip (h : HasDelivered origin count c) (limit : Nat) :
    (c.skip limit).1 = min limit (origin.run.1.length - count) ∧
      HasDelivered origin (count + (c.skip limit).1) (c.skip limit).2 := by
  obtain ⟨htokens, hdelivered⟩ := h.pull limit
  rw [skip_eq_pull]
  refine ⟨?_, hdelivered⟩
  rw [htokens, List.length_take, List.length_drop]

/-- Pulled to its end, a cursor delivers what the run of its scanner does. -/
theorem pull_eq_drain (h : HasDelivered origin count c) {limit : Nat}
    (hlimit : origin.run.1.length - count ≤ limit) : c.pull limit = c.drain := by
  have hle := h.count_le
  obtain ⟨htokens, hdelivered⟩ := h.pull limit
  have hall : (origin.run.1.drop count).take limit = origin.run.1.drop count := by
    apply List.take_of_length_le
    rwa [List.length_drop]
  rw [hall] at htokens
  rw [h.drain_eq]
  refine Prod.ext htokens ?_
  rcases hdelivered.next with ⟨_, hend, _⟩ | ⟨t, _, ht, _, _⟩
  · exact hend
  · rw [htokens, List.length_drop, List.getElem?_eq_none (by omega)] at ht
    cases ht

theorem state_eq (h : HasDelivered origin count c) {n : Nat}
    (hlt : (origin.steps n).1.length < count) (hle : count ≤ (origin.steps (n + 1)).1.length) :
    c.state = (origin.steps (n + 1)).2.state := by
  obtain ⟨m, hm, _, hscanner⟩ := h
  rw [hm.unique (Scanner.isLeast_steps_succ hlt hle)] at hscanner
  rw [hscanner]
  rfl

end HasDelivered

/-- What is expected of a cursor over a text that has delivered `count` tokens. -/
structure Follows (state : ScanState) (text : List Char) (count : Nat) (c : Cursor) : Prop where
  count_le : count ≤ (classifyFrom state text).1.length
  next_eq : c.next.1 = (classifyFrom state text).1[count]?
  next_of_end : count = (classifyFrom state text).1.length → c.next = (none, c)
  skip_eq : ∀ limit, (c.skip limit).1 = min limit ((classifyFrom state text).1.length - count)
  pull_eq : ∀ limit, (c.pull limit).1 = ((classifyFrom state text).1.drop count).take limit
  pull_eq_drain : ∀ limit, (classifyFrom state text).1.length - count ≤ limit →
    c.pull limit = c.drain
  drain_eq : c.drain = ((classifyFrom state text).1.drop count,
    ⟨[], ⟨(classifyFrom state text).2, byteLength text, []⟩⟩)
  state_least : ∃ n, IsLeast {n | count ≤ ((Scanner.ofText text state).steps n).1.length} n ∧
    c.state = ((Scanner.ofText text state).steps n).2.state
  /-- Between two tokens of one match the state is that behind the match. -/
  state_eq : ∀ n, ((Scanner.ofText text state).steps n).1.length < count →
    count ≤ ((Scanner.ofText text state).steps (n + 1)).1.length →
    c.state = ((Scanner.ofText text state).steps (n + 1)).2.state

theorem HasDelivered.follows {state : ScanState} {text : List Char} {count : Nat} {c : Cursor}
    (h : HasDelivered (.ofText text state) count c) : Follows state text count c where
  count_le := h.count_le
  next_eq := by
    rcases h.next with ⟨hend, _, hnext⟩ | ⟨t, _, ht, hnext, _⟩
    · rw [hnext]
      exact (List.getElem?_eq_none hend.ge).symm
    · rw [hnext]
      exact ht.symm
  next_of_end hend := by
    rcases h.next with ⟨_, _, hnext⟩ | ⟨t, _, ht, _, _⟩
    · exact hnext
    · have hlt := (List.getElem?_eq_some_iff.mp ht).1
      exact absurd hend (Nat.ne_of_lt hlt)
  skip_eq limit := (h.skip limit).1
  pull_eq limit := (h.pull limit).1
  pull_eq_drain _ hlimit := h.pull_eq_drain hlimit
  drain_eq := by
    rw [h.drain_eq, Scanner.run_ofText]
  state_least := by
    obtain ⟨n, hleast, _, hscanner⟩ := h
    refine ⟨n, hleast, ?_⟩
    rw [hscanner]
    rfl
  state_eq _ hlt hle := h.state_eq hlt hle

/-- A cursor with the number of tokens it has delivered, those it passed over among them. -/
structure Counted where
  cursor : Cursor
  delivered : Nat
  deriving DecidableEq

namespace Counted

def next (c : Counted) : Counted :=
  match c.cursor.next with
  | (none, cursor) => ⟨cursor, c.delivered⟩
  | (some _, cursor) => ⟨cursor, c.delivered + 1⟩

def skip (c : Counted) (limit : Nat) : Counted :=
  let (passed, cursor) := c.cursor.skip limit
  ⟨cursor, c.delivered + passed⟩

end Counted

inductive Move
  | next
  | skip (limit : Nat)
  | clone
  | switch (place : Nat)

structure Session where
  current : Counted
  others : List Counted

namespace Session

def ofText (text : List Char) (state : ScanState) : Session :=
  ⟨⟨.ofText text state, 0⟩, []⟩

def cursors (s : Session) : List Counted :=
  s.current :: s.others

def move (s : Session) : Move → Session
  | .next => ⟨s.current.next, s.others⟩
  | .skip limit => ⟨s.current.skip limit, s.others⟩
  | .clone => ⟨s.current, s.others ++ [s.current]⟩
  | .switch place =>
    match s.others[place]? with
    | none => s
    | some other => ⟨other, s.others.set place s.current⟩

def run (s : Session) (moves : List Move) : Session :=
  moves.foldl move s

theorem mem_cursors_move {s : Session} {m : Move} {c : Counted} (hc : c ∈ (s.move m).cursors) :
    c ∈ s.cursors ∨ c = s.current.next ∨ ∃ limit, c = s.current.skip limit := by
  have hothers : ∀ {other}, other ∈ s.others → other ∈ s.cursors := List.mem_cons_of_mem _
  have hcurrent : s.current ∈ s.cursors := List.mem_cons_self
  cases m with
  | next =>
    rcases List.mem_cons.mp hc with hnext | hc
    · exact .inr (.inl hnext)
    · exact .inl (hothers hc)
  | skip limit =>
    rcases List.mem_cons.mp hc with hskip | hc
    · exact .inr (.inr ⟨limit, hskip⟩)
    · exact .inl (hothers hc)
  | clone =>
    left
    rcases List.mem_cons.mp hc with hsame | hc
    · rwa [hsame]
    · rcases List.mem_append.mp hc with hc | hclone
      · exact hothers hc
      · rwa [List.mem_singleton.mp hclone]
  | switch place =>
    left
    simp only [move] at hc
    cases hplace : s.others[place]? with
    | none => rwa [hplace] at hc
    | some other =>
      rw [hplace] at hc
      rcases List.mem_cons.mp hc with htaken | hc
      · rw [htaken]
        exact hothers (List.mem_of_getElem? hplace)
      · rcases List.mem_or_eq_of_mem_set hc with hc | hput
        · exact hothers hc
        · rwa [hput]

theorem hasDelivered_move {origin : Scanner} {s : Session} (m : Move)
    (h : ∀ c ∈ s.cursors, HasDelivered origin c.delivered c.cursor) :
    ∀ c ∈ (s.move m).cursors, HasDelivered origin c.delivered c.cursor := by
  intro c hc
  have hcurrent := h s.current List.mem_cons_self
  rcases mem_cursors_move hc with hc | rfl | ⟨limit, rfl⟩
  · exact h c hc
  · unfold Counted.next
    rcases hcurrent.next with ⟨_, _, hnext⟩ | ⟨t, c', _, hnext, h'⟩
    · rw [hnext]
      exact hcurrent
    · rw [hnext]
      exact h'
  · exact (hcurrent.skip limit).2

theorem hasDelivered_run {origin : Scanner} {s : Session} (moves : List Move)
    (h : ∀ c ∈ s.cursors, HasDelivered origin c.delivered c.cursor) :
    ∀ c ∈ (s.run moves).cursors, HasDelivered origin c.delivered c.cursor := by
  induction moves generalizing s with
  | nil => exact h
  | cons m moves ih => exact ih (hasDelivered_move m h)

/-- However a cursor over a text and its clones are moved in turn, each delivers the tokens of the
text from the first it has not delivered yet, and has the state behind the fewest steps that emit
those it has. -/
theorem follows_classifyFrom (state : ScanState) (text : List Char) (moves : List Move) :
    ∀ c ∈ ((ofText text state).run moves).cursors, Follows state text c.delivered c.cursor := by
  intro c hc
  refine (hasDelivered_run moves ?_ c hc).follows
  intro first hfirst
  obtain rfl := List.mem_singleton.mp hfirst
  exact .zero _

theorem follows_classifyFrom_inside_match :
    ⟨⟨[⟨8, 9, .plainText, .start⟩], ⟨⟨.functionName, [], 0⟩, 9, "main(".toList⟩⟩, 3⟩ ∈
        ((ofText "é */ fn main(".toList (.inMode .comment)).run
          [.skip 3, .clone, .next, .skip 9, .switch 0]).cursors ∧
      Follows (.inMode .comment) "é */ fn main(".toList 3
        ⟨[⟨8, 9, .plainText, .start⟩], ⟨⟨.functionName, [], 0⟩, 9, "main(".toList⟩⟩ := by
  have hmem : (⟨⟨[⟨8, 9, .plainText, .start⟩],
      ⟨⟨.functionName, [], 0⟩, 9, "main(".toList⟩⟩, 3⟩ : Counted) ∈
        ((ofText "é */ fn main(".toList (.inMode .comment)).run
          [.skip 3, .clone, .next, .skip 9, .switch 0]).cursors := by
    decide +kernel
  exact ⟨hmem, follows_classifyFrom _ _ _ _ hmem⟩

end Session

end Cursor

end Highlighter
