import Highlighter.Proofs.Pattern.Line
import Highlighter.Proofs.Scanner.Steps
import Highlighter.Proofs.Text.Lines

namespace Highlighter

/-- Whether a line feed, where a match of the pieces takes one, is the last character it takes. -/
def piecesEndLine : List Piece → Bool
  | [] => true
  | [piece] => piece.pattern.endsLine
  | piece :: pieces => !piece.pattern.reads '\n' && piecesEndLine pieces

theorem piecesEndLine_rules (mode : Mode) :
    ∀ rule ∈ mode.rules, piecesEndLine rule.pieces = true := by
  cases mode <;> decide +kernel

theorem cutsOf_extend {pieces : List Piece} (hline : piecesEndLine pieces = true)
    (more : List Char) {p : Point} (hp : p.rest.getLast? = some '\n') :
    cutsOf pieces (p.extend more) = (cutsOf pieces p).map (·.map (·.extend more)) := by
  induction pieces generalizing p with
  | nil => rfl
  | cons piece pieces ih =>
    cases pieces with
    | nil =>
      simp only [cutsOf, Pattern.ends_extend_of_endsLine hline more hp, List.flatMap_map,
        List.map_flatMap]
      rfl
    | cons piece' pieces =>
      simp only [piecesEndLine, Bool.and_eq_true, Bool.not_eq_true'] at hline
      rw [cutsOf, cutsOf, Pattern.ends_extend hline.1 more hp, List.flatMap_map,
        List.map_flatMap]
      apply List.flatMap_congr
      intro q hq
      have hq' := Pattern.getLast?_rest_of_mem_ends hline.1 hp hq
      rw [ih hline.2 hq', List.map_map, List.map_map]
      rfl

namespace RuleMatch

def extend (more : List Char) (m : RuleMatch) : RuleMatch :=
  ⟨m.rule, m.cuts.map (·.extend more)⟩

theorem finish_extend (m : RuleMatch) (more text : List Char) :
    (m.extend more).finish (text ++ more) = (m.finish text).extend more := by
  unfold finish extend
  rw [List.getLast?_map]
  cases m.cuts.getLast? <;> rfl

theorem groupsOf_extend (done : Nat) (more : List Char) (pieces : List Piece)
    (cuts : List Point) :
    groupsOf done (pieces.zip (cuts.map (·.extend more))) = groupsOf done (pieces.zip cuts) := by
  induction pieces generalizing cuts done with
  | nil => rfl
  | cons piece pieces ih =>
    cases cuts with
    | nil => rfl
    | cons cut cuts =>
      simp only [List.map_cons, List.zip_cons_cons, groupsOf, ih]
      rfl

theorem length_extend (m : RuleMatch) (more : List Char) : (m.extend more).length = m.length := by
  unfold length extend
  rw [List.getLast?_map, Option.map_map]
  rfl

theorem tokens_extend (m : RuleMatch) (more : List Char) (mode : Mode) (base : Nat) :
    (m.extend more).tokens mode base = m.tokens mode base := by
  rw [tokens, length_extend, extend, groupsOf_extend]
  rfl

theorem spanTokens_shifted (mode : Mode) (base start stop offset : Nat) (category : Category) :
    spanTokens mode (base + offset) start stop category =
      (spanTokens mode base start stop category).map (·.shifted offset) := by
  unfold spanTokens
  split
  · simp only [List.map_cons, List.map_nil, Token.shifted, Nat.add_right_comm]
  · rfl

theorem groupTokens_shifted (mode : Mode) (base stop done offset : Nat) (groups : List Group) :
    groupTokens mode (base + offset) stop done groups =
      (groupTokens mode base stop done groups).map (·.shifted offset) := by
  fun_induction groupTokens mode base stop done groups with
  | case1 done => exact spanTokens_shifted mode base done stop offset .plainText
  | case2 done category more ih => exact ih
  | case3 done first last category more ih =>
    rw [groupTokens, ih, spanTokens_shifted, spanTokens_shifted, List.map_append, List.map_append]

theorem tokens_shifted (m : RuleMatch) (mode : Mode) (base offset : Nat) :
    m.tokens mode (base + offset) = (m.tokens mode base).map (·.shifted offset) :=
  groupTokens_shifted mode base m.length 0 offset _

end RuleMatch

theorem Rule.match?_extend {rule : Rule} (hline : piecesEndLine rule.pieces = true)
    (more : List Char) {text : List Char} (htext : text.getLast? = some '\n') :
    rule.match? (text ++ more) = (rule.match? text).map (·.extend more) := by
  have hstart : Point.atStart (text ++ more) = (Point.atStart text).extend more := rfl
  have hcuts := cutsOf_extend hline more (p := Point.atStart text) htext
  unfold match?
  rw [hstart, hcuts]
  cases cutsOf rule.pieces (Point.atStart text) with
  | nil => rfl
  | cons cuts others =>
    have hfinish := RuleMatch.finish_extend ⟨rule, cuts⟩ more text
    simp only [RuleMatch.extend] at hfinish
    simp only [List.map_cons, hfinish, Point.offset_extend]
    split <;> rfl

theorem Mode.find?_extend (mode : Mode) (more : List Char) {text : List Char}
    (htext : text.getLast? = some '\n') :
    mode.find? (text ++ more) = (mode.find? text).map (·.extend more) := by
  have hrules := piecesEndLine_rules mode
  unfold Mode.find?
  generalize mode.rules = rules at hrules
  induction rules with
  | nil => rfl
  | cons rule rules ih =>
    have hrule := Rule.match?_extend (hrules rule List.mem_cons_self) more htext
    have hlater := ih fun rule h ↦ hrules rule (List.mem_cons_of_mem _ h)
    rw [List.findSome?_cons, List.findSome?_cons, hrule, hlater]
    cases rule.match? text <;> rfl

theorem ScanState.settle_extend (limit : Nat) (s : ScanState) (more : List Char)
    {text : List Char} (htext : text.getLast? = some '\n') :
    s.settle limit (text ++ more) =
      ((s.settle limit text).1, (s.settle limit text).2.map (·.extend more)) := by
  induction limit generalizing s with
  | zero => simp only [settle, s.mode.find?_extend more htext]
  | succ limit ih =>
    simp only [settle, s.mode.find?_extend more htext]
    cases s.mode.find? text with
    | some m => rfl
    | none =>
      cases s.mode.fallThrough with
      | none => rfl
      | some t => exact ih _

theorem ScanState.nestAll_shifted (s : ScanState) (tokens : List Token) (offset : Nat) :
    s.nestAll (tokens.map (·.shifted offset)) = s.nestAll tokens :=
  List.foldl_map

namespace Scanner

def extend (more : List Char) (s : Scanner) : Scanner :=
  ⟨s.state, s.offset, s.rest ++ more⟩

def shifted (offset : Nat) (s : Scanner) : Scanner :=
  ⟨s.state, s.offset + offset, s.rest⟩

theorem settled_extend {s : Scanner} (more : List Char) (hs : s.rest.getLast? = some '\n') :
    (s.extend more).settled = s.settled := by
  unfold settled extend
  rw [ScanState.settle_extend fallLimit s.state more hs]

theorem step_extend {s : Scanner} (more : List Char) (hs : s.rest.getLast? = some '\n') :
    (s.extend more).step = (s.step.1, s.step.2.extend more) := by
  have hsettled := settled_extend more hs
  have hfind := s.settled.mode.find?_extend more hs
  cases hrest : s.rest with
  | nil => simp [hrest] at hs
  | cons c cs =>
    have hne : s.rest ≠ [] := by simp [hrest]
    have hne' : (s.extend more).rest ≠ [] := by simp [extend, hrest]
    cases hm : s.settled.mode.find? s.rest with
    | none =>
      have hrest' : (s.extend more).rest = c :: (cs ++ more) := by simp [extend, hrest]
      rw [hm] at hfind
      rw [step_of_find?_eq_none hrest hm,
        step_of_find?_eq_none hrest' (by rw [hsettled]; exact hfind), hsettled]
      rfl
    | some m =>
      rw [hm] at hfind
      rw [step_of_find?_eq_some hne hm,
        step_of_find?_eq_some hne' (by rw [hsettled]; exact hfind), hsettled]
      have hfinish : (m.extend more).finish (s.extend more).rest =
          (m.finish s.rest).extend more := m.finish_extend more s.rest
      simp only [hfinish, RuleMatch.tokens_extend]
      rfl

theorem step_shifted (s : Scanner) (offset : Nat) :
    (s.shifted offset).step = (s.step.1.map (·.shifted offset), s.step.2.shifted offset) := by
  have hsettled : (s.shifted offset).settled = s.settled := rfl
  cases hrest : s.rest with
  | nil =>
    obtain ⟨state, base, rest⟩ := s
    obtain rfl : rest = [] := hrest
    rfl
  | cons c cs =>
    have hne : s.rest ≠ [] := by simp [hrest]
    cases hm : s.settled.mode.find? s.rest with
    | none =>
      rw [step_of_find?_eq_none hrest hm,
        step_of_find?_eq_none (s := s.shifted offset) hrest hm, hsettled]
      simp only [List.map_cons, List.map_nil, shifted, Token.shifted, Nat.add_right_comm]
    | some m =>
      rw [step_of_find?_eq_some hne hm,
        step_of_find?_eq_some (s := s.shifted offset) hne hm, hsettled]
      simp only [shifted, RuleMatch.tokens_shifted, ScanState.nestAll_shifted,
        Nat.add_right_comm]

theorem Emits.extend {s s' : Scanner} {tokens : List Token} (h : s.Emits tokens s')
    (more : List Char) (hs : s.rest = [] ∨ s.rest.getLast? = some '\n') :
    (s.extend more).Emits tokens (s'.extend more) := by
  induction h with
  | refl s => exact .refl _
  | @step s s' tokens hrest h ih =>
    have hline := hs.resolve_left hrest
    have hne : (s.extend more).rest ≠ [] := by simp [Scanner.extend, hrest]
    have hstep := step_extend more hline
    obtain ⟨w, _, hw, _⟩ := exists_step s hrest
    have hnext : s.step.2.rest = [] ∨ s.step.2.rest.getLast? = some '\n' := by
      by_cases hnil : s.step.2.rest = []
      · exact .inl hnil
      · rw [hw, List.getLast?_append_of_ne_nil _ hnil] at hline
        exact .inr hline
    have hlater : (s.extend more).step.2.Emits tokens (s'.extend more) := by
      rw [hstep]
      exact ih hnext
    have hmore := Emits.step hne hlater
    rwa [hstep] at hmore

theorem run_shifted (s : Scanner) (offset : Nat) :
    (s.shifted offset).run = (s.run.1.map (·.shifted offset), s.run.2.shifted offset) := by
  induction s using step_induction with
  | stop s hrest =>
    rw [run_of_rest_eq_nil hrest, run_of_rest_eq_nil (s := s.shifted offset) hrest]
    rfl
  | step s hrest ih =>
    rw [run_eq_step hrest, run_eq_step (s := s.shifted offset) hrest, step_shifted, ih,
      List.map_append]

end Scanner

theorem classifyFrom_append (state : ScanState) {a : List Char} (b : List Char)
    (ha : a = [] ∨ a.getLast? = some '\n') :
    classifyFrom state (a ++ b) =
      ((classifyFrom state a).1 ++
          (classifyFrom (classifyFrom state a).2 b).1.map (·.shifted (byteLength a)),
        (classifyFrom (classifyFrom state a).2 b).2) := by
  have hfirst := ((Scanner.ofText a state).emits_run.extend b ha).run_eq
  have hlater : (Scanner.mk (classifyFrom state a).2 (byteLength a) []).extend b =
      (Scanner.ofText b (classifyFrom state a).2).shifted (byteLength a) := by
    simp [Scanner.extend, Scanner.shifted, Scanner.ofText]
  rw [Scanner.run_ofText, hlater, Scanner.run_shifted, Scanner.run_ofText] at hfirst
  have hwhole := Scanner.run_ofText (a ++ b) state
  have hstart : Scanner.ofText (a ++ b) state = (Scanner.ofText a state).extend b := rfl
  rw [hstart, hfirst] at hwhole
  obtain ⟨htokens, hfinal⟩ := Prod.mk.inj hwhole
  exact Prod.ext htokens.symm (congrArg Scanner.state hfinal).symm

theorem Token.shifted_shifted (t : Token) (m n : Nat) :
    (t.shifted m).shifted n = t.shifted (n + m) := by
  simp only [shifted, Nat.add_assoc, Nat.add_comm m]

theorem Token.map_shifted_zero (tokens : List Token) : tokens.map (·.shifted 0) = tokens :=
  List.map_id tokens

/-- A first line ends with its line feed, and what follows is read from the state it leaves. -/
theorem classifyFrom_line (state : ScanState) (offset : Nat) (line rest : List Char) :
    (classifyFrom state (line ++ '\n' :: rest)).1.map (·.shifted offset) =
        (classifyFrom state (line ++ ['\n'])).1.map (·.shifted offset) ++
          (classifyFrom (classifyFrom state (line ++ ['\n'])).2 rest).1.map
            (·.shifted (offset + byteLength (line ++ ['\n']))) ∧
      (classifyFrom state (line ++ '\n' :: rest)).2 =
        (classifyFrom (classifyFrom state (line ++ ['\n'])).2 rest).2 := by
  have hline : line ++ ['\n'] = [] ∨ (line ++ ['\n']).getLast? = some '\n' := by simp
  have happend := classifyFrom_append state rest hline
  rw [List.append_assoc, List.singleton_append] at happend
  rw [happend, List.map_append, List.map_map]
  refine ⟨?_, rfl⟩
  congr 1
  exact List.map_congr_left fun t _ ↦ t.shifted_shifted _ _

def stateAfter (state : ScanState) (read : List ClassifiedLine) : ScanState :=
  (read.getLast?.map (·.state)).getD state

theorem stateAfter_cons (state : ScanState) (line : ClassifiedLine)
    (read : List ClassifiedLine) :
    stateAfter state (line :: read) = stateAfter line.state read := by
  unfold stateAfter
  rw [List.getLast?_cons]
  cases read.getLast? <;> rfl

theorem classifyLinesFrom_eq (state : ScanState) (offset : Nat) (text : List Char) :
    (classifyLinesFrom state (withOffsets offset (lines text))).flatMap (·.tokens) =
        (classifyFrom state text).1.map (·.shifted offset) ∧
      stateAfter state (classifyLinesFrom state (withOffsets offset (lines text))) =
        (classifyFrom state text).2 := by
  induction text using lines_induction generalizing state offset with
  | nil => exact ⟨rfl, rfl⟩
  | last l hne hl =>
    rw [lines_of_notMem hl hne]
    exact ⟨List.append_nil _, rfl⟩
  | line l rest hl ih =>
    obtain ⟨hline, hfinal⟩ := classifyFrom_line state offset l rest
    obtain ⟨htokens, hstate⟩ :=
      ih (classifyFrom state (l ++ ['\n'])).2 (offset + byteLength (l ++ ['\n']))
    rw [lines_append_lineFeed hl, hline, hfinal]
    constructor
    · simp only [withOffsets, classifyLinesFrom, List.flatMap_cons, htokens]
    · rw [withOffsets, classifyLinesFrom, stateAfter_cons]
      exact hstate

/-- Reading a text in two pieces, cut after a line feed, or line by line gives the tokens and the
state of reading it whole. -/
theorem classifyFrom_in_chunks :
    (∀ (state : ScanState) (a b : List Char), a = [] ∨ a.getLast? = some '\n' →
      classifyFrom state (a ++ b) =
        ((classifyFrom state a).1 ++
            (classifyFrom (classifyFrom state a).2 b).1.map (·.shifted (byteLength a)),
          (classifyFrom (classifyFrom state a).2 b).2)) ∧
    ∀ (state : ScanState) (text : List Char),
      (classifyLines state text).flatMap (·.tokens) = (classifyFrom state text).1 ∧
        stateAfter state (classifyLines state text) = (classifyFrom state text).2 := by
  refine ⟨fun state a b ha ↦ classifyFrom_append state b ha, fun state text ↦ ?_⟩
  obtain ⟨htokens, hstate⟩ := classifyLinesFrom_eq state 0 text
  refine ⟨?_, hstate⟩
  have hzero : (fun t : Token ↦ t.shifted 0) = id := rfl
  rw [hzero, List.map_id] at htokens
  exact htokens

theorem classifyFrom_open_comment_in_chunks :
    ("é[ /* a\n".toList = [] ∨ "é[ /* a\n".toList.getLast? = some '\n') ∧
      classifyFrom ⟨.start, [.comment], 3⟩ ("é[ /* a\n".toList ++ "]b */ c".toList) =
        ((classifyFrom ⟨.start, [.comment], 3⟩ "é[ /* a\n".toList).1 ++
          (classifyFrom ⟨.comment, [.start, .comment], 4⟩ "]b */ c".toList).1.map (·.shifted 9),
        ⟨.start, [.comment], 4⟩) := by
  have hline : "é[ /* a\n".toList = [] ∨ "é[ /* a\n".toList.getLast? = some '\n' :=
    .inr (by decide)
  have hfirst : (classifyFrom ⟨.start, [.comment], 3⟩ "é[ /* a\n".toList).2 =
      ⟨.comment, [.start, .comment], 4⟩ := by
    decide +kernel
  have hlast : (classifyFrom ⟨.comment, [.start, .comment], 4⟩ "]b */ c".toList).2 =
      ⟨.start, [.comment], 4⟩ := by
    decide +kernel
  refine ⟨hline, ?_⟩
  rw [classifyFrom_in_chunks.1 ⟨.start, [.comment], 3⟩ _ "]b */ c".toList hline, hfirst, hlast]
  rfl

end Highlighter
