import Highlighter.Proofs.Pattern.Closer
import Highlighter.Proofs.Scanner.Coverage
import Highlighter.Proofs.Scanner.Lexeme
import Highlighter.Proofs.Text.Lines

namespace Highlighter

open Grammar

/-- The tokens of the lines of a comment, one for each. The mode of the first is `mode`. -/
def commentLines : Mode → Nat → List (List Char) → List Token
  | _, _, [] => []
  | mode, start, line :: more =>
    let stop := start + byteLength line
    ⟨start, stop, .comment, mode⟩ :: commentLines .comment stop more

/-- `region` is the block comment at the front of the text, and `after` the text behind it. The
comment is closed by the first `*/` behind its `/*`; without one it goes to the end of the text. -/
inductive BlockComment : (text region after : List Char) → (closed : Bool) → Prop
  | closed {body after : List Char} (h : ClosesFirst body after) :
    BlockComment ("/*".toList ++ (body ++ closer ++ after)) ("/*".toList ++ (body ++ closer))
      after true
  | unclosed {body : List Char} (h : ¬ closer <:+: body) :
    BlockComment ("/*".toList ++ body) ("/*".toList ++ body) [] false

/-- The state behind a block comment that begins in mode `start`. -/
def ScanState.afterBlock (s : ScanState) (closed : Bool) : ScanState :=
  if closed then ⟨.start, s.stack, s.depth⟩ else ⟨.comment, .start :: s.stack, s.depth⟩

namespace BlockComment

variable {text region after : List Char} {closed : Bool}

theorem text_eq (h : BlockComment text region after closed) : text = region ++ after := by
  cases h with
  | closed _ => simp only [List.append_assoc]
  | unclosed _ => rw [List.append_nil]

theorem region_ne_nil (h : BlockComment text region after closed) : region ≠ [] := by
  cases h with
  | closed _ => exact List.append_ne_nil_of_left_ne_nil (by simp) _
  | unclosed _ => exact List.append_ne_nil_of_left_ne_nil (by simp) _

theorem after_eq_nil (h : BlockComment text region after false) : after = [] := by
  cases h
  rfl

theorem mode_afterBlock_or (h : BlockComment text region after closed) (s : ScanState) :
    (s.afterBlock closed).mode ≠ .comment ∨ after = [] := by
  cases h with
  | closed _ => exact .inl Mode.noConfusion
  | unclosed _ => exact .inr rfl

end BlockComment

theorem exists_blockComment (more : List Char) :
    ∃ region after closed, BlockComment ("/*".toList ++ more) region after closed := by
  rcases exists_closesFirst_or_not_infix more with ⟨body, after, rfl, hfirst⟩ | hnone
  · exact ⟨_, _, _, .closed hfirst⟩
  · exact ⟨_, _, _, .unclosed hnone⟩

def codeRules : List Rule :=
  wordRules ++ Namespace.all.map reference ++ numberRules ++ [stringRule, callRule] ++
    symbolRules ++ [identifierRule]

theorem startRules_eq : startRules = commentRules ++ codeRules := by
  unfold startRules codeRules
  simp only [List.append_assoc]

section Reads

variable {l eol more body after : List Char}

theorem reads_toCloser (hbody : '\n' ∉ body) (hfirst : NoCloser body (closer ++ after)) :
    Reads insideCommentRules (body ++ closer ++ after)
      (some ⟨[⟨body ++ closer, .comment⟩], some .pop⟩) := by
  have hpattern := Pattern.first?_toCloser (p := Point.atStart (body ++ closer ++ after)) rfl
    hbody hfirst
  have hclose : Reads [whole "block-comment-close" .comment
      (.all [.reluctant anyOnLine, .literal "*/"]) (some .pop)] (body ++ closer ++ after) _ :=
    reads_whole rfl (by simp [closer_eq]) hpattern
  exact hclose.append_left _

theorem reads_restOfLine (hl : '\n' ∉ l) (heol : EndsLine eol more) (hne : l ++ eol ≠ []) :
    Reads [whole "block-comment-line" .comment (.all [.greedy anyOnLine, lineEnd])]
      (l ++ (eol ++ more)) (some ⟨[⟨l ++ eol, .comment⟩], none⟩) :=
  reads_whole (List.append_assoc l eol more).symm hne (Pattern.first?_line rfl hl heol)

theorem reads_commentLine (hl : '\n' ∉ l) (heol : EndsLine eol more) (hne : l ++ eol ≠ [])
    (hnone : NoCloser l (eol ++ more)) :
    Reads insideCommentRules (l ++ (eol ++ more)) (some ⟨[⟨l ++ eol, .comment⟩], none⟩) := by
  have hclose : Reads [whole "block-comment-close" .comment
      (.all [.reluctant anyOnLine, .literal "*/"]) (some .pop)] (l ++ (eol ++ more)) none :=
    reads_whole_none (Pattern.first?_toCloser_eq_none rfl hl heol hnone)
  exact hclose.append (reads_restOfLine hl heol hne)

theorem reads_lineComment (hl : '\n' ∉ l) (hmore : more.head?.any (· != '\n') = false) :
    Reads startRules ("//".toList ++ (l ++ more))
      (some ⟨[⟨"//".toList ++ l, .comment⟩], none⟩) := by
  have hpattern : (Pattern.all [.literal "//", .greedy anyOnLine]).first?
      (Point.atStart ("//".toList ++ (l ++ more))) =
      some ((Point.atStart ("//".toList ++ (l ++ more))).behind ("//".toList ++ l) more) := by
    refine (Pattern.first?_seq_literal rfl _).trans ?_
    exact (Pattern.first?_greedy_one rfl (Pattern.forall_ne_lineFeed hl) hmore).trans
      (by rw [Point.behind_behind])
  have hrule : Reads [whole "line-comment" .comment (.all [.literal "//", .greedy anyOnLine])]
      ("//".toList ++ (l ++ more)) _ :=
    reads_whole (List.append_assoc _ l more).symm (by simp) hpattern
  rw [startRules_eq]
  exact (hrule.append_left _).append_left codeRules

theorem reads_lineComment_none (text : List Char) :
    Reads [whole "line-comment" .comment (.all [.literal "//", .greedy anyOnLine])]
      ("/*".toList ++ text) none := by
  refine reads_whole_none (Pattern.first?_seq_literal_eq_none ?_ _)
  rintro ⟨u, hu⟩
  cases hu

theorem reads_blockClosed (hbody : '\n' ∉ body) (hfirst : NoCloser body (closer ++ after)) :
    Reads startRules ("/*".toList ++ (body ++ closer ++ after))
      (some ⟨[⟨"/*".toList ++ (body ++ closer), .comment⟩], none⟩) := by
  have hpattern : (Pattern.all [.literal "/*", .reluctant anyOnLine, .literal "*/"]).first?
      (Point.atStart ("/*".toList ++ (body ++ closer ++ after))) =
      some ((Point.atStart ("/*".toList ++ (body ++ closer ++ after))).behind
        ("/*".toList ++ (body ++ closer)) after) := by
    refine (Pattern.first?_seq_literal rfl _).trans ?_
    exact (Pattern.first?_toCloser rfl hbody hfirst).trans (by rw [Point.behind_behind])
  have hrule : Reads [whole "block-comment" .comment
      (.all [.literal "/*", .reluctant anyOnLine, .literal "*/"])]
      ("/*".toList ++ (body ++ closer ++ after)) _ :=
    reads_whole (List.append_assoc _ _ after).symm (by simp) hpattern
  rw [startRules_eq]
  exact ((reads_lineComment_none _).append (hrule.append_left _)).append_left codeRules

theorem reads_blockOpen (hl : '\n' ∉ l) (heol : EndsLine eol more)
    (hnone : NoCloser l (eol ++ more)) :
    Reads startRules ("/*".toList ++ (l ++ (eol ++ more)))
      (some ⟨[⟨"/*".toList ++ (l ++ eol), .comment⟩], some (.push .comment)⟩) := by
  have hclosed : Reads [whole "block-comment" .comment
      (.all [.literal "/*", .reluctant anyOnLine, .literal "*/"])]
      ("/*".toList ++ (l ++ (eol ++ more))) none := by
    apply reads_whole_none
    refine (Pattern.first?_seq_literal rfl _).trans ?_
    exact Pattern.first?_toCloser_eq_none rfl hl heol hnone
  have hpattern : (Pattern.all [.literal "/*", .greedy anyOnLine, lineEnd]).first?
      (Point.atStart ("/*".toList ++ (l ++ (eol ++ more)))) =
      some ((Point.atStart ("/*".toList ++ (l ++ (eol ++ more)))).behind
        ("/*".toList ++ (l ++ eol)) more) := by
    refine (Pattern.first?_seq_literal rfl _).trans ?_
    exact (Pattern.first?_line rfl hl heol).trans (by rw [Point.behind_behind])
  have hrule : Reads [whole "block-comment-open" .comment
      (.all [.literal "/*", .greedy anyOnLine, lineEnd]) (some (.push .comment))]
      ("/*".toList ++ (l ++ (eol ++ more))) _ :=
    reads_whole (by simp) (by simp) hpattern
  rw [startRules_eq]
  exact ((reads_lineComment_none _).append (hclosed.append hrule)).append_left codeRules

end Reads

/-- Within a comment the rest of the line is always there to take. -/
theorem find?_comment_ne_none {text : List Char} (htext : text ≠ []) :
    Mode.comment.find? text ≠ none := by
  obtain ⟨l, eol, more, rfl, hl, heol⟩ := exists_endsLine text
  exact Mode.find?_ne_none_of_reads (by simp [Mode.rules, insideCommentRules])
    (reads_restOfLine hl heol (heol.append_ne_nil htext))

namespace Scanner

variable {s : Scanner} {l eol more body after : List Char}

theorem settled_of_comment (hmode : s.state.mode = .comment) : s.settled = s.state :=
  settled_eq_state (by rw [hmode]; rfl)

theorem settled_mode_of_find?_eq_none (hrest : s.rest ≠ [])
    (h : s.settled.mode.find? s.rest = none) : s.settled.mode = .start := by
  rcases settled_cases s with hsettled | ⟨_, hsettled⟩
  · cases hmode : s.settled.mode with
    | start => rfl
    | comment =>
      rw [hmode] at h
      exact absurd h (find?_comment_ne_none hrest)
    | functionName =>
      -- the step would have fallen through to `start`
      have hstart := settled_eq_goto_start (s := s) (by rw [← hsettled, hmode])
        (by rw [← hsettled, h])
      rw [hstart] at hmode
      cases hmode
  · rw [hsettled]
    rfl

theorem step_toCloser (hmode : s.state.mode = .comment) (hrest : s.rest = body ++ closer ++ after)
    (hbody : '\n' ∉ body) (hfirst : NoCloser body (closer ++ after)) :
    s.step = ([⟨s.offset, s.offset + byteLength (body ++ closer), .comment, .comment⟩],
      ⟨s.state.follow .pop, s.offset + byteLength (body ++ closer), after⟩) := by
  have hsettled := settled_of_comment hmode
  have hmode' : s.settled.mode = .comment := by rw [hsettled, hmode]
  have hreads := reads_toCloser hbody hfirst
  have hstep := step_of_reads_one hmode' hrest hreads rfl (by simp [closer_eq])
  rwa [hsettled] at hstep

theorem step_commentLine (hmode : s.state.mode = .comment) (hrest : s.rest = l ++ (eol ++ more))
    (hl : '\n' ∉ l) (heol : EndsLine eol more) (hne : l ++ eol ≠ [])
    (hnone : NoCloser l (eol ++ more)) :
    s.step = ([⟨s.offset, s.offset + byteLength (l ++ eol), .comment, .comment⟩],
      ⟨s.state, s.offset + byteLength (l ++ eol), more⟩) := by
  have hsettled := settled_of_comment hmode
  have hmode' : s.settled.mode = .comment := by rw [hsettled, hmode]
  have hreads := reads_commentLine hl heol hne hnone
  have hstep := step_of_reads_one hmode' hrest hreads (List.append_assoc l eol more).symm hne
  rwa [hsettled] at hstep

theorem emits_lastLine {s' : Scanner} {mode : Mode} (hrest : s.rest ≠ []) (hl : '\n' ∉ l)
    (hne : l ≠ [])
    (hstep : s.step = ([⟨s.offset, s.offset + byteLength l, .comment, mode⟩], s')) :
    s.Emits (commentLines mode s.offset (lines l)) s' := by
  rw [lines_of_notMem hl hne]
  exact .of_step hrest hstep

theorem emits_line {mode : Mode} {state state' : ScanState} {region : List Char}
    (hrest : s.rest ≠ []) (hl : '\n' ∉ l)
    (hstep : s.step = ([⟨s.offset, s.offset + byteLength (l ++ ['\n']), .comment, mode⟩],
      ⟨state, s.offset + byteLength (l ++ ['\n']), more⟩))
    (hlater : (Scanner.mk state (s.offset + byteLength (l ++ ['\n'])) more).Emits
      (commentLines .comment (s.offset + byteLength (l ++ ['\n'])) (lines region))
      ⟨state', s.offset + byteLength (l ++ ['\n']) + byteLength region, after⟩) :
    s.Emits (commentLines mode s.offset (lines (l ++ '\n' :: region)))
      ⟨state', s.offset + byteLength (l ++ '\n' :: region), after⟩ := by
  have hlength : byteLength (l ++ '\n' :: region) =
      byteLength (l ++ ['\n']) + byteLength region := by
    rw [← byteLength_append, List.append_assoc, List.singleton_append]
  rw [lines_append_lineFeed hl, hlength, ← Nat.add_assoc]
  exact (Emits.of_step hrest hstep).trans hlater

theorem emits_toCloser (hmode : s.state.mode = .comment) (hrest : s.rest = body ++ closer ++ after)
    (hfirst : NoCloser body (closer ++ after)) :
    s.Emits (commentLines .comment s.offset (lines (body ++ closer)))
      ⟨s.state.follow .pop, s.offset + byteLength (body ++ closer), after⟩ := by
  have hne : s.rest ≠ [] := by simp [hrest, closer_eq]
  induction body using lineFeed_induction generalizing s with
  | last body hbody =>
    exact emits_lastLine hne (by simp [hbody, closer_eq]) (by simp [closer_eq])
      (step_toCloser hmode hrest hbody hfirst)
  | line l body hl ih =>
    -- this line holds no `*/`, so the mode stays and the rest of the comment follows
    have hrest' : s.rest = l ++ (['\n'] ++ (body ++ closer ++ after)) := by simp [hrest]
    have hnone : NoCloser l (['\n'] ++ (body ++ closer ++ after)) := by
      simpa using hfirst.left
    have hmore : NoCloser body (closer ++ after) := NoCloser.right (a := l ++ ['\n'])
      (by simpa using hfirst)
    have hstep := step_commentLine hmode hrest' hl (.inl rfl) (by simp) hnone
    rw [List.append_assoc, List.cons_append]
    exact emits_line hne hl hstep (ih hmode rfl hmore (by simp [closer_eq]))

theorem emits_toEnd (hmode : s.state.mode = .comment) (hnone : NoCloser s.rest []) :
    s.Emits (commentLines .comment s.offset (lines s.rest))
      ⟨s.state, s.offset + byteLength s.rest, []⟩ := by
  obtain ⟨state, offset, rest⟩ := s
  induction rest using lines_induction generalizing offset with
  | nil => exact .refl _
  | last l hne hl =>
    have hrest : (Scanner.mk state offset l).rest = l ++ ([] ++ []) := by simp
    have hstep := step_commentLine hmode hrest hl (.inr ⟨rfl, rfl⟩) (by simpa using hne) hnone
    rw [List.append_nil] at hstep
    exact emits_lastLine hne hl hne hstep
  | line l body hl ih =>
    have hmore : NoCloser body [] := NoCloser.right (a := l ++ ['\n']) (by simpa using hnone)
    have hrest : (Scanner.mk state offset (l ++ '\n' :: body)).rest = l ++ (['\n'] ++ body) := rfl
    have hstep := step_commentLine hmode hrest hl (.inl rfl) (by simp)
      (by simpa using hnone.left)
    exact emits_line (by simp) hl hstep (ih _ hmode hmore)

theorem settled_of_start (hmode : s.settled.mode = .start) :
    s.settled = ⟨.start, s.state.stack, s.state.depth⟩ := by
  rw [← hmode, ← stack_settled, ← depth_settled]

theorem step_lineComment (hmode : s.settled.mode = .start)
    (hrest : s.rest = "//".toList ++ more) :
    s.step = ([⟨s.offset, s.offset + byteLength ("//".toList ++ more.takeWhile (· != '\n')),
        .comment, .start⟩],
      ⟨⟨.start, s.state.stack, s.state.depth⟩,
        s.offset + byteLength ("//".toList ++ more.takeWhile (· != '\n')),
        more.dropWhile (· != '\n')⟩) := by
  have hline : '\n' ∉ more.takeWhile (· != '\n') := by
    intro hmem
    have := List.all_eq_true.mp List.all_takeWhile _ hmem
    simp at this
  have hreads := reads_lineComment hline (any_head?_dropWhile (· != '\n') more)
  have hrest' : s.rest = "//".toList ++ (more.takeWhile (· != '\n') ++
      more.dropWhile (· != '\n')) := by
    rw [List.takeWhile_append_dropWhile, hrest]
  have hstep := step_of_reads_one hmode hrest' hreads (List.append_assoc _ _ _).symm (by simp)
  rw [settled_of_start hmode] at hstep
  exact hstep

theorem step_blockClosed (hmode : s.settled.mode = .start)
    (hrest : s.rest = "/*".toList ++ (body ++ closer ++ after)) (hbody : '\n' ∉ body)
    (hfirst : NoCloser body (closer ++ after)) :
    s.step = ([⟨s.offset, s.offset + byteLength ("/*".toList ++ (body ++ closer)), .comment,
        .start⟩],
      ⟨s.state.afterBlock true, s.offset + byteLength ("/*".toList ++ (body ++ closer)),
        after⟩) := by
  have hreads := reads_blockClosed hbody hfirst
  have hstep := step_of_reads_one hmode hrest hreads (List.append_assoc _ _ after).symm
    (by simp)
  rw [settled_of_start hmode] at hstep
  exact hstep

theorem step_blockOpen (hmode : s.settled.mode = .start)
    (hrest : s.rest = "/*".toList ++ (l ++ (eol ++ more))) (hl : '\n' ∉ l)
    (heol : EndsLine eol more) (hnone : NoCloser l (eol ++ more)) :
    s.step = ([⟨s.offset, s.offset + byteLength ("/*".toList ++ l ++ eol), .comment, .start⟩],
      ⟨s.state.afterBlock false, s.offset + byteLength ("/*".toList ++ l ++ eol), more⟩) := by
  have hreads := reads_blockOpen hl heol hnone
  rw [← List.append_assoc "/*".toList l eol] at hreads
  have hsplit : "/*".toList ++ (l ++ (eol ++ more)) = "/*".toList ++ l ++ eol ++ more := by
    simp only [List.append_assoc]
  have hstep := step_of_reads_one hmode hrest hreads hsplit (by simp)
  rw [settled_of_start hmode] at hstep
  exact hstep

/-- From `/*` on, the steps read the comment line by line. -/
theorem emits_block {region : List Char} {closed : Bool} (hmode : s.settled.mode = .start)
    (h : BlockComment s.rest region after closed) :
    s.Emits (commentLines .start s.offset (lines region))
      ⟨s.state.afterBlock closed, s.offset + byteLength region, after⟩ := by
  generalize hrest : s.rest = text at h
  cases h with
  | @closed body after hfirst =>
    have hne : s.rest ≠ [] := by simp [hrest]
    by_cases hbody : '\n' ∈ body
    · obtain ⟨l, body, rfl, hl⟩ := List.eq_append_cons_of_mem hbody
      have hcloser := hfirst.noCloser
      have hrest' : s.rest = "/*".toList ++ (l ++ (['\n'] ++ (body ++ closer ++ after))) := by
        simp [hrest]
      have hstep := step_blockOpen hmode hrest' hl (.inl rfl) (by simpa using hcloser.left)
      have hlater := emits_toCloser (s := ⟨s.state.afterBlock false,
        s.offset + byteLength ("/*".toList ++ l ++ ['\n']), body ++ closer ++ after⟩) rfl rfl
        (NoCloser.right (a := l ++ ['\n']) (by simpa using hcloser))
      have hall := emits_line hne (by simp [hl]) hstep hlater
      have hregion : "/*".toList ++ l ++ '\n' :: (body ++ closer) =
          "/*".toList ++ (l ++ '\n' :: body ++ closer) := by simp
      rw [hregion] at hall
      exact hall
    · have hstep := step_blockClosed hmode hrest hbody hfirst.noCloser
      exact emits_lastLine hne (by simp [hbody, closer_eq]) (by simp) hstep
  | @unclosed body hnone =>
    have hne : s.rest ≠ [] := by simp [hrest]
    have hcloser := noCloser_of_not_infix hnone
    by_cases hbody : '\n' ∈ body
    · obtain ⟨l, body, rfl, hl⟩ := List.eq_append_cons_of_mem hbody
      have hrest' : s.rest = "/*".toList ++ (l ++ (['\n'] ++ body)) := hrest
      have hstep := step_blockOpen hmode hrest' hl (.inl rfl) (by simpa using hcloser.left)
      have hlater := emits_toEnd (s := ⟨s.state.afterBlock false,
        s.offset + byteLength ("/*".toList ++ l ++ ['\n']), body⟩) rfl
        (NoCloser.right (a := l ++ ['\n']) (by simpa using hcloser))
      have hall := emits_line hne (by simp [hl]) hstep hlater
      rw [List.append_assoc] at hall
      exact hall
    · have hrest' : s.rest = "/*".toList ++ (body ++ ([] ++ [])) := by simp [hrest]
      have hstep := step_blockOpen hmode hrest' hbody (.inr ⟨rfl, rfl⟩) (by simpa using hcloser)
      rw [List.append_nil] at hstep
      exact emits_lastLine hne (by simp [hbody]) (by simp) hstep

end Scanner

end Highlighter
