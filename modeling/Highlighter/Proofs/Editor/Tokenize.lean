import Highlighter.Proofs.Editor.Runs
import Highlighter.Proofs.Scanner.Chunks
import Highlighter.Proofs.Scanner.Coverage

namespace Highlighter

namespace HostToken

variable {lo hi : Nat} {ts : List HostToken}

theorem Spans.shifted (h : Spans lo hi ts) (offset : Nat) :
    Spans (offset + lo) (offset + hi) (ts.map (·.shifted offset)) := by
  induction h with
  | nil lo => exact .nil _
  | @cons lo hi t ts hstart hlt h ih =>
    have hstart' : (t.shifted offset).start = offset + lo := hstart ▸ Nat.add_comm _ _
    have hstop' : (t.shifted offset).stop = offset + t.stop := Nat.add_comm _ _
    refine .cons hstart' (Nat.add_lt_add_right hlt offset) ?_
    rw [hstop']
    exact ih

theorem mergeRuns_shifted (ts : List HostToken) (offset : Nat) :
    mergeRuns (ts.map (·.shifted offset)) = (mergeRuns ts).map (·.shifted offset) := by
  induction ts with
  | nil => rfl
  | cons t ts ih =>
    rw [List.map_cons, mergeRuns, mergeRuns, ih]
    cases mergeRuns ts with
    | nil => rfl
    | cons u us =>
      simp only [List.map_cons, HostToken.shifted, Nat.add_right_cancel_iff]
      split <;> rfl

end HostToken

open HostToken

theorem Tiles.spans {start : Nat} {text : List Char} {tokens : List Token}
    (h : Tiles start text tokens) (style : Category → Option String) :
    Spans start (start + byteLength text) (tokens.map (ofToken style)) := by
  induction h with
  | nil start => exact .nil start
  | @cons t w text tokens hne hstop h ih =>
    have hpos := Nat.pos_of_ne_zero (mt byteLength_eq_zero.mp hne)
    have hlt : t.start < t.stop := by omega
    rw [byteLength_append, ← Nat.add_assoc, ← hstop]
    exact .cons rfl hlt ih

namespace LineTokenizer

/-- The binding reads a line with the classifier and arranges its tokens alike at every offset. -/
structure Arranges (h : LineTokenizer) (arrange : List Token → List HostToken) : Prop where
  line : ∀ (state : ScanState) (line : List Char),
    h.tokenizeLine state line =
      (arrange (classifyFrom state line).1, (classifyFrom state line).2)
  shifted : ∀ (tokens : List Token) (offset : Nat),
    (arrange tokens).map (·.shifted offset) = arrange (tokens.map (·.shifted offset))

theorem arranges_codeMirror : codeMirror.Arranges (List.map (ofToken Host.codeMirrorStyle)) where
  line _ _ := rfl
  shifted tokens offset := by
    rw [List.map_map, List.map_map]
    rfl

theorem arranges_monaco :
    monaco.Arranges fun tokens ↦ mergeRuns (tokens.map (ofToken Host.monacoScope)) where
  line _ _ := rfl
  shifted tokens offset := by
    rw [← mergeRuns_shifted, List.map_map, List.map_map]
    rfl

namespace Arranges

variable {h : LineTokenizer} {arrange : List Token → List HostToken}

theorem tokenizeLines_last (ha : h.Arranges arrange) (state : ScanState) (offset : Nat)
    {line : List Char} (hne : line ≠ []) (hline : '\n' ∉ line) :
    h.tokenizeLines state (withOffsets offset (lines line)) =
      arrange ((classifyFrom state line).1.map (·.shifted offset)) := by
  rw [lines_of_notMem hline hne, ← ha.shifted, withOffsets, tokenizeLines, ha.line]
  exact List.append_nil _

theorem tokenizeLines_line (ha : h.Arranges arrange) (state : ScanState) (offset : Nat)
    {line : List Char} (rest : List Char) (hline : '\n' ∉ line) :
    h.tokenizeLines state (withOffsets offset (lines (line ++ '\n' :: rest))) =
      arrange ((classifyFrom state (line ++ ['\n'])).1.map (·.shifted offset)) ++
        h.tokenizeLines (classifyFrom state (line ++ ['\n'])).2
          (withOffsets (offset + byteLength (line ++ ['\n'])) (lines rest)) := by
  rw [lines_append_lineFeed hline, ← ha.shifted, withOffsets, tokenizeLines, ha.line]

end Arranges

theorem tokenizeLines_codeMirror (state : ScanState) (offset : Nat) (text : List Char) :
    codeMirror.tokenizeLines state (withOffsets offset (lines text)) =
      ((classifyFrom state text).1.map (·.shifted offset)).map (ofToken Host.codeMirrorStyle) := by
  induction text using lines_induction generalizing state offset with
  | nil => rfl
  | last line hne hline => exact arranges_codeMirror.tokenizeLines_last state offset hne hline
  | line line rest hline ih =>
    rw [arranges_codeMirror.tokenizeLines_line state offset rest hline, ih,
      (classifyFrom_line state offset line rest).1, List.map_append]

theorem runs_line (cut : Nat → Prop) (state : ScanState) (offset : Nat) (line : List Char)
    (hcut : ∀ n, offset < n → n < offset + byteLength line → ¬cut n) :
    Runs cut offset (offset + byteLength line)
      (((classifyFrom state line).1.map (·.shifted offset)).map (ofToken Host.monacoScope))
      (mergeRuns
        (((classifyFrom state line).1.map (·.shifted offset)).map (ofToken Host.monacoScope))) := by
  have hspans := ((tiles_classifyFrom state line).spans Host.monacoScope).shifted offset
  rw [Nat.zero_add, List.map_map] at hspans
  rw [List.map_map]
  exact (runs_mergeRuns hspans).of_forall_not_cut hcut

/-- Lines that follow `before` in a text, read one by one, give runs that end behind every line
feed of the text. -/
theorem runs_tokenizeLines (state : ScanState) (before text : List Char) :
    Runs (BehindLineFeed (before ++ text)) (byteLength before)
      (byteLength before + byteLength text)
      (((classifyFrom state text).1.map (·.shifted (byteLength before))).map (ofToken Host.monacoScope))
      (monaco.tokenizeLines state (withOffsets (byteLength before) (lines text))) := by
  induction text using lines_induction generalizing state before with
  | nil => exact ⟨⟨.nil _, .refl [], fun _ h ↦ by cases h⟩, .nil⟩
  | last line hne hline =>
    rw [arranges_monaco.tokenizeLines_last state _ hne hline]
    refine runs_line _ state _ line fun n hlo hhi ↦ ?_
    have hnot := not_behindLineFeed hline hlo hhi.le []
    rwa [List.append_nil] at hnot
  | line line rest hline ih =>
    rw [arranges_monaco.tokenizeLines_line state _ rest hline, (classifyFrom_line state _ line rest).1,
      List.map_append]
    -- nothing inside the line lies behind a line feed, and the place where the rest begins does
    have hsize : byteLength (line ++ ['\n']) = byteLength line + 1 := byteLength_append line ['\n']
    have hwhole : before ++ (line ++ '\n' :: rest) = before ++ (line ++ ['\n']) ++ rest := by
      simp only [List.append_assoc, List.singleton_append]
    have hfirst := runs_line (BehindLineFeed (before ++ (line ++ '\n' :: rest))) state
      (byteLength before) (line ++ ['\n']) fun n hlo hhi ↦
        not_behindLineFeed hline hlo (by omega) ('\n' :: rest)
    have hlater := ih (classifyFrom state (line ++ ['\n'])).2 (before ++ (line ++ ['\n']))
    rw [← hwhole, byteLength_append before] at hlater
    have hend : byteLength before + byteLength (line ++ '\n' :: rest) =
        byteLength before + byteLength (line ++ ['\n']) + byteLength rest := by
      rw [← byteLength_append, hwhole, byteLength_append, byteLength_append]
    rw [hend]
    refine hfirst.append hlater ⟨before ++ line, rest, ?_, ?_⟩
    · rw [List.append_assoc]
    · rw [hsize, byteLength_append, Nat.add_assoc]

theorem runs_tokenizeDocument (text : List Char) :
    Runs (BehindLineFeed text) 0 (byteLength text) ((classify text).map (ofToken Host.monacoScope))
      (monaco.tokenizeDocument text) := by
  have hruns := runs_tokenizeLines {} [] text
  rwa [List.nil_append, byteLength_nil, Nat.zero_add, Token.map_shifted_zero] at hruns

theorem tokenizeDocument_codeMirror (text : List Char) :
    codeMirror.tokenizeDocument text = (classify text).map (ofToken Host.codeMirrorStyle) := by
  have htokens := tokenizeLines_codeMirror {} 0 text
  rwa [Token.map_shifted_zero] at htokens

theorem spans_classify (style : Category → Option String) (text : List Char) :
    Spans 0 (byteLength text) ((classify text).map (ofToken style)) := by
  have hspans := (tiles_classifyFrom {} text).spans style
  rwa [Nat.zero_add] at hspans

end LineTokenizer

namespace Host

theorem grouping_tokenizeDocument (host : Host) (text : List Char) :
    Grouping (BehindLineFeed text) 0 (byteLength text) ((classify text).map (ofToken host.style))
      (host.tokenizeDocument text) := by
  have hruns := (LineTokenizer.runs_tokenizeDocument text).toGrouping
  cases host with
  | monaco => exact hruns
  | codeMirror =>
    change Grouping _ _ _ _ (LineTokenizer.codeMirror.tokenizeDocument text)
    rw [LineTokenizer.tokenizeDocument_codeMirror]
    refine ⟨LineTokenizer.spans_classify codeMirrorStyle text, .refl _, fun g hg n hcut hinside ↦ ?_⟩
    -- a cut inside a token would lie inside the run the token belongs to
    obtain ⟨t, ht, rfl⟩ := List.mem_map.mp hg
    obtain ⟨r, hr, hstart, hstop, -⟩ := hruns.refines _ (List.mem_map_of_mem ht)
    exact hruns.uncut r hr n hcut ⟨hstart.trans_lt hinside.1, hinside.2.trans_le hstop⟩

theorem exists_part_of_mem_tokenizeDocument {host : Host} {text : List Char} {g : HostToken}
    (hg : g ∈ host.tokenizeDocument text) : ∃ before part after,
      text = before ++ part ++ after ∧ g.start = byteLength before ∧
        g.stop = byteLength before + byteLength part := by
  have hgroups := host.grouping_tokenizeDocument text
  have hspans := LineTokenizer.spans_classify host.style text
  have htiles := tiles_classifyFrom {} text
  obtain ⟨_, hmap, hstart⟩ := hgroups.exists_start hspans hg
  obtain ⟨t, ht, rfl⟩ := List.mem_map.mp hmap
  obtain ⟨before, w, after, htext, -, hbegin, -⟩ := htiles.exists_part ht
  obtain ⟨_, hmap, hstop⟩ := hgroups.exists_stop hspans hg
  obtain ⟨u, hu, rfl⟩ := List.mem_map.mp hmap
  obtain ⟨before', w', after', htext', -, hbegin', hend'⟩ := htiles.exists_part hu
  have hgstart : g.start = byteLength before := by
    rw [← hstart, ← Nat.zero_add (byteLength before)]
    exact hbegin
  have hgstop : g.stop = byteLength (before' ++ w') := by
    rw [← hstop, byteLength_append, ← Nat.zero_add (byteLength before'), ← hbegin']
    exact hend'
  have hlt := (hgroups.spans.bounds hg).2.1
  rw [List.append_assoc] at htext
  obtain ⟨part, hpart, -⟩ := exists_append_of_byteLength_le (htext.symm.trans htext') (by omega)
  rw [hpart] at htext' hgstop
  exact ⟨before, part, after', htext', hgstart, hgstop.trans (byteLength_append _ _)⟩

theorem lineFeed_last_of_mem_tokenizeDocument {host : Host} {text : List Char} {g : HostToken}
    (hg : g ∈ host.tokenizeDocument text) {a b : List Char}
    (hslice : slice text g.start g.stop = a ++ '\n' :: b) : b = [] := by
  obtain ⟨before, part, after, htext, hstart, hstop⟩ := exists_part_of_mem_tokenizeDocument hg
  rw [hstop, hstart, htext, slice_append] at hslice
  have hsize : byteLength part = byteLength a + (1 + byteLength b) := by
    rw [hslice, byteLength_append]
    rfl
  have hcut : BehindLineFeed text (byteLength (before ++ a) + 1) := by
    refine ⟨before ++ a, b ++ after, ?_, rfl⟩
    rw [htext, hslice]
    simp only [List.append_assoc, List.cons_append]
  have huncut := (host.grouping_tokenizeDocument text).uncut g hg _ hcut
  rw [byteLength_append] at huncut
  exact byteLength_eq_zero.mp (by omega)

/-- Both hosts leave the scanner in the state of the classified line. CodeMirror takes the
classified tokens. Monaco takes the coarsest grouping of them by scope: of a line without any cut,
so that two neighbours differ, and of a document with a cut behind every line feed. No token of a
document goes on behind a line feed. A host chosen at run time does what its binding does. -/
theorem tokenize_coarsest :
    (∀ (state : ScanState) (line : List Char),
      codeMirror.tokenizeLine state line = LineTokenizer.codeMirror.tokenizeLine state line ∧
      monaco.tokenizeLine state line = LineTokenizer.monaco.tokenizeLine state line ∧
      (∀ host : Host, (host.tokenizeLine state line).2 = (classifyFrom state line).2) ∧
      (codeMirror.tokenizeLine state line).1 =
        (classifyFrom state line).1.map
          (fun t ↦ ⟨t.start, t.stop, codeMirror.style t.category⟩) ∧
      ((monaco.tokenizeLine state line).1.IsChain fun r u ↦ r.style ≠ u.style) ∧
      ∀ runs, Coarsest (fun _ ↦ False) 0 (byteLength line)
        ((classifyFrom state line).1.map fun t ↦ ⟨t.start, t.stop, monaco.style t.category⟩)
        runs ↔ runs = (monaco.tokenizeLine state line).1) ∧
    ∀ text : List Char,
      codeMirror.tokenizeDocument text = LineTokenizer.codeMirror.tokenizeDocument text ∧
      monaco.tokenizeDocument text = LineTokenizer.monaco.tokenizeDocument text ∧
      codeMirror.tokenizeDocument text =
        (classify text).map (fun t ↦ ⟨t.start, t.stop, codeMirror.style t.category⟩) ∧
      ((monaco.tokenizeDocument text).IsChain fun r u ↦
        r.style = u.style → BehindLineFeed text r.stop) ∧
      (∀ runs, Coarsest (BehindLineFeed text) 0 (byteLength text)
        ((classify text).map fun t ↦ ⟨t.start, t.stop, monaco.style t.category⟩)
        runs ↔ runs = monaco.tokenizeDocument text) ∧
      ∀ host : Host, ∀ g ∈ host.tokenizeDocument text, ∀ before after,
        slice text g.start g.stop = before ++ '\n' :: after → after = [] := by
  constructor
  · intro state line
    have hspans := (tiles_classifyFrom state line).spans monacoScope
    have hruns := runs_mergeRuns hspans
    rw [Nat.zero_add] at hspans hruns
    exact ⟨rfl, rfl, fun host ↦ host.snd_tokenizeLine state line, rfl, hruns.distinct,
      fun _ ↦ hruns.coarsest_iff hspans⟩
  · intro text
    have hruns := LineTokenizer.runs_tokenizeDocument text
    exact ⟨rfl, rfl, LineTokenizer.tokenizeDocument_codeMirror text, hruns.distinct,
      fun _ ↦ hruns.coarsest_iff (LineTokenizer.spans_classify monacoScope text),
      fun _ _ hg _ _ ↦ lineFeed_last_of_mem_tokenizeDocument hg⟩

/-- Two runs of one scope meet behind the line feed of a comment. -/
example : monaco.tokenizeDocument "/*\n*/ x".toList =
    [⟨0, 3, some "comment"⟩, ⟨3, 5, some "comment"⟩, ⟨5, 6, none⟩, ⟨6, 7, some "identifier"⟩] := by
  decide +kernel

end Host

end Highlighter
