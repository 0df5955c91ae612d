import Highlighter.Proofs.Pattern.Start
import Highlighter.Proofs.Pattern.Place
import Highlighter.Proofs.Scanner.Steps

namespace Highlighter

structure Lexeme where
  text : List Char
  category : Category
  deriving DecidableEq

def spelled (lexemes : List Lexeme) : List Char :=
  lexemes.flatMap (·.text)

def layOut (mode : Mode) : Nat → List Lexeme → List Token
  | _, [] => []
  | start, l :: more =>
    let stop := start + byteLength l.text
    ⟨start, stop, l.category, mode⟩ :: layOut mode stop more

/-- What a match makes of the text: the lexemes of its pieces and a change of mode. -/
structure Reading where
  lexemes : List Lexeme
  transition : Option Transition := none
  deriving DecidableEq

@[simp]
theorem spelled_nil : spelled [] = [] := rfl

@[simp]
theorem spelled_cons (l : Lexeme) (more : List Lexeme) :
    spelled (l :: more) = l.text ++ spelled more :=
  List.flatMap_cons

theorem exists_lexeme_of_mem_layOut {mode : Mode} {start : Nat} {lexemes : List Lexeme} {t : Token}
    (h : t ∈ layOut mode start lexemes) : ∃ l ∈ lexemes, t.category = l.category := by
  induction lexemes generalizing start with
  | nil => cases h
  | cons l more ih =>
    rcases List.mem_cons.mp h with rfl | h
    · exact ⟨l, List.mem_cons_self, rfl⟩
    · obtain ⟨l', hl', hsame⟩ := ih h
      exact ⟨l', List.mem_cons_of_mem l hl', hsame⟩

def cutsAlong (after : List Char) : Point → List Lexeme → List Point
  | _, [] => []
  | p, l :: more =>
    let q := p.behind l.text (spelled more ++ after)
    q :: cutsAlong after q more

theorem getLast?_cutsAlong {after : List Char} {p : Point} {lexemes : List Lexeme}
    (hrest : p.rest = spelled lexemes ++ after) :
    (cutsAlong after p lexemes).getLast?.getD p = p.behind (spelled lexemes) after := by
  induction lexemes generalizing p with
  | nil =>
    rw [spelled_nil, List.nil_append] at hrest
    rw [← hrest]
    rfl
  | cons l more ih =>
    have hlater := ih (p := p.behind l.text (spelled more ++ after)) rfl
    rw [Point.behind_behind] at hlater
    rw [cutsAlong, List.getLast?_cons, Option.getD_some, spelled_cons]
    exact hlater

theorem pieceTokens_cutsAlong {mode : Mode} {base : Nat} {after : List Char} {p : Point}
    {pieces : List Piece} {lexemes : List Lexeme}
    (hcategory : pieces.map (·.category) = lexemes.map (·.category))
    (hne : ∀ l ∈ lexemes, l.text ≠ []) :
    RuleMatch.pieceTokens mode base p.offset (pieces.zip (cutsAlong after p lexemes)) =
      layOut mode (base + p.offset) lexemes := by
  induction lexemes generalizing pieces p with
  | nil =>
    rw [List.map_nil, List.map_eq_nil_iff] at hcategory
    rw [hcategory]
    rfl
  | cons l more ih =>
    cases pieces with
    | nil => cases hcategory
    | cons piece pieces =>
      obtain ⟨hfirst, hlater⟩ : piece.category = l.category ∧ _ := List.cons.inj hcategory
      have hlength : byteLength l.text ≠ 0 := mt byteLength_eq_zero.mp (hne l List.mem_cons_self)
      have hpos : p.offset < (p.behind l.text (spelled more ++ after)).offset := by
        rw [Point.offset_behind]
        omega
      have hmore := ih (p := p.behind l.text (spelled more ++ after)) hlater
        fun l hl ↦ hne l (List.mem_cons_of_mem _ hl)
      rw [cutsAlong, List.zip_cons_cons, RuleMatch.pieceTokens, RuleMatch.spanTokens, if_pos hpos,
        hmore, layOut, Point.offset_behind, Nat.add_assoc, hfirst, List.singleton_append]

structure RuleMatch.Gives (m : RuleMatch) (text : List Char) (reading : Reading) : Prop where
  transition : m.rule.transition = reading.transition
  tokens : ∀ mode base, m.tokens mode base = layOut mode base reading.lexemes
  finish : ∃ after, text = spelled reading.lexemes ++ after ∧
    m.finish text = (Point.atStart text).behind (spelled reading.lexemes) after

/-- The first of the rules that matches at the front of the text gives the reading, or no rule
matches. -/
def Reads (rules : List Rule) (text : List Char) : Option Reading → Prop
  | none => rules.findSome? (·.match? text) = none
  | some reading =>
    ∃ m, rules.findSome? (·.match? text) = some m ∧ m.Gives text reading

section Rules

variable {rule : Rule} {rules : List Rule} {text after : List Char} {reading : Reading}

theorem reads_singleton_of_cuts (htext : text = spelled reading.lexemes ++ after)
    (hcuts : (cutsOf rule.pieces (Point.atStart text)).head? =
      some (cutsAlong after (Point.atStart text) reading.lexemes))
    (hcategory : rule.pieces.map (·.category) = reading.lexemes.map (·.category))
    (hne : ∀ l ∈ reading.lexemes, l.text ≠ []) (hspelled : spelled reading.lexemes ≠ [])
    (htransition : rule.transition = reading.transition) :
    Reads [rule] text (some reading) := by
  have hlast : (cutsAlong after (Point.atStart text) reading.lexemes).getLast?.getD
      (Point.atStart text) = (Point.atStart text).behind (spelled reading.lexemes) after :=
    getLast?_cutsAlong htext
  have hlength : byteLength (spelled reading.lexemes) ≠ 0 := mt byteLength_eq_zero.mp hspelled
  refine ⟨⟨rule, cutsAlong after (Point.atStart text) reading.lexemes⟩, ?_, htransition, ?_, ?_⟩
  · obtain ⟨others, hothers⟩ := List.head?_eq_some_iff.mp hcuts
    have hoffset : ((cutsAlong after (Point.atStart text) reading.lexemes).getLast?.getD
        (Point.atStart text)).offset ≠ 0 := by
      rw [hlast, Point.offset_behind]
      omega
    rw [List.findSome?_singleton, Rule.match?, hothers]
    exact if_neg hoffset
  · intro mode base
    rw [RuleMatch.tokens_eq_pieceTokens (List.mem_of_head? hcuts)]
    exact pieceTokens_cutsAlong (p := Point.atStart text) hcategory hne
  · exact ⟨after, htext, hlast⟩

theorem reads_singleton_none (hcuts : cutsOf rule.pieces (Point.atStart text) = []) :
    Reads [rule] text none := by
  change List.findSome? _ _ = none
  rw [List.findSome?_singleton, Rule.match?, hcuts]

theorem reads_of_refuses {c : Char} (h : rules.all (·.refuses c) = true) (text : List Char) :
    Reads rules (c :: text) none :=
  findSome?_of_refuses h text

theorem Reads.append_left (h : Reads rules text (some reading)) (rules' : List Rule) :
    Reads (rules ++ rules') text (some reading) := by
  obtain ⟨m, hm, hgives⟩ := h
  refine ⟨m, ?_, hgives⟩
  rw [List.findSome?_append, hm, Option.some_or]

theorem Reads.append {rules' : List Rule} {reading? reading?' : Option Reading}
    (h : Reads rules text reading?) (h' : Reads rules' text reading?') :
    Reads (rules ++ rules') text (reading?.or reading?') := by
  cases reading? with
  | some reading => exact h.append_left rules'
  | none =>
    change rules.findSome? _ = none at h
    rw [Option.none_or]
    unfold Reads
    rw [List.findSome?_append, h]
    exact h'

theorem Mode.find?_ne_none_of_reads {mode : Mode} (hrule : rule ∈ mode.rules)
    (h : Reads [rule] text (some reading)) : mode.find? text ≠ none := by
  obtain ⟨m, hm, _⟩ := h
  intro hnone
  have hnone' : rule.match? text = none := List.findSome?_eq_none_iff.mp hnone rule hrule
  rw [List.findSome?_singleton, hnone'] at hm
  cases hm

/-- A rule that reads on a condition goes before the rules that read otherwise. -/
theorem Reads.ite_cons {c : Prop} [Decidable c] {reading' : Reading}
    (h : Reads [rule] text (if c then some reading else none))
    (h' : ¬ c → Reads rules text (some reading')) :
    Reads (rule :: rules) text (some (if c then reading else reading')) := by
  by_cases hc : c
  · rw [if_pos hc] at h ⊢
    exact h.append_left rules
  · rw [if_neg hc] at h ⊢
    exact h.append (h' hc)

end Rules

section Whole

open Grammar

variable {name : String} {category : Category} {pattern : Pattern} {transition : Option Transition}
variable {text v after : List Char}

theorem head?_cutsOf_singleton (piece : Piece) (p : Point) :
    (cutsOf [piece] p).head? = (piece.pattern.first? p).map ([·]) := by
  unfold Pattern.first?
  cases h : piece.pattern.ends p <;> simp [cutsOf, h]

theorem cutsOf_whole_of_first? (h : pattern.first? (Point.atStart text) = none) :
    cutsOf (whole name category pattern transition).pieces (Point.atStart text) = [] := by
  rw [← List.head?_eq_none_iff]
  exact (head?_cutsOf_singleton _ _).trans (by rw [h]; rfl)

theorem reads_whole_none (h : pattern.first? (Point.atStart text) = none) :
    Reads [whole name category pattern transition] text none :=
  reads_singleton_none (cutsOf_whole_of_first? h)

theorem reads_whole (htext : text = v ++ after) (hv : v ≠ [])
    (h : pattern.first? (Point.atStart text) = some ((Point.atStart text).behind v after)) :
    Reads [whole name category pattern transition] text
      (some ⟨[⟨v, category⟩], transition⟩) := by
  have hspelled : spelled [⟨v, category⟩] = v := by simp
  have htext' : text = spelled [⟨v, category⟩] ++ after := by
    rw [hspelled]
    exact htext
  refine reads_singleton_of_cuts htext' ?_ rfl ?_ (by rw [hspelled]; exact hv) rfl
  · exact (head?_cutsOf_singleton _ _).trans (by rw [h]; rfl)
  · intro l hl
    rw [List.mem_singleton.mp hl]
    exact hv

theorem reads_whole_ite {c : Prop} [Decidable c] (htext : c → text = v ++ after) (hv : v ≠ [])
    (h : pattern.first? (Point.atStart text) =
      if c then some ((Point.atStart text).behind v after) else none) :
    Reads [whole name category pattern transition] text
      (if c then some ⟨[⟨v, category⟩], transition⟩ else none) := by
  split
  · rename_i hc
    exact reads_whole (htext hc) hv (by rw [h, if_pos hc])
  · rename_i hc
    exact reads_whole_none (by rw [h, if_neg hc])

/-- Where one of its characters comes next, a rule for single characters reads it. -/
theorem reads_one {test : Char → Bool} {c : Char} {cs : List Char} (hc : test c = true) :
    Reads [whole name category (.one test) transition] (c :: cs)
      (some ⟨[⟨[c], category⟩], transition⟩) := by
  have hmove : (Point.atStart (c :: cs)).advance? test = _ := Point.advance?_of_pos rfl hc
  exact reads_whole (v := [c]) rfl (List.cons_ne_nil c [])
    ((Pattern.first?_one _ _).trans hmove)

theorem find?_ne_none_of_one {mode : Mode} {test : Char → Bool} {c : Char}
    (hrule : whole name category (.one test) ∈ mode.rules) (hc : test c = true) (cs : List Char) :
    mode.find? (c :: cs) ≠ none :=
  Mode.find?_ne_none_of_reads hrule (reads_one hc)

end Whole

theorem ScanState.nestAll_layOut {lexemes : List Lexeme}
    (h : ∀ l ∈ lexemes, l.category.indentDelta = 0) (s : ScanState) (mode : Mode) (start : Nat) :
    s.nestAll (layOut mode start lexemes) = s := by
  induction lexemes generalizing start with
  | nil => rfl
  | cons l more ih =>
    have hfirst : s.nest l.category.indentDelta = s := by
      rw [h l List.mem_cons_self]
      rfl
    have hmore := ih (fun l hl ↦ h l (List.mem_cons_of_mem _ hl)) (start + byteLength l.text)
    unfold nestAll at hmore ⊢
    rw [layOut, List.foldl_cons, hfirst]
    exact hmore

namespace Scanner

variable {s : Scanner}

/-- A step emits the lexemes that the rules of its mode read. -/
theorem exists_step_of_reads {reading : Reading}
    (h : Reads s.settled.mode.rules s.rest (some reading)) (hne : s.rest ≠ []) :
    ∃ after, s.rest = spelled reading.lexemes ++ after ∧
      s.step = (layOut s.settled.mode s.offset reading.lexemes,
        ⟨(s.settled.nestAll (layOut s.settled.mode s.offset reading.lexemes)).follow?
          reading.transition, s.offset + byteLength (spelled reading.lexemes), after⟩) := by
  obtain ⟨m, hm, hgives⟩ := h
  obtain ⟨after, hrest, hfinish⟩ := hgives.finish
  refine ⟨after, hrest, ?_⟩
  rw [step_of_find?_eq_some hne hm, hfinish, hgives.tokens, hgives.transition,
    Point.rest_behind, Point.offset_behind]
  simp [Point.atStart]

theorem step_of_reads {reading : Reading}
    (h : Reads s.settled.mode.rules s.rest (some reading)) (hne : s.rest ≠ [])
    (hdepth : ∀ l ∈ reading.lexemes, l.category.indentDelta = 0) :
    ∃ after, s.rest = spelled reading.lexemes ++ after ∧
      s.step = (layOut s.settled.mode s.offset reading.lexemes,
        ⟨s.settled.follow? reading.transition, s.offset + byteLength (spelled reading.lexemes),
          after⟩) := by
  have hstep := exists_step_of_reads h hne
  rwa [ScanState.nestAll_layOut hdepth] at hstep

theorem step_of_reads_one {mode : Mode} {category : Category} {text v after : List Char}
    {transition : Option Transition} (hmode : s.settled.mode = mode) (htext : s.rest = text)
    (h : Reads mode.rules text (some ⟨[⟨v, category⟩], transition⟩)) (hrest : text = v ++ after)
    (hv : v ≠ []) :
    s.step = ([⟨s.offset, s.offset + byteLength v, category, mode⟩],
      ⟨(s.settled.nest category.indentDelta).follow? transition, s.offset + byteLength v,
        after⟩) := by
  subst hmode htext
  have hne : s.rest ≠ [] := by
    rw [hrest]
    exact List.append_ne_nil_of_left_ne_nil hv after
  obtain ⟨after', hafter, hstep⟩ := exists_step_of_reads h hne
  have hspelled : spelled [⟨v, category⟩] = v := by simp
  rw [hspelled] at hafter hstep
  obtain rfl : after = after' := List.append_cancel_left (hrest.symm.trans hafter)
  exact hstep

end Scanner

end Highlighter
