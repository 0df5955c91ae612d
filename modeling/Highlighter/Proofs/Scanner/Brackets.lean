import Highlighter.Proofs.Scanner.Depth
import Highlighter.Proofs.Scanner.Origin

namespace Highlighter

open Grammar

def Category.brackets : Category → List Char
  | bracketOpen => ['{', '[', '(']
  | bracketClose => ['}', ']', ')']
  | _ => []

def bracketCategories : List Category :=
  [.bracketOpen, .bracketClose]

section Brackets

variable {category : Category} {c : Char}

theorem mem_bracketCategories (h : c ∈ category.brackets) : category ∈ bracketCategories := by
  cases category with
  | bracketOpen => decide
  | bracketClose => decide
  | _ => cases h

theorem utf8Size_of_mem_brackets (h : c ∈ category.brackets) : c.utf8Size = 1 := by
  have hall : ∀ category ∈ bracketCategories,
      (category.brackets.all (·.utf8Size == 1)) = true := by
    decide
  exact beq_iff_eq.mp (List.all_eq_true.mp (hall category (mem_bracketCategories h)) c h)

end Brackets

/-- Whether the piece leaves the brackets of a category alone or is of that category. Comments and
strings take any character. -/
def Piece.minds (piece : Piece) (category : Category) : Bool :=
  category.brackets.all fun c ↦
    !piece.pattern.takes c || [.comment, .string, category].contains piece.category

theorem minds_rules (mode : Mode) : ∀ rule ∈ mode.rules, ∀ piece ∈ rule.pieces,
    ∀ category ∈ bracketCategories, piece.minds category = true := by
  cases mode <;> decide +kernel

def Mode.piecesFor (mode : Mode) (category : Category) : List Piece :=
  (mode.rules.flatMap (·.pieces)).filter (·.category == category)

theorem piecesFor_bracket (mode : Mode) {category : Category} (h : category ∈ bracketCategories) :
    mode.piecesFor category =
      if mode = .start then [⟨.one (category.brackets.contains ·), category⟩] else [] := by
  rcases List.mem_pair.mp h with rfl | rfl
  · cases mode <;> rfl
  · cases mode <;> rfl

theorem find?_start_ne_none {category : Category} {c : Char} (h : c ∈ category.brackets)
    (cs : List Char) : Mode.start.find? (c :: cs) ≠ none := by
  obtain ⟨name, hrule⟩ : ∃ name, whole name category (.one (category.brackets.contains ·)) ∈
      Mode.start.rules := by
    rcases List.mem_pair.mp (mem_bracketCategories h) with rfl | rfl
    · exact ⟨"bracket-open", by simp [Mode.rules, startRules, symbolRules, Category.brackets]⟩
    · exact ⟨"bracket-close", by simp [Mode.rules, startRules, symbolRules, Category.brackets]⟩
  exact find?_ne_none_of_one hrule (List.contains_iff_mem.mpr h) cs

namespace Lexed

variable {mode : Mode} {category : Category} {c : Char} {u w : List Char}

/-- A bracket token is one bracket, and it is read outside comments. -/
theorem eq_bracket (h : Lexed mode category w) (hcategory : category ∈ bracketCategories) :
    mode = .start ∧ ∃ c ∈ category.brackets, w = [c] := by
  cases h with
  | @piece _ rule piece p q _ hrule hpiece hends hw =>
    have hmem : piece ∈ mode.piecesFor piece.category :=
      List.mem_filter.mpr ⟨List.mem_flatMap.mpr ⟨rule, hrule, hpiece⟩, beq_self_eq_true _⟩
    rw [piecesFor_bracket mode hcategory] at hmem
    split at hmem
    · rename_i hmode
      have hpattern : piece.pattern = .one (piece.category.brackets.contains ·) :=
        congrArg Piece.pattern (List.mem_singleton.mp hmem)
      rw [hpattern] at hends
      obtain ⟨c, hc, hone⟩ := Pattern.reaches_of_advance? (Option.mem_toList.mp hends)
      have hsame : w ++ q.rest = [c] ++ q.rest := hw.rest.symm.trans hone.rest
      exact ⟨hmode, c, List.contains_iff_mem.mp hc, List.append_cancel_right hsame⟩
    · cases hmem
  | plain _ => cases hcategory with
    | tail _ h => cases h with
      | tail _ h => cases h

/-- What takes a bracket is for comments or strings, or is the bracket alone. -/
theorem of_bracket (h : Lexed mode category (u ++ c :: w)) {kind : Category}
    (hc : c ∈ kind.brackets) :
    category = .comment ∨ category = .string ∨
      mode = .start ∧ category = kind ∧ u = [] ∧ w = [] := by
  have hkind := mem_bracketCategories hc
  have hmem : c ∈ u ++ c :: w := List.mem_append_right u List.mem_cons_self
  generalize htext : u ++ c :: w = text at h hmem
  cases h with
  | @piece _ rule piece p q _ hrule hpiece hends hw =>
    obtain ⟨w', hw', htakes⟩ := Pattern.exists_reaches_of_mem_ends hends
    have hsame : text ++ q.rest = w' ++ q.rest := hw.rest.symm.trans hw'.rest
    have hminds := List.all_eq_true.mp (minds_rules mode rule hrule piece hpiece kind hkind) c hc
    rw [htakes c (List.append_cancel_right hsame ▸ hmem)] at hminds
    simp only [Bool.not_true, Bool.false_or, List.contains_iff_mem, List.mem_cons,
      List.not_mem_nil, or_false] at hminds
    rcases hminds with hcomment | hstring | hpieceKind
    · exact .inl hcomment
    · exact .inr (.inl hstring)
    · have hlexed : Lexed mode piece.category text := .piece hrule hpiece hends hw
      obtain ⟨hmode, d, _, hone⟩ := hlexed.eq_bracket (hpieceKind ▸ hkind)
      rw [← htext] at hone
      rcases List.append_eq_singleton_iff.mp hone with ⟨hu, hcw⟩ | ⟨_, hnil⟩
      · exact .inr (.inr ⟨hmode, hpieceKind, hu, (List.cons.inj hcw).2⟩)
      · cases hnil
  | @plain d cs hnone =>
    obtain rfl := List.mem_singleton.mp hmem
    exact absurd hnone (find?_start_ne_none hc cs)

end Lexed

theorem bracket_covered (state : ScanState) (before after : List Char) {category : Category}
    {c : Char} (hc : c ∈ category.brackets) :
    (∃ t ∈ (classifyFrom state (before ++ c :: after)).1,
      (t.category = .comment ∨ t.category = .string) ∧
        t.start ≤ byteLength before ∧ byteLength before + 1 ≤ t.stop) ∨
    ⟨byteLength before, byteLength before + 1, category, .start⟩ ∈
      (classifyFrom state (before ++ c :: after)).1 := by
  obtain ⟨t, ht, v, u, w, _, rfl, -, hspans, hlexed⟩ := exists_lexed_around state before after c
  obtain ⟨start, stop, kind, mode⟩ := t
  have hsize := utf8Size_of_mem_brackets hc
  have hstart : start = 0 + byteLength v := hspans.start
  have hstop : stop = start + byteLength (u ++ c :: w) := hspans.stop
  rw [byteLength_append, byteLength_cons, hsize] at hstop
  have hplace := byteLength_append v u
  have hinside : start ≤ byteLength (v ++ u) ∧ byteLength (v ++ u) + 1 ≤ stop := by
    omega
  rcases hlexed.of_bracket hc with hcomment | hstring | ⟨hmode, hkind, rfl, rfl⟩
  · exact .inl ⟨_, ht, .inl hcomment, hinside⟩
  · exact .inl ⟨_, ht, .inr hstring, hinside⟩
  · have hstart' : byteLength (v ++ []) = start := by
      rw [hplace, hstart, Nat.zero_add, byteLength_nil, Nat.add_zero]
    obtain rfl : mode = .start := hmode
    obtain rfl : kind = category := hkind
    rw [hstart']
    obtain rfl : stop = start + 1 := hstop
    exact .inr ht

/-- Every bracket of a text lies in a comment or a string or is a token of its own, and no other
token is a bracket token. The depth behind the text counts the bracket tokens, held at zero, so that
balanced ones leave it as it was. -/
theorem classifyFrom_brackets (state : ScanState) (text : List Char) :
    (∀ before c after, text = before ++ c :: after → ∀ category : Category,
      c ∈ category.brackets →
      (∃ t ∈ (classifyFrom state text).1, (t.category = .comment ∨ t.category = .string) ∧
        t.start ≤ byteLength before ∧ byteLength before + 1 ≤ t.stop) ∨
      ⟨byteLength before, byteLength before + 1, category, .start⟩ ∈
        (classifyFrom state text).1) ∧
    (∀ t ∈ (classifyFrom state text).1, t.category = .bracketOpen ∨ t.category = .bracketClose →
      ∃ before c after, text = before ++ c :: after ∧ c ∈ t.category.brackets ∧
        t.start = byteLength before ∧ t.stop = byteLength before + 1) ∧
    ((classifyFrom state text).2.depth : Int) =
      max (state.depth + (bracketMoves (classifyFrom state text).1).sum)
        (greatestRise (bracketMoves (classifyFrom state text).1)) ∧
    ((∀ k, 0 ≤ ((bracketMoves (classifyFrom state text).1).take k).sum) →
      (bracketMoves (classifyFrom state text).1).sum = 0 →
      (classifyFrom state text).2.depth = state.depth) := by
  refine ⟨?_, ?_, ?_, ?_⟩
  · rintro before c after rfl category hc
    exact bracket_covered state before after hc
  · intro t ht hcategory
    obtain ⟨v, w, u, rfl, hspans, hlexed⟩ := lexed_of_mem_classifyFrom ht
    obtain ⟨_, c, hc, rfl⟩ := hlexed.eq_bracket (List.mem_pair.mpr hcategory)
    refine ⟨v, c, u, by simp, hc, ?_, ?_⟩
    · rw [hspans.start, Nat.zero_add]
    · rw [hspans.stop, hspans.start, byteLength_cons, utf8Size_of_mem_brackets hc, Nat.zero_add]
      rfl
  · rw [depth_classifyFrom]
    exact depthBehind_eq _ _
  · intro hnonneg htotal
    rw [depth_classifyFrom]
    exact depthBehind_of_balanced _ hnonneg htotal

/-- In `)]("["(` a string hides a bracket, and two closers find nothing open. -/
theorem classifyFrom_brackets_in_string :
    (∃ t ∈ (classifyFrom {} ")](\"[\"(".toList).1,
      (t.category = .comment ∨ t.category = .string) ∧ t.start ≤ 4 ∧ 5 ≤ t.stop) ∧
    (∃ before c after, ")](\"[\"(".toList = before ++ c :: after ∧
      c ∈ Category.bracketClose.brackets ∧ 1 = byteLength before ∧ 2 = byteLength before + 1) ∧
    ((classifyFrom {} ")](\"[\"(".toList).2.depth : Int) = 2 ∧
    (classifyFrom ⟨.start, [], 3⟩ "([][])".toList).2.depth = 3 := by
  have hinside := (classifyFrom_brackets {} ")](\"[\"(".toList).1 ")](\"".toList '[' "\"(".toList
    rfl .bracketOpen (by decide)
  have htoken := (classifyFrom_brackets {} ")](\"[\"(".toList).2.1 ⟨1, 2, .bracketClose, .start⟩
    (by decide +kernel) (.inr rfl)
  have hdepth := (classifyFrom_brackets {} ")](\"[\"(".toList).2.2.1
  have hbalanced := (classifyFrom_brackets ⟨.start, [], 3⟩ "([][])".toList).2.2.2
  have hmoves : bracketMoves (classifyFrom {} ")](\"[\"(".toList).1 = [-1, -1, 1, 1] := by
    decide +kernel
  have hmoves' : bracketMoves (classifyFrom ⟨.start, [], 3⟩ "([][])".toList).1 =
      [1, 1, -1, 1, -1, -1] := by
    decide +kernel
  have hnone : ⟨4, 5, .bracketOpen, .start⟩ ∉ (classifyFrom {} ")](\"[\"(".toList).1 := by
    decide +kernel
  rw [hmoves] at hdepth
  rw [hmoves'] at hbalanced
  refine ⟨hinside.resolve_right hnone, htoken, hdepth, hbalanced ?_ (by decide)⟩
  intro k
  rcases Nat.lt_or_ge k 6 with hk | hk
  · have hall : ∀ k < 6, 0 ≤ (([1, 1, -1, 1, -1, -1] : List Int).take k).sum := by decide
    exact hall k hk
  · rw [List.take_of_length_le hk]
    decide

end Highlighter
