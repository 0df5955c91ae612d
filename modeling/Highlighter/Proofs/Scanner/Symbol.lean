import Highlighter.Proofs.Pattern.Literal
import Highlighter.Proofs.Pattern.Number
import Highlighter.Proofs.Scanner.Brackets
import Highlighter.Proofs.Scanner.Word
import Highlighter.Proofs.Text.Ascii

namespace Highlighter

open Grammar

def isWordStart (c : Char) : Bool :=
  c.isAlpha || c == '_'

def apartRules : List Rule :=
  commentRules ++ numberRules ++ [stringRule] ++ symbolRules

namespace Pattern

variable {c : Char}

theorem refuses_literal {v : String} (h : v.toList.head?.any (· != c) = true) :
    (literal v).refuses c = true := by
  unfold literal
  cases hv : v.toList with
  | nil =>
    rw [hv] at h
    cases h
  | cons d ds =>
    rw [hv] at h
    have hne : (c == d) = false := by simpa using Ne.symm (bne_iff_ne.mp h)
    cases ds with
    | nil => simp [all, char, refuses, hne]
    | cons e es => simp [all, char, refuses, hne]

theorem refuses_anyWord {words : List String}
    (h : ∀ v ∈ words, v.toList.head?.any (· != c) = true) : (anyWord words).refuses c = true := by
  unfold anyWord
  induction words with
  | nil => rfl
  | cons v words ih =>
    have hfirst := refuses_literal (h v List.mem_cons_self)
    have hlater := ih fun v hv ↦ h v (List.mem_cons_of_mem _ hv)
    cases words with
    | nil => exact hfirst
    | cons v' words => exact Bool.and_eq_true_iff.mpr ⟨hfirst, hlater⟩

/-- Words that all begin with characters of a kind refuse the characters of other kinds. -/
theorem head?_ne_of_kind (kind : Char → Bool) {words : List String}
    (h : words.all (·.toList.head?.any kind) = true) (hc : kind c = false) :
    ∀ v ∈ words, v.toList.head?.any (· != c) = true := by
  intro v hv
  have hkind := List.all_eq_true.mp h v hv
  cases hhead : v.toList.head? with
  | none =>
    rw [hhead] at hkind
    cases hkind
  | some d =>
    rw [hhead] at hkind
    refine bne_iff_ne.mpr ?_
    rintro rfl
    rw [Option.any_some, hc] at hkind
    cases hkind

theorem refuses_knownWord {words : List String}
    (h : words.all (·.toList.head?.any isWordStart) = true) (hc : isWordStart c = false) :
    (knownWord words).refuses c = true := by
  have hwords := refuses_anyWord (head?_ne_of_kind _ h hc)
  simp [knownWord, all, refuses, idle, hwords]

end Pattern

/-- No rule for words matches where no word begins. -/
theorem refuses_wordRules {c : Char} (hc : isWordStart c = false) :
    (wordRules ++ Namespace.all.map reference ++ [callRule, identifierRule]).all (·.refuses c) =
      true := by
  have hkind : ((c.isUpper || c.isLower) || c == '_') = false := hc
  obtain ⟨⟨hupper, hlower⟩, hscore⟩ : (c.isUpper = false ∧ c.isLower = false) ∧ c ≠ '_' := by
    simpa using hkind
  have hstart : isLowerStart c = false := by simp [isLowerStart, hlower, hscore]
  have hknown : ∀ words ∈ [Vocabulary.keywords, Vocabulary.constants, Vocabulary.variants,
      Vocabulary.primitiveTypes, Vocabulary.builtinTypes, Vocabulary.builtinFunctions],
      (knownWord words).refuses c = true := by
    have hwords : ∀ words ∈ [Vocabulary.keywords, Vocabulary.constants, Vocabulary.variants,
        Vocabulary.primitiveTypes, Vocabulary.builtinTypes, Vocabulary.builtinFunctions],
        words.all (·.toList.head?.any isWordStart) = true := by decide +kernel
    exact fun words hmem ↦ Pattern.refuses_knownWord (hwords words hmem) hc
  have hliteral : ∀ v ∈ ["fn", "jet", "witness", "param"],
      (Pattern.literal v).refuses c = true := by
    have hwords : ["fn", "jet", "witness", "param"].all (·.toList.head?.any isWordStart) = true :=
      by decide +kernel
    exact fun v hv ↦ Pattern.refuses_literal (Pattern.head?_ne_of_kind _ hwords hc v hv)
  simp only [List.mem_cons, List.not_mem_nil, or_false, forall_eq_or_imp, forall_eq]
    at hknown hliteral
  simp [wordRules, Namespace.all, reference, callRule, identifierRule, whole, Rule.refuses,
    Pattern.all, Pattern.refuses, Pattern.idle, hknown, hliteral, hstart, hupper]

theorem find?_start_of_apart {c : Char} (hc : isWordStart c = false) (cs : List Char) :
    Mode.start.find? (c :: cs) = apartRules.findSome? (·.match? (c :: cs)) := by
  have hrefuses := refuses_wordRules hc
  rw [List.all_append, List.all_append, Bool.and_eq_true, Bool.and_eq_true] at hrefuses
  obtain ⟨⟨hword, hreference⟩, hrest⟩ := hrefuses
  obtain ⟨hcall, hidentifier⟩ : [callRule].all (·.refuses c) = true ∧
      [identifierRule].all (·.refuses c) = true := by
    simpa using hrest
  have hsplit : startRules = commentRules ++ wordRules ++ Namespace.all.map reference ++
      numberRules ++ ([stringRule] ++ [callRule]) ++ symbolRules ++ [identifierRule] := rfl
  change startRules.findSome? _ = _
  rw [hsplit, apartRules]
  simp only [List.findSome?_append, findSome?_of_refuses hword, findSome?_of_refuses hreference,
    findSome?_of_refuses hcall, findSome?_of_refuses hidentifier, Option.or_none]

section Reads

variable {c : Char} {cs w rest : List Char} {reading? : Option Reading}

theorem reads_start_of_apart (hc : isWordStart c = false)
    (h : Reads apartRules (c :: cs) reading?) : Reads startRules (c :: cs) reading? := by
  have hfind : startRules.findSome? (·.match? (c :: cs)) = _ := find?_start_of_apart hc cs
  cases reading? with
  | none =>
    unfold Reads at h ⊢
    rw [hfind]
    exact h
  | some reading =>
    unfold Reads at h ⊢
    rw [hfind]
    exact h

theorem reads_comments_none (hc : c ≠ '/') : Reads commentRules (c :: cs) none := by
  apply reads_of_refuses
  simp [commentRules, whole, Rule.refuses, Pattern.all, Pattern.refuses, Pattern.idle,
    Pattern.literal, Pattern.char, hc]

theorem reads_numbers_none (hc : c.isDigit = false) : Reads numberRules (c :: cs) none := by
  have hzero : c ≠ '0' := by
    rintro rfl
    cases hc
  apply reads_of_refuses
  simp [numberRules, whole, Rule.refuses, Pattern.all, Pattern.refuses, Pattern.idle,
    Pattern.literal, Pattern.char, hc, hzero]

theorem reads_string_none (hc : c ≠ '"') : Reads [stringRule] (c :: cs) none := by
  apply reads_of_refuses
  simp [stringRule, whole, Rule.refuses, Pattern.all, Pattern.refuses, Pattern.char, hc]

theorem or_ite_none {p q : Prop} [Decidable p] [Decidable q] (reading : Reading) :
    (if p then some reading else none).or (if q then some reading else none) =
      if p ∨ q then some reading else none := by
  by_cases hp : p <;> simp [hp]

/-- A word that is a number is read whole, and no part of another word is a number. -/
theorem IsWord.reads_numbers (h : IsWord w rest) :
    Reads numberRules (w ++ rest)
      (if isNumber w then some ⟨[⟨w, .number⟩], none⟩ else none) := by
  have hbit : ∀ c, (c == '0' || c == '1') = true → isWordChar c = true := by
    intro c hc
    rcases Bool.or_eq_true _ _ ▸ hc with hc | hc <;> rw [eq_of_beq hc] <;> decide
  have hhex : Reads [whole "hex-number" .number _] (w ++ rest) _ :=
    reads_whole_ite (fun _ ↦ rfl) h.ne_nil (Pattern.first?_marked h "0x" (by decide)
      (isWordChar_of_or_underscore fun _ ↦ isWordChar_of_isHexDigit))
  have hbinary : Reads [whole "binary-number" .number _] (w ++ rest) _ :=
    reads_whole_ite (fun _ ↦ rfl) h.ne_nil (Pattern.first?_marked h "0b" (by decide)
      (isWordChar_of_or_underscore hbit))
  have hdecimal : Reads [whole "decimal-number" .number _] (w ++ rest) _ :=
    reads_whole_ite (fun _ ↦ rfl) h.ne_nil (Pattern.first?_digits h
      (fun _ ↦ isWordChar_of_isDigit) (isWordChar_of_or_underscore fun _ ↦ isWordChar_of_isDigit))
  have hall : Reads numberRules (w ++ rest) _ := hhex.append (hbinary.append hdecimal)
  simpa only [or_ite_none, isNumber, Bool.or_eq_true, Bool.and_eq_true, or_assoc] using hall

theorem reads_string (more : List Char) :
    Reads [stringRule] ('"' :: more)
      ((closeLiteral? more).map fun (body, _) ↦ ⟨[⟨'"' :: (body ++ ['"']), .string⟩], none⟩) := by
  have hpattern : (Pattern.all [.char '"', .reluctant Pattern.literalPart, .char '"']).first?
      (Point.atStart ('"' :: more)) = (closeLiteral? more).map fun (body, after) ↦
        (Point.atStart ('"' :: more)).behind ('"' :: (body ++ ['"'])) after := by
    have hquote : (Point.atStart ('"' :: more)).advance? (· == '"') =
        some ((Point.atStart ('"' :: more)).behind ['"'] more) :=
      Point.advance?_of_pos rfl (beq_self_eq_true '"')
    refine (Pattern.first?_seq_one _ _ _).trans ?_
    rw [hquote, Option.bind_some]
    refine (Pattern.first?_literal _).trans ?_
    simp
  cases hclose : closeLiteral? more with
  | none =>
    rw [hclose] at hpattern
    exact reads_whole_none hpattern
  | some pair =>
    obtain ⟨body, after⟩ := pair
    rw [hclose] at hpattern
    obtain ⟨rfl, -⟩ := closeLiteral?_eq_some hclose
    exact reads_whole (by simp) (by simp) hpattern

theorem reads_symbols_none (hoperator : c ∉ "+-*/%&|^!~<>=:".toList)
    (hbracket : ∀ category : Category, c ∉ category.brackets) (hmark : c ∉ [';', ',', '.']) :
    Reads symbolRules (c :: cs) none := by
  have hcompound : ∀ v ∈ ["->", "=>", "::", "==", "!=", "<=", ">=", "&&", "||"],
      v.toList.head?.any (· != c) = true :=
    Pattern.head?_ne_of_kind ("+-*/%&|^!~<>=:".toList.contains ·) (by decide)
      (by simpa using hoperator)
  have hopen : c ∉ ['{', '[', '('] := hbracket .bracketOpen
  have hclose : c ∉ ['}', ']', ')'] := hbracket .bracketClose
  have hanyWord := Pattern.refuses_anyWord hcompound
  apply reads_of_refuses
  simp only [symbolRules, whole, Rule.refuses, List.all_cons, List.head?_cons, Option.any_some,
    hanyWord, Pattern.refuses, List.contains_eq_mem]
  simp only [hoperator, hopen, hclose, hmark]
  rfl

theorem isWordStart_of_isDigit (hc : c.isDigit = true) : isWordStart c = false := by
  have hascii := toNat_lt_of_isWordChar (isWordChar_of_isDigit hc)
  exact forall_ascii (P := fun c ↦ c.isDigit = true → isWordStart c = false) (by decide) hascii hc

theorem reads_start_number (h : IsWord w rest) (hdigit : w.head?.any Char.isDigit = true)
    (hnumber : isNumber w = true) :
    Reads startRules (w ++ rest) (some ⟨[⟨w, .number⟩], none⟩) := by
  have hnumbers := h.reads_numbers
  rw [if_pos hnumber] at hnumbers
  cases w with
  | nil => cases hdigit
  | cons c w =>
    have hc : c.isDigit = true := hdigit
    have hslash : c ≠ '/' := by
      rintro rfl
      cases hc
    have hcomments : Reads commentRules (c :: (w ++ rest)) none := reads_comments_none hslash
    exact reads_start_of_apart (isWordStart_of_isDigit hc)
      (((hcomments.append hnumbers).append_left _).append_left _)

theorem reads_start_string {more body after : List Char}
    (hclose : closeLiteral? more = some (body, after)) :
    Reads startRules ('"' :: more) (some ⟨[⟨'"' :: (body ++ ['"']), .string⟩], none⟩) := by
  have hstring := reads_string more
  rw [hclose] at hstring
  have hfirst : Reads (commentRules ++ numberRules) ('"' :: more) none :=
    reads_of_refuses (by decide +kernel) _
  exact reads_start_of_apart (by decide) ((hfirst.append hstring).append_left _)

theorem reads_start_bracket {category : Category} (hc : c ∈ category.brackets) :
    Reads startRules (c :: cs) (some ⟨[⟨[c], category⟩], none⟩) := by
  obtain ⟨front, name, back, hsplit, hrefuses⟩ : ∃ front name back,
      apartRules = front ++ ([whole name category (.one (category.brackets.contains ·))] ++ back) ∧
      category.brackets.all (fun c ↦ !isWordStart c && front.all (·.refuses c)) = true := by
    rcases List.mem_pair.mp (mem_bracketCategories hc) with rfl | rfl
    · exact ⟨apartRules.take 9, "bracket-open", apartRules.drop 10, rfl, by decide +kernel⟩
    · exact ⟨apartRules.take 10, "bracket-close", apartRules.drop 11, rfl, by decide +kernel⟩
  obtain ⟨hword, hfront⟩ : isWordStart c = false ∧ front.all (·.refuses c) = true := by
    simpa only [Bool.and_eq_true, Bool.not_eq_true'] using List.all_eq_true.mp hrefuses c hc
  have hbracket : Reads [whole name category (.one (category.brackets.contains ·))] (c :: cs) _ :=
    reads_one (List.contains_iff_mem.mpr hc)
  apply reads_start_of_apart hword
  rw [hsplit]
  exact (reads_of_refuses hfront cs).append (hbracket.append_left back)

end Reads

/-- The character `c` in front of `cs` is plain text: it begins no word, it is no symbol, and the
number or the string that it might begin is none. -/
structure IsPlain (c : Char) (cs : List Char) : Prop where
  word : isWordStart c = false
  operator : c ∉ "+-*/%&|^!~<>=:".toList
  bracket : ∀ category : Category, c ∉ category.brackets
  mark : c ∉ [';', ',', '.']
  number : c.isDigit = true → isNumber ((c :: cs).takeWhile isWordChar) = false
  string : c = '"' → closeLiteral? cs = none

namespace IsPlain

variable {c : Char} {cs : List Char}

theorem reads_numbers (h : IsPlain c cs) : Reads numberRules (c :: cs) none := by
  by_cases hc : c.isDigit = true
  · have hnumbers := (isWord_takeWhile (isWordChar_of_isDigit hc) cs).reads_numbers
    rw [h.number hc, List.takeWhile_append_dropWhile] at hnumbers
    exact hnumbers
  · exact reads_numbers_none (by simpa using hc)

theorem reads_string (h : IsPlain c cs) : Reads [stringRule] (c :: cs) none := by
  by_cases hc : c = '"'
  · have hstring := Highlighter.reads_string cs
    rw [h.string hc] at hstring
    rw [hc]
    exact hstring
  · exact reads_string_none hc

theorem find?_eq_none (h : IsPlain c cs) : Mode.start.find? (c :: cs) = none := by
  have hslash : c ≠ '/' := by
    rintro rfl
    exact h.operator (by decide)
  have hcomments : Reads commentRules (c :: cs) none := reads_comments_none hslash
  have hsymbols : Reads symbolRules (c :: cs) none :=
    reads_symbols_none h.operator h.bracket h.mark
  exact reads_start_of_apart h.word
    (((hcomments.append h.reads_numbers).append h.reads_string).append hsymbols)

end IsPlain

end Highlighter
