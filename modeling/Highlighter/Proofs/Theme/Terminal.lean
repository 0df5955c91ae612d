import Highlighter.Theme.Paint

namespace Highlighter

namespace Terminal

inductive Phase
  | text
  | escape
  | codes (read : List Char)

def select (s : Style) : List Nat → Style
  | [] => s
  | 0 :: codes => select {} codes
  | 1 :: codes => select ⟨s.foreground, true, s.italic⟩ codes
  | 3 :: codes => select ⟨s.foreground, s.bold, true⟩ codes
  | 38 :: 2 :: r :: g :: b :: codes =>
    select ⟨some ⟨.ofNat r, .ofNat g, .ofNat b⟩, s.bold, s.italic⟩ codes
  | _ :: codes => select s codes

def readCodes (text : List Char) : List Nat :=
  (text.splitOn ';').map (Nat.ofDigitChars 10 · 0)

def writeCodes (codes : List Nat) : List Char :=
  [';'].intercalate (codes.map (Nat.toDigits 10))

theorem isDigit_of_mem_toDigits {n : Nat} {c : Char} (h : c ∈ Nat.toDigits 10 n) :
    c.isDigit = true :=
  Nat.isDigit_of_mem_toDigits (by decide) (by decide) h

theorem readCodes_writeCodes {codes : List Nat} (h : codes ≠ []) :
    readCodes (writeCodes codes) = codes := by
  have hdigits : ∀ digits ∈ codes.map (Nat.toDigits 10), ';' ∉ digits := by
    intro digits hdigits hmem
    obtain ⟨n, -, rfl⟩ := List.mem_map.mp hdigits
    exact absurd (isDigit_of_mem_toDigits hmem) (by decide)
  have hne : codes.map (Nat.toDigits 10) ≠ [] := mt List.map_eq_nil_iff.mp h
  rw [readCodes, writeCodes, List.splitOn_intercalate ';' hdigits hne, List.map_map]
  exact (List.map_congr_left fun n _ ↦ Nat.ofDigitChars_ten_toDigits).trans (List.map_id _)

theorem eq_or_isDigit_of_mem_writeCodes {codes : List Nat} {c : Char} (h : c ∈ writeCodes codes) :
    c = ';' ∨ c.isDigit = true := by
  induction codes with
  | nil => cases h
  | cons n codes ih =>
    cases codes with
    | nil =>
      rw [writeCodes, List.map_singleton, List.intercalate_singleton] at h
      exact .inr (isDigit_of_mem_toDigits h)
    | cons m codes =>
      rw [writeCodes, List.map_cons, List.map_cons, List.intercalate_cons_cons] at h
      rcases List.mem_append.mp h with h | h
      · rcases List.mem_append.mp h with h | h
        · exact .inr (isDigit_of_mem_toDigits h)
        · exact .inl (List.mem_singleton.mp h)
      · exact ih h

@[simp]
theorem styled_false (codes : List String) (part : List Char) : styled false codes part = part :=
  rfl

theorem styled_nil (color : Bool) (part : List Char) : styled color [] part = part :=
  if_pos (Bool.or_true (!color))

theorem styled_true {codes : List String} (h : codes ≠ []) (part : List Char) :
    styled true codes part = sequence codes ++ reopen (sequence codes) part ++ reset :=
  if_neg (mt List.isEmpty_iff.mp h)

theorem reopen_of_notMem {opening text : List Char} (h : '\x1b' ∉ text) :
    reopen opening text = text := by
  fun_induction reopen opening text with
  | case1 cs ih => exact absurd List.mem_cons_self h
  | case2 c cs _ ih => rw [ih (mt (List.mem_cons_of_mem c) h)]
  | case3 => rfl

end Terminal

namespace Style

def codeNumbers (s : Style) : List Nat :=
  (if s.bold then [1] else []) ++ (if s.italic then [3] else []) ++
    match s.foreground with
    | none => []
    | some color => [38, 2, color.red.toNat, color.green.toNat, color.blue.toNat]

theorem toList_codes (s : Style) :
    (String.intercalate ";" s.codes).toList = Terminal.writeCodes s.codeNumbers := by
  obtain ⟨foreground, bold, italic⟩ := s
  have hone : Nat.toDigits 10 1 = ['1'] := rfl
  have htwo : Nat.toDigits 10 2 = ['2'] := rfl
  have hthree : Nat.toDigits 10 3 = ['3'] := rfl
  have hcolor : Nat.toDigits 10 38 = ['3', '8'] := rfl
  cases foreground <;> cases bold <;> cases italic <;>
    simp [codes, codeNumbers, Terminal.writeCodes, List.intercalate_cons_cons, hone, htwo, hthree,
      hcolor]

theorem codes_eq_nil {s : Style} : s.codes = [] ↔ s = {} := by
  obtain ⟨foreground, bold, italic⟩ := s
  cases foreground <;> cases bold <;> cases italic <;> simp [codes]

theorem codeNumbers_eq_nil {s : Style} : s.codeNumbers = [] ↔ s = {} := by
  obtain ⟨foreground, bold, italic⟩ := s
  cases foreground <;> cases bold <;> cases italic <;> simp [codeNumbers]

theorem select_codeNumbers (s : Style) : Terminal.select {} s.codeNumbers = s := by
  obtain ⟨foreground, bold, italic⟩ := s
  cases foreground <;> cases bold <;> cases italic <;>
    simp [codeNumbers, Terminal.select]

end Style

/-- A terminal with the characters it has shown, each in its style, and the style that is set. -/
structure Screen where
  shown : List (Char × Style)
  active : Style
  phase : Terminal.Phase

namespace Screen

open Terminal

def blank : Screen :=
  ⟨[], {}, .text⟩

def put (s : Screen) (c : Char) : Screen :=
  match s.phase with
  | .text =>
    if c = '\x1b' then ⟨s.shown, s.active, .escape⟩
    else ⟨s.shown ++ [(c, s.active)], s.active, .text⟩
  | .escape => ⟨s.shown, s.active, if c = '[' then .codes [] else .text⟩
  | .codes read =>
    if c = ';' ∨ c.isDigit then ⟨s.shown, s.active, .codes (read ++ [c])⟩
    else ⟨s.shown, if c = 'm' then select s.active (readCodes read) else s.active, .text⟩

def feed (s : Screen) (text : List Char) : Screen :=
  text.foldl put s

variable {shown : List (Char × Style)} {active : Style}

theorem feed_append (s : Screen) (a b : List Char) : s.feed (a ++ b) = (s.feed a).feed b :=
  List.foldl_append

theorem feed_text {text : List Char} (h : '\x1b' ∉ text) :
    feed ⟨shown, active, .text⟩ text = ⟨shown ++ text.map (·, active), active, .text⟩ := by
  induction text generalizing shown with
  | nil => rw [List.map_nil, List.append_nil]; rfl
  | cons c text ih =>
    obtain ⟨hc, htext⟩ := not_or.mp (mt List.mem_cons.mpr h)
    have hput : put ⟨shown, active, .text⟩ c = ⟨shown ++ [(c, active)], active, .text⟩ :=
      if_neg (Ne.symm hc)
    change feed (put ⟨shown, active, .text⟩ c) text = _
    rw [hput, ih htext, List.map_cons, List.append_assoc, List.singleton_append]

theorem feed_codes {read text : List Char} (h : ∀ c ∈ text, c = ';' ∨ c.isDigit = true) :
    feed ⟨shown, active, .codes read⟩ text = ⟨shown, active, .codes (read ++ text)⟩ := by
  induction text generalizing read with
  | nil => rw [List.append_nil]; rfl
  | cons c text ih =>
    have hput : put ⟨shown, active, .codes read⟩ c = ⟨shown, active, .codes (read ++ [c])⟩ :=
      if_pos (h c List.mem_cons_self)
    change feed (put ⟨shown, active, .codes read⟩ c) text = _
    rw [hput, ih fun d hd ↦ h d (List.mem_cons_of_mem c hd), List.append_assoc,
      List.singleton_append]

theorem feed_sequence {codes : List Char} (h : ∀ c ∈ codes, c = ';' ∨ c.isDigit = true) :
    feed ⟨shown, active, .text⟩ (['\x1b', '['] ++ codes ++ ['m']) =
      ⟨shown, select active (readCodes codes), .text⟩ := by
  have hopen : feed ⟨shown, active, .text⟩ ['\x1b', '['] = ⟨shown, active, .codes []⟩ := rfl
  rw [feed_append, feed_append, hopen, feed_codes h]
  rfl

theorem feed_reset : feed ⟨shown, active, .text⟩ reset = ⟨shown, {}, .text⟩ :=
  feed_sequence (List.forall_mem_singleton.mpr (.inr rfl))

theorem feed_styled {part : List Char} (s : Style) (h : '\x1b' ∉ part) :
    feed ⟨shown, {}, .text⟩ (styled true s.codes part) =
      ⟨shown ++ part.map (·, s), {}, .text⟩ := by
  by_cases hs : s = {}
  · have hcodes : s.codes = [] := Style.codes_eq_nil.mpr hs
    rw [hcodes, styled_nil, feed_text h, hs]
  · have hcodes : s.codes ≠ [] := mt Style.codes_eq_nil.mp hs
    have hnumbers : s.codeNumbers ≠ [] := mt Style.codeNumbers_eq_nil.mp hs
    have hopen : feed ⟨shown, {}, .text⟩ (Terminal.sequence s.codes) = ⟨shown, s, .text⟩ := by
      rw [Terminal.sequence, s.toList_codes, feed_sequence fun _ ↦ eq_or_isDigit_of_mem_writeCodes,
        readCodes_writeCodes hnumbers, s.select_codeNumbers]
    rw [styled_true hcodes, reopen_of_notMem h, feed_append, feed_append, hopen, feed_text h,
      feed_reset]

end Screen

end Highlighter
