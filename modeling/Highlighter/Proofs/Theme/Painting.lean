import Highlighter.Proofs.Scanner.Coverage
import Highlighter.Proofs.Text.Lines
import Highlighter.Proofs.Theme.Terminal

namespace Highlighter

theorem isSuffix_dropBytes (n : Nat) (text : List Char) : dropBytes n text <:+ text := by
  fun_induction dropBytes n text with
  | case1 text => exact List.suffix_rfl
  | case2 n => exact List.suffix_rfl
  | case3 n c cs ih => exact ih.trans (List.suffix_cons c cs)

theorem isPrefix_takeBytes (n : Nat) (text : List Char) : takeBytes n text <+: text := by
  fun_induction takeBytes n text with
  | case1 text => exact List.nil_prefix
  | case2 n => exact List.prefix_rfl
  | case3 n c cs ih => exact (List.prefix_cons_inj c).mpr ih

theorem Token.text_subset (t : Token) (source : List Char) : t.text source ⊆ source :=
  fun _ h ↦ (isSuffix_dropBytes t.start source).subset ((isPrefix_takeBytes _ _).subset h)

theorem Tiles.flatMap_text {start : Nat} {text : List Char} {tokens : List Token}
    (h : Tiles start text tokens) (before : List Char) (hbefore : byteLength before = start) :
    tokens.flatMap (·.text (before ++ text)) = text := by
  induction h generalizing before with
  | nil => rfl
  | @cons t w text tokens hne hstop h ih =>
    have hfirst : t.text (before ++ (w ++ text)) = w := by
      rw [Token.text, hstop, ← hbefore, ← List.append_assoc, slice_append]
    have hlater := ih (before ++ w) (by rw [byteLength_append, hbefore, hstop])
    rw [List.flatMap_cons, hfirst, ← List.append_assoc, hlater]

namespace Style

/-- A character as text in this style shows it. A line feed never carries a style. -/
def shows (s : Style) (c : Char) : Char × Style :=
  (c, if c = '\n' then {} else s)

theorem shows_default (c : Char) : shows {} c = (c, {}) := by
  rw [shows, ite_self]

theorem map_shows_of_notMem {text : List Char} (s : Style) (h : '\n' ∉ text) :
    text.map s.shows = text.map (·, s) :=
  List.map_congr_left fun _ hc ↦ by rw [shows, if_neg (ne_of_mem_of_not_mem hc h)]

/-- Without colours the parts between line feeds stand bare, and joined they are the text again. -/
theorem paint_false (s : Style) (text : List Char) : s.paint false text = text := by
  have hbare : ((text.splitOn '\n').map fun part ↦
      if part.isEmpty then part else Terminal.styled false s.codes part) = text.splitOn '\n' := by
    simp only [Terminal.styled_false, ite_self, List.map_id']
  rw [paint, hbare, List.intercalate_splitOn]

theorem paint_of_notMem {line : List Char} (s : Style) (color : Bool) (h : '\n' ∉ line) :
    s.paint color line = if line.isEmpty then line else Terminal.styled color s.codes line := by
  rw [paint, List.splitOn_eq_singleton h, List.map_singleton, List.intercalate_singleton]

theorem paint_append {line : List Char} (s : Style) (color : Bool) (h : '\n' ∉ line)
    (rest : List Char) :
    s.paint color (line ++ '\n' :: rest) = s.paint color line ++ '\n' :: s.paint color rest := by
  obtain ⟨part, parts, hparts⟩ := List.exists_cons_of_ne_nil (List.splitOn_ne_nil '\n' rest)
  rw [s.paint_of_notMem color h, paint, paint, List.splitOn_append_cons_self_of_not_mem h, hparts,
    List.map_cons, List.map_cons, List.intercalate_cons_cons, List.append_assoc,
    List.singleton_append]

end Style

namespace Screen

variable {shown : List (Char × Style)}

theorem feed_paint_line {line : List Char} (s : Style) (hesc : '\x1b' ∉ line)
    (hline : '\n' ∉ line) :
    feed ⟨shown, {}, .text⟩ (s.paint true line) = ⟨shown ++ line.map s.shows, {}, .text⟩ := by
  rw [s.paint_of_notMem true hline, s.map_shows_of_notMem hline]
  split
  next hnil =>
    rw [List.isEmpty_iff.mp hnil, List.map_nil, List.append_nil]
    rfl
  next => exact feed_styled s hesc

theorem feed_paint {text : List Char} (s : Style) (h : '\x1b' ∉ text) :
    feed ⟨shown, {}, .text⟩ (s.paint true text) = ⟨shown ++ text.map s.shows, {}, .text⟩ := by
  induction text using lineFeed_induction generalizing shown with
  | last line hline => exact feed_paint_line s h hline
  | line line rest hline ih =>
    rw [List.mem_append, not_or] at h
    obtain ⟨hfirst, hlater⟩ := h
    have hrest : '\x1b' ∉ rest := mt (List.mem_cons_of_mem _) hlater
    have hfeed : feed ⟨shown ++ line.map s.shows, {}, .text⟩ ['\n'] =
        ⟨shown ++ line.map s.shows ++ [s.shows '\n'], {}, .text⟩ := rfl
    rw [s.paint_append true hline, ← List.singleton_append, feed_append, feed_append,
      feed_paint_line s hfirst hline, hfeed, ih hrest, List.map_append, List.map_cons,
      List.append_assoc, List.append_assoc, List.singleton_append]

end Screen

namespace Theme

def displayed (t : Theme) (category : Category) : Style :=
  (t.style? category).getD {}

theorem feed_paintToken {source : List Char} {shown : List (Char × Style)} (t : Theme)
    (token : Token) (h : '\x1b' ∉ source) :
    Screen.feed ⟨shown, {}, .text⟩ (t.paintToken true source token) =
      ⟨shown ++ (token.text source).map (t.displayed token.category).shows, {}, .text⟩ := by
  have htext : '\x1b' ∉ token.text source := mt (token.text_subset source ·) h
  rw [paintToken, displayed]
  cases t.style? token.category with
  | none =>
    rw [Screen.feed_text htext, Option.getD_none, funext Style.shows_default]
  | some style => exact Screen.feed_paint style htext

theorem feed_paint {source : List Char} {shown : List (Char × Style)} (t : Theme)
    (tokens : List Token) (h : '\x1b' ∉ source) :
    Screen.feed ⟨shown, {}, .text⟩ (t.paint true source tokens) =
      ⟨shown ++ tokens.flatMap fun token ↦
        (token.text source).map (t.displayed token.category).shows, {}, .text⟩ := by
  rw [paint]
  induction tokens generalizing shown with
  | nil =>
    rw [List.flatMap_nil, List.flatMap_nil, List.append_nil]
    rfl
  | cons token tokens ih =>
    rw [List.flatMap_cons, List.flatMap_cons, Screen.feed_append, t.feed_paintToken token h, ih,
      List.append_assoc]

theorem paintToken_false (t : Theme) (source : List Char) (token : Token) :
    t.paintToken false source token = token.text source := by
  rw [paintToken]
  cases t.style? token.category with
  | none => rfl
  | some style => exact style.paint_false _

theorem paint_false (t : Theme) (source : List Char) (tokens : List Token) :
    t.paint false source tokens = tokens.flatMap (·.text source) :=
  List.flatMap_congr fun token _ ↦ t.paintToken_false source token

/-- A terminal that is fed the painted tokens of a text shows the characters of each token in the
style of its category, save that line feeds are unstyled, and ends without a style. Without colours
the texts of the tokens are left as they are, so the tokens of the text give back the text. -/
theorem paint_shows (t : Theme) (source : List Char) :
    ('\x1b' ∉ source → ∀ tokens : List Token,
      Screen.blank.feed (t.paint true source tokens) =
        ⟨tokens.flatMap fun token ↦
          (token.text source).map (t.displayed token.category).shows, {}, .text⟩) ∧
    (∀ tokens : List Token,
      t.paint false source tokens = tokens.flatMap (·.text source)) ∧
    t.paint false source (classify source) = source := by
  refine ⟨fun h tokens ↦ t.feed_paint tokens h, t.paint_false source, ?_⟩
  rw [t.paint_false source]
  exact (tiles_classifyFrom {} source).flatMap_text [] rfl

theorem paint_shows_comment_over_lines :
    '\x1b' ∉ "/*\n*/ fn".toList ∧
    Screen.blank.feed (simplicityDark.paint true "/*\n*/ fn".toList
      [⟨0, 3, .comment, .start⟩, ⟨3, 5, .comment, .comment⟩, ⟨5, 6, .plainText, .start⟩,
        ⟨6, 8, .keyword, .start⟩]) =
      ⟨[('/', ⟨some ⟨0x6a, 0x99, 0x55⟩, false, true⟩),
        ('*', ⟨some ⟨0x6a, 0x99, 0x55⟩, false, true⟩), ('\n', {}),
        ('*', ⟨some ⟨0x6a, 0x99, 0x55⟩, false, true⟩),
        ('/', ⟨some ⟨0x6a, 0x99, 0x55⟩, false, true⟩), (' ', {}),
        ('f', ⟨some ⟨0xc5, 0x86, 0xc0⟩, true, false⟩),
        ('n', ⟨some ⟨0xc5, 0x86, 0xc0⟩, true, false⟩)], {}, .text⟩ := by
  have hesc : '\x1b' ∉ "/*\n*/ fn".toList := by decide
  refine ⟨hesc, ((paint_shows simplicityDark _).1 hesc _).trans ?_⟩
  rfl

end Theme

end Highlighter
