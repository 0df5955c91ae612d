import Highlighter.Grammar
import Highlighter.Proofs.Pattern.Place

namespace Highlighter

/-- The text in front of the quote that closes a string literal, and the text behind that quote. A
backslash takes the next character of the line with it. -/
def closeLiteral? : List Char → Option (List Char × List Char)
  | [] => none
  | '"' :: after => some ([], after)
  | '\n' :: _ => none
  | ['\\'] => none
  | '\\' :: c :: cs =>
    if c = '\n' then none else (closeLiteral? cs).map fun (body, after) ↦ ('\\' :: c :: body, after)
  | c :: cs => (closeLiteral? cs).map fun (body, after) ↦ (c :: body, after)

theorem closeLiteral?_eq_some {text body after : List Char}
    (h : closeLiteral? text = some (body, after)) : text = body ++ '"' :: after ∧ '\n' ∉ body := by
  fun_induction closeLiteral? text generalizing body after with
  | case1 => cases h
  | case2 rest =>
    cases h
    exact ⟨rfl, List.not_mem_nil⟩
  | case3 => cases h
  | case4 => cases h
  | case5 => cases h
  | case6 c cs hc ih =>
    obtain ⟨⟨more, rest⟩, hclose, hpair⟩ := Option.map_eq_some_iff.mp h
    cases hpair
    obtain ⟨rfl, hline⟩ := ih hclose
    exact ⟨rfl, by simp [Ne.symm hc, hline]⟩
  | case7 c cs _ hfeed _ _ ih =>
    obtain ⟨⟨more, rest⟩, hclose, hpair⟩ := Option.map_eq_some_iff.mp h
    cases hpair
    obtain ⟨rfl, hline⟩ := ih hclose
    exact ⟨rfl, by simp [Ne.symm hfeed, hline]⟩

namespace Pattern

open Grammar

def literalPart : Pattern :=
  orElse (one fun c ↦ c != '\\' && c != '"' && c != '\n') (seq (char '\\') anyOnLine)

variable {p : Point} {c : Char} {cs : List Char}

theorem first?_literalPart (p : Point) :
    literalPart.first? p =
      (p.advance? fun c ↦ c != '\\' && c != '"' && c != '\n').or
        ((p.advance? (· == '\\')).bind (·.advance? (· != '\n'))) := by
  have hescape : (seq (char '\\') anyOnLine).first? p =
      (p.advance? (· == '\\')).bind (·.advance? (· != '\n')) := by
    rw [char, first?_seq_one]
    congr 1
    funext q
    exact first?_one _ q
  rw [literalPart, first?_orElse, first?_one, hescape]

theorem repeat?_of_first? {body : Pattern} {w rest : List Char} (hw : w ≠ [])
    (h : body.first? p = some (p.behind w rest)) : body.repeat? p = some (p.behind w rest) := by
  have hpos : byteLength w ≠ 0 := mt byteLength_eq_zero.mp hw
  rw [repeat?, h, Option.filter_some, if_pos]
  rw [Point.offset_behind]
  exact decide_eq_true (by omega)

theorem repeat?_literalPart_plain (hrest : p.rest = c :: cs) (hescape : c ≠ '\\') (hquote : c ≠ '"')
    (hfeed : c ≠ '\n') : literalPart.repeat? p = some (p.behind [c] cs) := by
  refine repeat?_of_first? (List.cons_ne_nil c []) ?_
  have hmove : (p.advance? fun c ↦ c != '\\' && c != '"' && c != '\n') = some (p.behind [c] cs) :=
    Point.advance?_of_pos hrest (by simp [hescape, hquote, hfeed])
  rw [first?_literalPart, hmove, Option.some_or]

theorem repeat?_literalPart_escape (hrest : p.rest = '\\' :: c :: cs) (hfeed : c ≠ '\n') :
    literalPart.repeat? p = some (p.behind ['\\', c] cs) := by
  refine repeat?_of_first? (List.cons_ne_nil _ _) ?_
  have hnone : (p.advance? fun c ↦ c != '\\' && c != '"' && c != '\n') = none :=
    Point.advance?_of_neg (by rw [hrest]; rfl)
  have hfirst : p.advance? (· == '\\') = some (p.behind ['\\'] (c :: cs)) :=
    Point.advance?_of_pos hrest rfl
  have hsecond : (p.behind ['\\'] (c :: cs)).advance? (· != '\n') =
      some ((p.behind ['\\'] (c :: cs)).behind [c] cs) :=
    Point.advance?_of_pos rfl (by simp [hfeed])
  rw [first?_literalPart, hnone, hfirst, Option.none_or, Option.bind_some, hsecond,
    Point.behind_behind]
  rfl

/-- Where no part of a literal comes next, the literal has to end. -/
theorem first?_literal_of_stuck (h : literalPart.first? p = none) :
    (seq (reluctant literalPart) (char '"')).first? p = p.advance? (· == '"') := by
  have hstuck : literalPart.repeat? p = none := by
    rw [repeat?, h]
    rfl
  rw [first?_seq_reluctant, hstuck, Option.bind_none, Option.or_none, char, first?_one]

theorem first?_literal_of_part {w rest : List Char}
    (hpart : literalPart.repeat? p = some (p.behind w rest))
    (hquote : p.rest.head?.any (· == '"') = false) :
    (seq (reluctant literalPart) (char '"')).first? p =
      (seq (reluctant literalPart) (char '"')).first? (p.behind w rest) := by
  rw [first?_seq_reluctant, hpart, Option.bind_some, char, first?_one, Point.advance?_of_neg hquote,
    Option.none_or]

/-- A literal ends at the quote that closes it. -/
theorem first?_literal (p : Point) :
    (seq (reluctant literalPart) (char '"')).first? p =
      (closeLiteral? p.rest).map fun (body, after) ↦ p.behind (body ++ ['"']) after := by
  generalize hrest : p.rest = text
  fun_induction closeLiteral? text generalizing p with
  | case1 | case3 | case4 | case5 =>
    rw [first?_literal_of_stuck (by simp [first?_literalPart, Point.advance?, hrest])]
    simp [Point.advance?, hrest]
  | case2 after =>
    rw [first?_literal_of_stuck (by simp [first?_literalPart, Point.advance?, hrest])]
    exact Point.advance?_of_pos hrest rfl
  | case6 c cs hfeed ih =>
    have hpart := repeat?_literalPart_escape hrest hfeed
    have hlater := ih (p.behind ['\\', c] cs) rfl
    rw [first?_literal_of_part hpart (by rw [hrest]; rfl), hlater]
    simp [Function.comp_def]
  | case7 c cs hquote hfeed hlone hescape ih =>
    have hplain : c ≠ '\\' := by
      intro hc
      cases cs with
      | nil => exact hlone hc rfl
      | cons d cs => exact hescape d cs hc rfl
    have hpart := repeat?_literalPart_plain hrest hplain hquote hfeed
    have hlater := ih (p.behind [c] cs) rfl
    rw [first?_literal_of_part hpart (by rw [hrest]; simpa using hquote), hlater]
    simp [Function.comp_def]

end Pattern

end Highlighter
