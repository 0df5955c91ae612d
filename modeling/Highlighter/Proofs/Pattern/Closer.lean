import Mathlib.Data.List.Basic
import Highlighter.Grammar
import Highlighter.Proofs.Pattern.Place

namespace Highlighter

def closer : List Char :=
  "*/".toList

/-- No `*/` begins in `body`, where `tail` follows it. -/
def NoCloser (body tail : List Char) : Prop :=
  ∀ v u, body = v ++ u → u ≠ [] → ¬ closer <+: u ++ tail

/-- `body` is the text before the first `*/`, and `after` the text behind that. -/
def ClosesFirst (body after : List Char) : Prop :=
  ∀ v u, body ++ closer ++ after = v ++ closer ++ u → body.length ≤ v.length

theorem closer_eq : closer = ['*', '/'] := rfl

theorem ClosesFirst.noCloser {body after : List Char} (h : ClosesFirst body after) :
    NoCloser body (closer ++ after) := by
  rintro v u rfl hu ⟨x, hx⟩
  have hle := h v x (by rw [List.append_assoc, List.append_assoc, List.append_assoc, hx])
  have hpos := List.length_pos_iff.mpr hu
  rw [List.length_append] at hle
  omega

theorem noCloser_of_not_infix {body : List Char} (h : ¬ closer <:+: body) : NoCloser body [] := by
  rintro v u rfl _ hfront
  rw [List.append_nil] at hfront
  exact h (hfront.isInfix.trans (List.suffix_append v u).isInfix)

theorem NoCloser.left {a b tail : List Char} (h : NoCloser (a ++ b) tail) :
    NoCloser a (b ++ tail) := by
  rintro v u rfl hu
  rw [← List.append_assoc]
  exact h v (u ++ b) (List.append_assoc v u b) (List.append_ne_nil_of_left_ne_nil hu b)

theorem NoCloser.right {a b tail : List Char} (h : NoCloser (a ++ b) tail) : NoCloser b tail := by
  rintro v u rfl hu
  exact h (a ++ v) u (List.append_assoc a v u).symm hu

theorem exists_closesFirst_or_not_infix (text : List Char) :
    (∃ body after, text = body ++ closer ++ after ∧ ClosesFirst body after) ∨
      ¬ closer <:+: text := by
  induction text with
  | nil => exact .inr (by decide)
  | cons c text ih =>
    by_cases hhere : closer <+: c :: text
    · obtain ⟨after, hafter⟩ := hhere
      exact .inl ⟨[], after, hafter.symm, fun v u _ ↦ Nat.zero_le _⟩
    rcases ih with ⟨body, after, rfl, hfirst⟩ | hnone
    · refine .inl ⟨c :: body, after, rfl, ?_⟩
      intro v u hvu
      cases v with
      | nil =>
        refine absurd ⟨u, ?_⟩ hhere
        exact hvu.symm
      | cons d v =>
        have hlater := hfirst v u (List.cons.inj hvu).2
        rw [List.length_cons, List.length_cons]
        omega
    · refine .inr fun hinfix ↦ ?_
      rcases List.infix_cons_iff.mp hinfix with hfront | hinfix
      · exact hhere hfront
      · exact hnone hinfix

def EndsLine (eol more : List Char) : Prop :=
  eol = ['\n'] ∨ eol = [] ∧ more = []

theorem exists_endsLine (text : List Char) :
    ∃ l eol more, text = l ++ (eol ++ more) ∧ '\n' ∉ l ∧ EndsLine eol more := by
  by_cases hmem : '\n' ∈ text
  · obtain ⟨l, more, htext, hl⟩ := List.eq_append_cons_of_mem hmem
    exact ⟨l, ['\n'], more, htext, hl, .inl rfl⟩
  · exact ⟨text, [], [], (List.append_nil text).symm, hmem, .inr ⟨rfl, rfl⟩⟩

namespace EndsLine

variable {eol more : List Char}

theorem head? (h : EndsLine eol more) : (eol ++ more).head?.any (· != '\n') = false := by
  rcases h with rfl | ⟨rfl, rfl⟩ <;> rfl

theorem not_closer (h : EndsLine eol more) : ¬ closer <+: eol ++ more := by
  rcases h with rfl | ⟨rfl, rfl⟩
  · rintro ⟨u, hu⟩
    cases hu
  · decide

theorem append_ne_nil (h : EndsLine eol more) {l : List Char} (hne : l ++ (eol ++ more) ≠ []) :
    l ++ eol ≠ [] := by
  intro hnil
  obtain ⟨rfl, rfl⟩ := List.append_eq_nil_iff.mp hnil
  rcases h with heol | ⟨_, rfl⟩
  · cases heol
  · exact hne rfl

end EndsLine

namespace Pattern

open Grammar

variable {p : Point} {l eol more : List Char}

theorem forall_ne_lineFeed (hl : '\n' ∉ l) : ∀ c ∈ l, (c != '\n') = true := by
  intro c hc
  rw [bne_iff_ne]
  rintro rfl
  exact hl hc

theorem first?_closer_eq_none (h : ¬ closer <+: p.rest) : (literal "*/").first? p = none := by
  unfold first?
  rw [ends_literal_eq_nil h]
  rfl

theorem first?_toCloser {body after : List Char} (hrest : p.rest = body ++ closer ++ after)
    (hbody : '\n' ∉ body) (hfirst : NoCloser body (closer ++ after)) :
    (seq (reluctant anyOnLine) (literal "*/")).first? p =
      some (p.behind (body ++ closer) after) := by
  have hclose : (literal "*/").first? (p.behind body (closer ++ after)) =
      some (p.behind (body ++ closer) after) := by
    have hends : (literal "*/").ends (p.behind body (closer ++ after)) =
        [(p.behind body (closer ++ after)).behind closer after] := ends_literal rfl
    unfold first?
    rw [hends, Point.behind_behind]
    rfl
  rw [List.append_assoc] at hrest
  rw [anyOnLine, first?_seq_reluctant_one hrest (forall_ne_lineFeed hbody)
    (fun v u hvu hu ↦ first?_closer_eq_none (hfirst v u hvu hu)) (.inl (by rw [hclose]; rfl))]
  exact hclose

theorem first?_toCloser_eq_none (hrest : p.rest = l ++ (eol ++ more)) (hl : '\n' ∉ l)
    (heol : EndsLine eol more) (hnone : NoCloser l (eol ++ more)) :
    (seq (reluctant anyOnLine) (literal "*/")).first? p = none := by
  rw [anyOnLine, first?_seq_reluctant_one hrest (forall_ne_lineFeed hl)
    (fun v u hvu hu ↦ first?_closer_eq_none (hnone v u hvu hu)) (.inr heol.head?)]
  exact first?_closer_eq_none heol.not_closer

theorem first?_lineEnd (heol : EndsLine eol more) {p : Point} (hrest : p.rest = eol ++ more) :
    lineEnd.first? p = some (p.behind eol more) := by
  rw [lineEnd, optional, first?_orElse, char, first?_one]
  rcases heol with rfl | ⟨rfl, rfl⟩
  · have hmove : p.advance? (· == '\n') = some (p.behind ['\n'] more) :=
      Point.advance?_of_pos hrest (beq_self_eq_true '\n')
    rw [hmove, Option.some_or]
  · have hempty : (empty : Pattern).first? p = some (p.behind [] []) := by
      obtain ⟨before, rest, offset⟩ := p
      obtain rfl : rest = [] := hrest
      rfl
    rw [Point.advance?_of_neg (by rw [hrest]; rfl), Option.none_or, hempty]

theorem first?_line (hrest : p.rest = l ++ (eol ++ more)) (hl : '\n' ∉ l)
    (heol : EndsLine eol more) :
    (seq (greedy anyOnLine) lineEnd).first? p = some (p.behind (l ++ eol) more) := by
  have hend := first?_lineEnd heol (p := p.behind l (eol ++ more)) rfl
  rw [Point.behind_behind] at hend
  rw [anyOnLine, first?_seq_greedy_one hrest (forall_ne_lineFeed hl) heol.head?, hend]
  intro hnone
  rw [hend] at hnone
  cases hnone

end Pattern

end Highlighter
