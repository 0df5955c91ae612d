import Highlighter.Editor.Binding
import Mathlib.Data.List.Chain

namespace Highlighter

namespace HostToken

inductive Spans : Nat → Nat → List HostToken → Prop
  | nil (lo : Nat) : Spans lo lo []
  | cons {lo hi : Nat} {t : HostToken} {ts : List HostToken} (hstart : t.start = lo)
      (hlt : t.start < t.stop) (h : Spans t.stop hi ts) : Spans lo hi (t :: ts)

def Holds (t : HostToken) (n : Nat) : Prop :=
  t.start ≤ n ∧ n < t.stop

def Within (t u : HostToken) : Prop :=
  u.start ≤ t.start ∧ t.stop ≤ u.stop ∧ t.style = u.style

def Refines (ts us : List HostToken) : Prop :=
  ∀ t ∈ ts, ∃ u ∈ us, t.Within u

/-- The groups divide the bytes from `lo` to `hi`. Each token lies in a group of its style, and no
group crosses a cut. -/
structure Grouping (cut : Nat → Prop) (lo hi : Nat) (tokens groups : List HostToken) : Prop where
  spans : Spans lo hi groups
  refines : Refines tokens groups
  uncut : ∀ g ∈ groups, ∀ n, cut n → ¬(g.start < n ∧ n < g.stop)

/-- A grouping with every other grouping inside it. -/
def Coarsest (cut : Nat → Prop) (lo hi : Nat) (tokens groups : List HostToken) : Prop :=
  Grouping cut lo hi tokens groups ∧
    ∀ finer, Grouping cut lo hi tokens finer → Refines finer groups

/-- A grouping in which two neighbours share their style at a cut only. -/
structure Runs (cut : Nat → Prop) (lo hi : Nat) (tokens runs : List HostToken) : Prop extends
    Grouping cut lo hi tokens runs where
  distinct : runs.IsChain fun r u ↦ r.style = u.style → cut r.stop

variable {cut : Nat → Prop} {lo mid hi n : Nat} {t u : HostToken}
variable {ts us tokens groups runs : List HostToken}

theorem Within.refl (t : HostToken) : t.Within t :=
  ⟨Nat.le_refl _, Nat.le_refl _, rfl⟩

theorem Within.antisymm (h : t.Within u) (h' : u.Within t) : t = u := by
  obtain ⟨hstart, hstop, hstyle⟩ := h
  obtain ⟨hstart', hstop', -⟩ := h'
  obtain ⟨start, stop, style⟩ := t
  obtain ⟨start', stop', style'⟩ := u
  congr
  · exact Nat.le_antisymm hstart' hstart
  · exact Nat.le_antisymm hstop hstop'

theorem Within.holds (h : t.Within u) (hn : t.Holds n) : u.Holds n :=
  ⟨h.1.trans hn.1, hn.2.trans_le h.2.1⟩

theorem Refines.refl (ts : List HostToken) : Refines ts ts :=
  fun t ht ↦ ⟨t, ht, .refl t⟩

theorem Refines.append {a b : List HostToken} (h : Refines ts a) (h' : Refines us b) :
    Refines (ts ++ us) (a ++ b) := by
  intro t ht
  rcases List.mem_append.mp ht with ht | ht
  · obtain ⟨u, hu, hin⟩ := h t ht
    exact ⟨u, List.mem_append_left b hu, hin⟩
  · obtain ⟨u, hu, hin⟩ := h' t ht
    exact ⟨u, List.mem_append_right a hu, hin⟩

namespace Spans

theorem le (h : Spans lo hi ts) : lo ≤ hi := by
  induction h with
  | nil => exact Nat.le_refl _
  | cons hstart hlt h ih => omega

theorem bounds (h : Spans lo hi ts) (ht : t ∈ ts) :
    lo ≤ t.start ∧ t.start < t.stop ∧ t.stop ≤ hi := by
  induction h with
  | nil => cases ht
  | cons hstart hlt h ih =>
    have hle := h.le
    rcases List.mem_cons.mp ht with rfl | ht
    · omega
    · obtain ⟨hlo, hbetween, hhi⟩ := ih ht
      omega

theorem start_eq (h : Spans lo hi (t :: ts)) : t.start = lo := by
  cases h
  assumption

theorem append (h : Spans lo mid ts) (h' : Spans mid hi us) : Spans lo hi (ts ++ us) := by
  induction h with
  | nil => exact h'
  | cons hstart hlt h ih => exact .cons hstart hlt (ih h')

theorem getLast_stop (h : Spans lo hi ts) (ht : ts.getLast? = some t) : t.stop = hi := by
  induction h with
  | nil => cases ht
  | @cons lo hi u us hstart hlt h ih =>
    cases us with
    | nil =>
      obtain rfl : u = t := Option.some.inj ht
      cases h
      rfl
    | cons v us =>
      rw [List.getLast?_cons_cons] at ht
      exact ih ht

theorem exists_holds (h : Spans lo hi ts) (hlo : lo ≤ n) (hhi : n < hi) :
    ∃ t ∈ ts, t.Holds n := by
  induction h with
  | nil => omega
  | @cons lo hi t ts hstart hlt h ih =>
    by_cases hn : n < t.stop
    · exact ⟨t, List.mem_cons_self, hstart ▸ hlo, hn⟩
    · obtain ⟨u, hu, hat⟩ := ih (Nat.le_of_not_lt hn) hhi
      exact ⟨u, List.mem_cons_of_mem t hu, hat⟩

theorem eq_of_holds (h : Spans lo hi ts) (ht : t ∈ ts) (hu : u ∈ ts) (hn : t.Holds n)
    (hn' : u.Holds n) : t = u := by
  obtain ⟨hstart, hstop⟩ := hn
  obtain ⟨hstart', hstop'⟩ := hn'
  induction h with
  | nil => cases ht
  | cons _ _ h ih =>
    rcases List.mem_cons.mp ht with rfl | ht'
    · rcases List.mem_cons.mp hu with rfl | hu
      · rfl
      · have := (h.bounds hu).1
        omega
    · rcases List.mem_cons.mp hu with rfl | hu
      · have := (h.bounds ht').1
        omega
      · exact ih ht' hu

theorem exists_next {r : HostToken → HostToken → Prop} (h : Spans lo hi ts) (hr : ts.IsChain r)
    (ht : t ∈ ts) (hhi : t.stop < hi) : ∃ u ∈ ts, u.start = t.stop ∧ r t u := by
  induction h with
  | nil => cases ht
  | @cons lo hi v vs hstart hlt h ih =>
    rcases List.mem_cons.mp ht with rfl | ht
    · cases h with
      | nil => omega
      | @cons _ _ w ws hstart' _ _ =>
        exact ⟨w, List.mem_cons_of_mem _ List.mem_cons_self, hstart', hr.rel⟩
    · obtain ⟨u, hu, hnext⟩ := ih hr.tail ht hhi
      exact ⟨u, List.mem_cons_of_mem v hu, hnext⟩

end Spans

theorem Refines.head (h : Refines (t :: ts) (u :: us)) (ht : Spans lo hi (t :: ts))
    (hu : Spans lo hi (u :: us)) : t.Within u := by
  obtain ⟨v, hv, hin⟩ := h t List.mem_cons_self
  rcases List.mem_cons.mp hv with rfl | hv
  · exact hin
  · cases ht
    cases hu with
    | cons hstart hlt hu =>
      have := (hu.bounds hv).1
      have := hin.1
      omega

theorem Refines.tail (h : Refines (t :: ts) (u :: us)) (ht : Spans lo hi (t :: ts))
    (hstop : t.stop = u.stop) : Refines ts us := by
  intro v hv
  obtain ⟨w, hw, hin⟩ := h v (List.mem_cons_of_mem t hv)
  rcases List.mem_cons.mp hw with rfl | hw
  · cases ht with
    | cons hstart hlt ht =>
      have := ht.bounds hv
      have := hin.2.1
      omega
  · exact ⟨w, hw, hin⟩

theorem Refines.antisymm (h : Refines ts us) (h' : Refines us ts) (hts : Spans lo hi ts)
    (hus : Spans lo hi us) : ts = us := by
  induction ts generalizing lo us with
  | nil =>
    cases us with
    | nil => rfl
    | cons u us =>
      obtain ⟨t, ht, -⟩ := h' u List.mem_cons_self
      cases ht
  | cons t ts ih =>
    cases us with
    | nil =>
      obtain ⟨u, hu, -⟩ := h t List.mem_cons_self
      cases hu
    | cons u us =>
      obtain rfl : t = u := (h.head hts hus).antisymm (h'.head hus hts)
      have hlater := h.tail hts rfl
      have hlater' := h'.tail hus rfl
      cases hts with
      | cons _ _ hts =>
        cases hus with
        | cons _ _ hus => rw [ih hlater hlater' hts hus]

/-- Every byte of a group belongs to a token that lies inside the group. -/
theorem Grouping.exists_token (h : Grouping cut lo hi tokens groups) (htokens : Spans lo hi tokens)
    {g : HostToken} (hg : g ∈ groups) (hn : g.Holds n) :
    ∃ t ∈ tokens, t.Holds n ∧ t.Within g := by
  obtain ⟨hlo, -, hhi⟩ := h.spans.bounds hg
  obtain ⟨t, ht, hat⟩ := htokens.exists_holds (hlo.trans hn.1) (hn.2.trans_le hhi)
  obtain ⟨g', hg', hin⟩ := h.refines t ht
  obtain rfl : g' = g := h.spans.eq_of_holds hg' hg (hin.holds hat) hn
  exact ⟨t, ht, hat, hin⟩

theorem Grouping.exists_start (h : Grouping cut lo hi tokens groups) (htokens : Spans lo hi tokens)
    {g : HostToken} (hg : g ∈ groups) : ∃ t ∈ tokens, t.start = g.start := by
  have hlt := (h.spans.bounds hg).2.1
  obtain ⟨t, ht, hat, hin⟩ := h.exists_token htokens hg ⟨Nat.le_refl _, hlt⟩
  exact ⟨t, ht, Nat.le_antisymm hat.1 hin.1⟩

theorem Grouping.exists_stop (h : Grouping cut lo hi tokens groups) (htokens : Spans lo hi tokens)
    {g : HostToken} (hg : g ∈ groups) : ∃ t ∈ tokens, t.stop = g.stop := by
  have hlt := (h.spans.bounds hg).2.1
  have hlast : g.Holds (g.stop - 1) := ⟨Nat.le_sub_one_of_lt hlt, by omega⟩
  obtain ⟨t, ht, hat, hin⟩ := h.exists_token htokens hg hlast
  have := hat.2
  have := hin.2.1
  exact ⟨t, ht, by omega⟩

theorem Grouping.style_eq (h : Grouping cut lo hi tokens groups)
    (h' : Grouping cut lo hi tokens runs) (htokens : Spans lo hi tokens) {g r : HostToken}
    (hg : g ∈ groups) (hr : r ∈ runs) (hn : g.Holds n) (hn' : r.Holds n) : g.style = r.style := by
  obtain ⟨t, ht, hat, hin⟩ := h.exists_token htokens hg hn
  obtain ⟨u, hu, hat', hin'⟩ := h'.exists_token htokens hr hn'
  obtain rfl : t = u := htokens.eq_of_holds ht hu hat hat'
  exact hin.2.2.symm.trans hin'.2.2

theorem Runs.refines_of_grouping (h : Runs cut lo hi tokens runs) (htokens : Spans lo hi tokens)
    (hgroups : Grouping cut lo hi tokens groups) : Refines groups runs := by
  intro g hg
  obtain ⟨hlo, hlt, hhi⟩ := hgroups.spans.bounds hg
  have hfirst : g.Holds g.start := ⟨Nat.le_refl _, hlt⟩
  obtain ⟨r, hr, hat⟩ := h.spans.exists_holds hlo (hlt.trans_le hhi)
  have hstyle := hgroups.style_eq h.toGrouping htokens hg hr hfirst hat
  refine ⟨r, hr, hat.1, Nat.le_of_not_lt fun hstop ↦ ?_, hstyle⟩
  -- The group goes on into the next run, so both runs have its style and meet at a cut.
  obtain ⟨u, hu, hnext, hcut⟩ := h.spans.exists_next h.distinct hr (hstop.trans_le hhi)
  have hinside : g.Holds r.stop := ⟨Nat.le_of_lt hat.2, hstop⟩
  have hat' : u.Holds r.stop := ⟨hnext.le, hnext ▸ (h.spans.bounds hu).2.1⟩
  have hstyle' := hgroups.style_eq h.toGrouping htokens hg hu hinside hat'
  exact hgroups.uncut g hg r.stop (hcut (hstyle.symm.trans hstyle')) ⟨hat.2, hstop⟩

theorem Runs.coarsest_iff (h : Runs cut lo hi tokens runs) (htokens : Spans lo hi tokens) :
    Coarsest cut lo hi tokens groups ↔ groups = runs := by
  constructor
  · intro ⟨hgroups, hcoarsest⟩
    have hfiner := h.refines_of_grouping htokens hgroups
    exact hfiner.antisymm (hcoarsest runs h.toGrouping) hgroups.spans h.spans
  · rintro rfl
    exact ⟨h.toGrouping, fun _ ↦ h.refines_of_grouping htokens⟩

theorem Runs.append {a b : List HostToken} (h : Runs cut lo mid ts a) (h' : Runs cut mid hi us b)
    (hcut : cut mid) : Runs cut lo hi (ts ++ us) (a ++ b) where
  spans := h.spans.append h'.spans
  refines := h.refines.append h'.refines
  uncut g hg := (List.mem_append.mp hg).elim (h.uncut g) (h'.uncut g)
  distinct := by
    refine List.isChain_append.mpr ⟨h.distinct, h'.distinct, ?_⟩
    intro r hr _ _ _
    rw [h.spans.getLast_stop hr]
    exact hcut

theorem Runs.of_forall_not_cut (h : Runs (fun _ ↦ False) lo hi tokens runs)
    (hcut : ∀ n, lo < n → n < hi → ¬cut n) : Runs cut lo hi tokens runs where
  spans := h.spans
  refines := h.refines
  uncut r hr n hn hinside := by
    have hbounds := h.spans.bounds hr
    exact hcut n (hbounds.1.trans_lt hinside.1) (hinside.2.trans_le hbounds.2.2) hn
  distinct := h.distinct.imp fun _ _ hstyle heq ↦ (hstyle heq).elim

theorem Runs.cons (h : Runs (fun _ ↦ False) t.stop hi ts runs) (hlt : t.start < t.stop)
    (hstyle : ∀ u ∈ runs.head?, t.style ≠ u.style) :
    Runs (fun _ ↦ False) t.start hi (t :: ts) (t :: runs) where
  spans := .cons rfl hlt h.spans
  refines := Refines.append (.refl [t]) h.refines
  uncut _ _ _ hcut := hcut.elim
  distinct := List.isChain_cons.mpr ⟨hstyle, h.distinct⟩

theorem Runs.join (h : Runs (fun _ ↦ False) t.stop hi ts (u :: us)) (hlt : t.start < t.stop)
    (hstyle : t.style = u.style) :
    Runs (fun _ ↦ False) t.start hi (t :: ts) (⟨t.start, u.stop, t.style⟩ :: us) := by
  obtain ⟨hstart, hlt', -⟩ := h.spans.bounds List.mem_cons_self
  refine ⟨⟨?_, ?_, fun _ _ _ hcut ↦ hcut.elim⟩, ?_⟩
  · cases h.spans with
    | cons _ _ hspans => exact .cons rfl (hlt.trans (hstart.trans_lt hlt')) hspans
  · intro v hv
    rcases List.mem_cons.mp hv with rfl | hv
    · exact ⟨_, List.mem_cons_self, Nat.le_refl _, hstart.trans hlt'.le, rfl⟩
    · obtain ⟨w, hw, hbegin, hend, hsame⟩ := h.refines v hv
      rcases List.mem_cons.mp hw with rfl | hw
      · exact ⟨_, List.mem_cons_self, hlt.le.trans (hstart.trans hbegin), hend,
          hsame.trans hstyle.symm⟩
      · exact ⟨w, List.mem_cons_of_mem _ hw, hbegin, hend, hsame⟩
  · obtain ⟨hnext, hchain⟩ := List.isChain_cons.mp h.distinct
    exact List.isChain_cons.mpr ⟨fun v hv heq ↦ hnext v hv (hstyle.symm.trans heq), hchain⟩

theorem runs_mergeRuns (h : Spans lo hi ts) :
    Runs (fun _ ↦ False) lo hi ts (mergeRuns ts) := by
  induction h with
  | nil lo => exact ⟨⟨.nil lo, .refl [], fun _ _ _ hcut ↦ hcut.elim⟩, .nil⟩
  | @cons lo hi t ts hstart hlt h ih =>
    subst hstart
    rw [mergeRuns]
    split
    next hnil =>
      rw [hnil] at ih
      exact ih.cons hlt fun _ hu ↦ by cases hu
    next u us hcons =>
      rw [hcons] at ih
      split
      next hjoin => exact ih.join hlt hjoin.1
      next hapart =>
        have hmeet : u.start = t.stop := ih.spans.start_eq
        refine ih.cons hlt fun v hv heq ↦ hapart ?_
        obtain rfl : u = v := Option.some.inj hv
        exact ⟨heq, hmeet.symm⟩

end HostToken

end Highlighter
