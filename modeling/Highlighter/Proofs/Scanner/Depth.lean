import Highlighter.Proofs.Scanner.Stackless
import Mathlib.Algebra.Order.Ring.Int
import Mathlib.Data.Finset.Lattice.Fold
import Mathlib.Data.List.Induction

namespace Highlighter

def Category.bracketMove? : Category → Option Int
  | bracketOpen => some 1
  | bracketClose => some (-1)
  | _ => none

def bracketMoves (tokens : List Token) : List Int :=
  tokens.filterMap (·.category.bracketMove?)

/-- The greatest sum of moves from some place to the end. At the end itself it is zero. -/
def greatestRise (moves : List Int) : Int :=
  (Finset.range (moves.length + 1)).sup' Finset.nonempty_range_add_one
    fun k ↦ moves.sum - (moves.take k).sum

theorem Category.depthAfter_eq (c : Category) (depth : Nat) :
    (c.depthAfter depth : Int) =
      (c.bracketMove?.map fun x : Int ↦ max (depth + x) 0).getD depth := by
  cases c with
  | bracketOpen =>
    change ((depth + 1 : Nat) : Int) = max ((depth : Int) + 1) 0
    omega
  | bracketClose =>
    change ((depth - 1 : Nat) : Int) = max ((depth : Int) + -1) 0
    omega
  | _ => rfl

theorem sub_le_greatestRise (moves : List Int) {k : Nat} (h : k ≤ moves.length) :
    moves.sum - (moves.take k).sum ≤ greatestRise moves :=
  Finset.le_sup' (fun k ↦ moves.sum - (moves.take k).sum)
    (Finset.mem_range.mpr (Nat.lt_succ_of_le h))

theorem exists_greatestRise_eq (moves : List Int) :
    ∃ k ≤ moves.length, greatestRise moves = moves.sum - (moves.take k).sum := by
  have hrange := Finset.nonempty_range_add_one (n := moves.length)
  obtain ⟨k, hk, heq⟩ := Finset.exists_mem_eq_sup' hrange fun k ↦ moves.sum - (moves.take k).sum
  exact ⟨k, Nat.le_of_lt_succ (Finset.mem_range.mp hk), heq⟩

theorem greatestRise_nonneg (moves : List Int) : 0 ≤ greatestRise moves := by
  have hend := sub_le_greatestRise moves (Nat.le_refl _)
  rwa [List.take_length, Int.sub_self] at hend

/-- One more move starts from the greatest rise before it, or nothing is gained. -/
theorem greatestRise_concat (moves : List Int) (x : Int) :
    greatestRise (moves ++ [x]) = max (greatestRise moves + x) 0 := by
  have htotal : (moves ++ [x]).sum = moves.sum + x := by simp
  apply le_antisymm
  · obtain ⟨k, hk, heq⟩ := exists_greatestRise_eq (moves ++ [x])
    rw [heq, htotal]
    rw [List.length_append, List.length_singleton] at hk
    rcases Nat.le_or_eq_of_le_succ hk with hk | rfl
    · have hrise := sub_le_greatestRise moves hk
      rw [List.take_append_of_le_length hk]
      omega
    · rw [List.take_of_length_le (by simp), htotal]
      omega
  · obtain ⟨k, hk, heq⟩ := exists_greatestRise_eq moves
    have hrise := sub_le_greatestRise (moves ++ [x]) (k := k) (by simp; omega)
    rw [htotal, List.take_append_of_le_length hk] at hrise
    have hnonneg := greatestRise_nonneg (moves ++ [x])
    omega

theorem depthBehind_concat (depth : Nat) (tokens : List Token) (t : Token) :
    depthBehind depth (tokens ++ [t]) = t.category.depthAfter (depthBehind depth tokens) :=
  List.foldl_concat ..

theorem depthBehind_append (depth : Nat) (first later : List Token) :
    depthBehind depth (first ++ later) = depthBehind (depthBehind depth first) later :=
  List.foldl_append

theorem bracketMoves_concat (tokens : List Token) (t : Token) :
    bracketMoves (tokens ++ [t]) = bracketMoves tokens ++ t.category.bracketMove?.toList := by
  unfold bracketMoves
  rw [List.filterMap_append]
  cases h : t.category.bracketMove? <;> simp [h]

/-- The depth is the depth before with all moves, unless fewer moves from zero lead higher. -/
theorem depthBehind_eq (depth : Nat) (tokens : List Token) :
    (depthBehind depth tokens : Int) =
      max (depth + (bracketMoves tokens).sum) (greatestRise (bracketMoves tokens)) := by
  induction tokens using List.reverseRecOn with
  | nil =>
    have hnil : greatestRise [] = 0 := by simp [greatestRise]
    change (depth : Int) = max ((depth : Int) + 0) (greatestRise [])
    omega
  | append_singleton tokens t ih =>
    rw [depthBehind_concat, Category.depthAfter_eq, bracketMoves_concat]
    cases t.category.bracketMove? with
    | none =>
      rw [Option.toList_none, List.append_nil]
      exact ih
    | some x =>
      rw [Option.toList_some, greatestRise_concat, List.sum_append, List.sum_singleton]
      change max ((depthBehind depth tokens : Int) + x) 0 = _
      rw [ih]
      omega

theorem depthBehind_of_balanced {tokens : List Token} (depth : Nat)
    (hnonneg : ∀ k, 0 ≤ ((bracketMoves tokens).take k).sum)
    (htotal : (bracketMoves tokens).sum = 0) : depthBehind depth tokens = depth := by
  obtain ⟨k, _, hrise⟩ := exists_greatestRise_eq (bracketMoves tokens)
  have hk := hnonneg k
  have hdepth := depthBehind_eq depth tokens
  omega

namespace Scanner

theorem depth_step {s : Scanner} (hrest : s.rest ≠ []) :
    s.step.2.state.depth = depthBehind s.state.depth s.step.1 := by
  have hdepth := depth_settled s
  cases hm : s.settled.mode.find? s.rest with
  | some m =>
    rw [step_of_find?_eq_some hrest hm]
    simp only [ScanState.depth_follow?, ScanState.nestAll_eq, hdepth]
  | none =>
    obtain ⟨c, cs, hcons⟩ := List.exists_cons_of_ne_nil hrest
    rw [step_of_find?_eq_none hcons hm]
    exact hdepth

theorem Emits.depth_eq {s s' : Scanner} {tokens : List Token} (h : s.Emits tokens s') :
    s'.state.depth = depthBehind s.state.depth tokens := by
  induction h with
  | refl s => rfl
  | step hrest h ih => rw [ih, depth_step hrest, depthBehind_append]

end Scanner

theorem depth_classifyFrom (state : ScanState) (text : List Char) :
    (classifyFrom state text).2.depth = depthBehind state.depth (classifyFrom state text).1 := by
  have hemits := (Scanner.ofText text state).emits_run
  rw [Scanner.run_ofText] at hemits
  exact hemits.depth_eq

end Highlighter
