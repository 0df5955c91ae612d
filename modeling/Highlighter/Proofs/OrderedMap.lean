import Highlighter.OrderedMap
import Mathlib.Data.List.Induction
import Mathlib.Data.List.Nodup
import Mathlib.Data.List.Perm.Subperm

namespace Highlighter

def addKeys {κ : Type} [DecidableEq κ] (keys more : List κ) : List κ :=
  more.foldl (fun keys k ↦ if k ∈ keys then keys else keys ++ [k]) keys

section AddKeys

variable {κ : Type} [DecidableEq κ] {keys more : List κ}

theorem addKeys_append (keys more later : List κ) :
    addKeys keys (more ++ later) = addKeys (addKeys keys more) later :=
  List.foldl_append

theorem addKeys_cons_of_mem {k : κ} (h : k ∈ keys) : addKeys keys (k :: more) = addKeys keys more :=
  congrArg (List.foldl _ · more) (if_pos h)

theorem addKeys_cons_of_not_mem {k : κ} (h : k ∉ keys) :
    addKeys keys (k :: more) = addKeys (keys ++ [k]) more :=
  congrArg (List.foldl _ · more) (if_neg h)

@[simp]
theorem mem_addKeys {k : κ} : k ∈ addKeys keys more ↔ k ∈ keys ∨ k ∈ more := by
  induction more generalizing keys with
  | nil => exact (or_iff_left List.not_mem_nil).symm
  | cons k' more ih =>
    by_cases h : k' ∈ keys
    · rw [addKeys_cons_of_mem h, ih, List.mem_cons]
      constructor
      · tauto
      · rintro (hk | rfl | hk)
        · exact .inl hk
        · exact .inl h
        · exact .inr hk
    · rw [addKeys_cons_of_not_mem h, ih, List.mem_append, List.mem_singleton, List.mem_cons,
        or_assoc]

theorem addKeys_of_subset (h : more ⊆ keys) : addKeys keys more = keys := by
  induction more with
  | nil => rfl
  | cons k more ih =>
    obtain ⟨hk, hmore⟩ := List.cons_subset.mp h
    rw [addKeys_cons_of_mem hk, ih hmore]

theorem addKeys_of_nodup (h : more.Nodup) : addKeys keys more = keys ++ more.filter (· ∉ keys) := by
  induction more generalizing keys with
  | nil => exact (List.append_nil keys).symm
  | cons k more ih =>
    obtain ⟨hk, hmore⟩ := List.nodup_cons.mp h
    by_cases hmem : k ∈ keys
    · rw [addKeys_cons_of_mem hmem, ih hmore, List.filter_cons_of_neg (by simpa using hmem)]
    · have hfilter : more.filter (· ∉ keys ++ [k]) = more.filter (· ∉ keys) := by
        apply List.filter_congr
        intro k' hk'
        have hne : k' ≠ k := fun heq ↦ hk (heq ▸ hk')
        simp [hne]
      rw [addKeys_cons_of_not_mem hmem, ih hmore, hfilter,
        List.filter_cons_of_pos (by simpa using hmem), List.append_assoc, List.singleton_append]

end AddKeys

namespace OrderedMap

variable {κ ν : Type}

theorem nodup_keys (m : OrderedMap κ ν) : m.keys.Nodup :=
  m.nodup

theorem length_keys (m : OrderedMap κ ν) : m.keys.length = m.entries.length :=
  List.length_map _

variable [DecidableEq κ] {m a b : OrderedMap κ ν} {k : κ} {v : ν}

theorem insertAll_append (m : OrderedMap κ ν) (es es' : List (κ × ν)) :
    m.insertAll (es ++ es') = (m.insertAll es).insertAll es' :=
  List.foldl_append

theorem keys_insertAll (m : OrderedMap κ ν) (es : List (κ × ν)) :
    (m.insertAll es).keys = addKeys m.keys (es.map Prod.fst) := by
  induction es generalizing m with
  | nil => rfl
  | cons e es ih =>
    have hkeys : (m.insert e.1 e.2).keys = if e.1 ∈ m.keys then m.keys else m.keys ++ [e.1] :=
      keys_insertEntry e.1 e.2 m.entries
    change ((m.insert e.1 e.2).insertAll es).keys = _
    rw [ih, hkeys]
    rfl

theorem mem_keys_insertAll (h : k ∈ m.keys) (es : List (κ × ν)) : k ∈ (m.insertAll es).keys := by
  rw [keys_insertAll, mem_addKeys]
  exact .inl h

theorem get?_eq_some_iff : m.get? k = some v ↔ (k, v) ∈ m.entries := by
  obtain ⟨entries, hnodup⟩ := m
  change entries.lookup k = some v ↔ (k, v) ∈ entries
  induction entries with
  | nil => simp
  | cons e entries ih =>
    obtain ⟨k', v'⟩ := e
    obtain ⟨hk', hnodup⟩ := List.nodup_cons.mp hnodup
    by_cases h : k = k'
    · subst h
      have hmem : (k, v) ∉ entries := fun hmem ↦ hk' (List.mem_map.mpr ⟨(k, v), hmem, rfl⟩)
      simp [hmem, eq_comm]
    · have hb : (k == k') = false := beq_false_of_ne h
      simp [List.lookup_cons, hb, h, ih hnodup]

theorem isSome_get?_iff : (m.get? k).isSome = true ↔ k ∈ m.keys := by
  rw [Option.isSome_iff_exists, keys, List.mem_map]
  constructor
  · rintro ⟨v, hv⟩
    exact ⟨(k, v), get?_eq_some_iff.mp hv, rfl⟩
  · rintro ⟨⟨_, v⟩, he, rfl⟩
    exact ⟨v, get?_eq_some_iff.mpr he⟩

theorem get?_eq_none_iff : m.get? k = none ↔ k ∉ m.keys := by
  rw [← isSome_get?_iff, Option.not_isSome_iff_eq_none]

/-- A map with all the keys of another leaves nothing to it. -/
theorem get?_or_get? (h : ∀ k ∈ b.keys, (a.get? k).isSome = true) (k : κ) :
    (a.get? k).or (b.get? k) = a.get? k := by
  cases ha : a.get? k with
  | some v => rfl
  | none =>
    rw [Option.none_or, get?_eq_none_iff]
    intro hk
    have hsome := h k hk
    rw [ha] at hsome
    cases hsome

theorem ext_of_keys (hkeys : a.keys = b.keys) (h : ∀ k, a.get? k = b.get? k) : a = b := by
  have hentries : ∀ m : OrderedMap κ ν, m.entries.map (fun e ↦ (e.1, some e.2)) =
      m.keys.map fun k ↦ (k, m.get? k) := by
    intro m
    rw [keys, List.map_map]
    apply List.map_congr_left
    intro e he
    exact congrArg (e.1, ·) (get?_eq_some_iff.mpr he).symm
  have hmap : a.entries.map (fun e ↦ (e.1, some e.2)) = b.entries.map fun e ↦ (e.1, some e.2) := by
    rw [hentries, hentries, hkeys]
    simp only [h]
  have hinj : Function.Injective fun e : κ × ν ↦ (e.1, some e.2) := by
    rintro ⟨k, v⟩ ⟨k', v'⟩ heq
    simpa using heq
  obtain ⟨entries, _⟩ := a
  obtain ⟨entries', _⟩ := b
  obtain rfl : entries = entries' := List.map_injective_iff.mpr hinj hmap
  rfl

theorem same_iff [DecidableEq ν] : a.same b = true ↔ ∀ k, a.get? k = b.get? k := by
  unfold same
  rw [Bool.and_eq_true, beq_iff_eq, List.all_eq_true]
  constructor
  · rintro ⟨hlength, hall⟩ k
    have hsubset : ∀ k v, a.get? k = some v → b.get? k = some v := by
      intro k v h
      exact beq_iff_eq.mp (hall (k, v) (get?_eq_some_iff.mp h))
    cases ha : a.get? k with
    | some v => exact (hsubset k v ha).symm
    | none =>
      -- the keys of `a` are among those of `b`, and they are as many
      have hperm : a.keys.Perm b.keys := by
        have hkeys : a.keys ⊆ b.keys := by
          intro k' hk'
          obtain ⟨v, hv⟩ := Option.isSome_iff_exists.mp (isSome_get?_iff.mpr hk')
          exact isSome_get?_iff.mp (Option.isSome_iff_exists.mpr ⟨v, hsubset k' v hv⟩)
        have hlength' : b.keys.length = a.keys.length := by
          rw [length_keys, length_keys, hlength]
        exact (List.subperm_of_subset a.nodup_keys hkeys).perm_of_length_le (Nat.le_of_eq hlength')
      have hk := get?_eq_none_iff.mp ha
      rw [hperm.mem_iff] at hk
      exact (get?_eq_none_iff.mpr hk).symm
  · intro h
    have hkeys : a.keys.Perm b.keys := by
      apply (List.perm_ext_iff_of_nodup a.nodup_keys b.nodup_keys).mpr
      intro k
      rw [← isSome_get?_iff, ← isSome_get?_iff, h]
    constructor
    · rw [← length_keys, ← length_keys, hkeys.length_eq]
    · intro e he
      rw [beq_iff_eq, ← h]
      exact get?_eq_some_iff.mpr he

/-- Entries that agree on a key give it their value, and entries without it leave it as it was. -/
theorem get?_insertAll {es : List (κ × ν)} {o : Option ν} (h : ∀ v, (k, v) ∈ es ↔ o = some v) :
    (m.insertAll es).get? k = o.or (m.get? k) := by
  induction es using List.reverseRecOn generalizing o with
  | nil =>
    obtain rfl : o = none := by
      cases o with
      | none => rfl
      | some v => cases (h v).mpr rfl
    rfl
  | append_singleton es e ih =>
    rw [insertAll_append]
    change ((m.insertAll es).insert e.1 e.2).get? k = _
    rw [get?_insert]
    by_cases hk : k = e.1
    · subst hk
      obtain rfl := (h e.2).mp (List.mem_append_right es (List.mem_singleton_self e))
      simp
    · rw [if_neg hk]
      apply ih
      intro v
      have hne : (k, v) ≠ e := fun heq ↦ hk (congrArg Prod.fst heq)
      rw [← h v, List.mem_append, List.mem_singleton]
      simp [hne]

theorem entries_ofList {es : List (κ × ν)} (h : (es.map Prod.fst).Nodup) :
    (ofList es).entries = es := by
  have hsame : ofList es = ⟨es, h⟩ := by
    apply ext_of_keys
    · rw [ofList, keys_insertAll, addKeys_of_nodup h]
      simp [keys, empty]
    · intro k
      have hvalue : ∀ v, (k, v) ∈ es ↔ (OrderedMap.mk es h).get? k = some v :=
        fun v ↦ (get?_eq_some_iff (m := ⟨es, h⟩)).symm
      rw [ofList, get?_insertAll hvalue, get?_empty, Option.or_none]
  rw [hsame]

end OrderedMap

end Highlighter
