import Highlighter.Completion
import Mathlib.Data.List.Nodup
import Mathlib.Data.List.Sort

namespace Highlighter

section Sorting

variable {α : Type} (key : α → Nat)

def sortBy (l : List α) : List α :=
  l.mergeSort fun a b ↦ key a ≤ key b

theorem le_trans_key (a b c : α) (hab : decide (key a ≤ key b) = true)
    (hbc : decide (key b ≤ key c) = true) : decide (key a ≤ key c) = true := by
  simp only [decide_eq_true_eq] at hab hbc ⊢
  omega

theorem le_total_key (a b : α) :
    (decide (key a ≤ key b) || decide (key b ≤ key a)) = true := by
  simp only [Bool.or_eq_true, decide_eq_true_eq]
  omega

theorem sortBy_perm (l : List α) : (sortBy key l).Perm l :=
  List.mergeSort_perm l _

theorem pairwise_sortBy (l : List α) : (sortBy key l).Pairwise fun a b ↦ key a ≤ key b := by
  have hsorted : (sortBy key l).Pairwise fun a b ↦ decide (key a ≤ key b) = true :=
    List.pairwise_mergeSort (le_trans_key key) (le_total_key key) l
  exact hsorted.imp of_decide_eq_true

theorem filter_key_sortBy (k : Nat) (l : List α) :
    (sortBy key l).filter (key · = k) = l.filter (key · = k) := by
  have hsorted : (l.filter (key · = k)).Pairwise fun a b ↦ decide (key a ≤ key b) = true := by
    refine List.pairwise_filter.mpr (List.pairwise_of_forall_mem_list fun a _ b _ ha hb ↦ ?_)
    rw [of_decide_eq_true ha, of_decide_eq_true hb]
    exact decide_eq_true (Nat.le_refl k)
  have hsublist : (l.filter (key · = k)).Sublist (sortBy key l) :=
    List.sublist_mergeSort (le_trans_key key) (le_total_key key) hsorted List.filter_sublist
  have hkeys := hsublist.filter (key · = k)
  rw [List.filter_filter] at hkeys
  simp only [Bool.and_self] at hkeys
  exact (hkeys.eq_of_length ((sortBy_perm key l).filter _).length_eq.symm).symm

variable {key}

theorem mem_of_filter_key {l l' : List α}
    (h : ∀ k, l.filter (key · = k) = l'.filter (key · = k)) {a : α} (ha : a ∈ l) : a ∈ l' := by
  have hmem : a ∈ l.filter (key · = key a) := List.mem_filter.mpr ⟨ha, decide_eq_true rfl⟩
  rw [h] at hmem
  exact (List.mem_filter.mp hmem).1

/-- Two sorted lists are the same if for each key they hold the same things in the same order. -/
theorem eq_of_filter_key {l l' : List α} (hl : l.Pairwise fun a b ↦ key a ≤ key b)
    (hl' : l'.Pairwise fun a b ↦ key a ≤ key b)
    (h : ∀ k, l.filter (key · = k) = l'.filter (key · = k)) : l = l' := by
  induction l generalizing l' with
  | nil =>
    cases l' with
    | nil => rfl
    | cons b l' => cases mem_of_filter_key (fun k ↦ (h k).symm) List.mem_cons_self
  | cons a l ih =>
    cases l' with
    | nil => cases mem_of_filter_key h List.mem_cons_self
    | cons b l' =>
      rw [List.pairwise_cons] at hl hl'
      -- Both heads have the least key, so both are the first thing of that key.
      have hkey : key a = key b := by
        have ha := mem_of_filter_key h List.mem_cons_self
        have hb := mem_of_filter_key (fun k ↦ (h k).symm) List.mem_cons_self
        apply Nat.le_antisymm
        · rcases List.mem_cons.mp hb with rfl | hb
          · exact Nat.le_refl _
          · exact hl.1 b hb
        · rcases List.mem_cons.mp ha with rfl | ha
          · exact Nat.le_refl _
          · exact hl'.1 a ha
      have hhead := h (key b)
      rw [List.filter_cons_of_pos (p := fun c ↦ key c = key b) (decide_eq_true hkey),
        List.filter_cons_of_pos (p := fun c ↦ key c = key b) (decide_eq_true rfl)] at hhead
      obtain ⟨rfl, htail⟩ := List.cons.inj hhead
      congr 1
      refine ih hl.2 hl'.2 fun k ↦ ?_
      by_cases hk : key a = k
      · rw [← hk, htail]
      · have hrest := h k
        rwa [List.filter_cons_of_neg (by simpa using hk),
          List.filter_cons_of_neg (by simpa using hk)] at hrest

theorem filter_sortBy (p : α → Bool) (l : List α) :
    (sortBy key l).filter p = sortBy key (l.filter p) := by
  apply eq_of_filter_key ((pairwise_sortBy key l).filter p) (pairwise_sortBy key _)
  intro k
  rw [List.filter_comm, filter_key_sortBy, filter_key_sortBy, List.filter_comm]

end Sorting

theorem startsWith_iff {text typed : String} :
    startsWith text typed = true ↔ typed.toList <+: text.toList :=
  List.isPrefixOf_iff_prefix

theorem startsWith_eq_decide (text typed : String) :
    startsWith text typed = decide (typed.toList <+: text.toList) :=
  Bool.eq_iff_iff.mpr (startsWith_iff.trans decide_eq_true_iff.symm)

theorem startsWith_of_shorter {text typed more : String} (hmore : typed.toList <+: more.toList)
    (h : startsWith text more = true) : startsWith text typed = true :=
  startsWith_iff.mpr (hmore.trans (startsWith_iff.mp h))

namespace Completion

/-- The label starts with what is typed, or the item is a jet whose bare name does. -/
def Fits (typed : String) (c : Completion) : Prop :=
  typed.toList <+: c.label.toList ∨
    ∃ jet ∈ Jet.catalogue, c = .ofJet jet ∧ typed.toList <+: jet.name.toList

instance (typed : String) : DecidablePred (Fits typed) := fun _ ↦
  inferInstanceAs (Decidable (_ ∨ _))

def fitsJet (typed : String) (jet : Jet) : Bool :=
  startsWith jet.name typed || startsWith jet.qualifiedName typed

section Fits

variable {typed more : String}

theorem jets_eq (typed : String) :
    jets typed = sortBy (·.group.rank) (Jet.catalogue.filter (fitsJet typed)) :=
  rfl

theorem name_of_qualifiedName {jet other : Jet} (h : jet.qualifiedName = other.qualifiedName) :
    jet.name = other.name := by
  have htext := congrArg String.toList h
  unfold Jet.qualifiedName at htext
  rw [String.toList_append, String.toList_append] at htext
  exact String.toList_inj.mp (List.append_cancel_left htext)

theorem fits_ofJet_iff {jet : Jet} (h : jet ∈ Jet.catalogue) :
    Fits typed (.ofJet jet) ↔ fitsJet typed jet = true := by
  rw [fitsJet, Bool.or_eq_true, startsWith_iff, startsWith_iff]
  constructor
  · rintro (hlabel | ⟨other, _, heq, hname⟩)
    · exact .inr hlabel
    · left
      rwa [name_of_qualifiedName (congrArg label heq)]
  · rintro (hname | hlabel)
    · exact .inr ⟨jet, h, rfl, hname⟩
    · exact .inl hlabel

theorem fits_of_group {c : Completion} (h : c.group = none) :
    Fits typed c ↔ startsWith c.label typed = true := by
  rw [startsWith_iff]
  refine or_iff_left ?_
  rintro ⟨jet, _, rfl, _⟩
  cases h

theorem fitsJet_of_fitsJet (hmore : typed.toList <+: more.toList) {jet : Jet}
    (h : fitsJet more jet = true) : fitsJet typed jet = true := by
  rw [fitsJet, Bool.or_eq_true] at h ⊢
  exact h.imp (startsWith_of_shorter hmore) (startsWith_of_shorter hmore)

theorem filter_fits_catalogue (typed : String) :
    Jet.catalogue.filter (Fits typed <| .ofJet ·) = Jet.catalogue.filter (fitsJet typed) :=
  List.filter_congr fun _ hjet ↦
    Bool.eq_iff_iff.mpr (decide_eq_true_iff.trans (fits_ofJet_iff hjet))

theorem decide_and_eq {P : Prop} [Decidable P] {a b : Bool} (hP : P ↔ a = true)
    (hab : a = true → b = true) : (decide P && b) = a := by
  rw [Bool.eq_iff_iff, Bool.and_eq_true, decide_eq_true_iff, hP]
  exact and_iff_left_of_imp hab

theorem filter_jets (hmore : typed.toList <+: more.toList) :
    ((jets typed).map ofJet).filter (Fits more ·) = (jets more).map ofJet := by
  rw [jets_eq, jets_eq, List.filter_map, filter_sortBy, List.filter_filter]
  congr 2
  exact List.filter_congr fun jet hjet ↦
    decide_and_eq (fits_ofJet_iff hjet) (fitsJet_of_fitsJet hmore)

theorem filter_words (hmore : typed.toList <+: more.toList) :
    (wordsMatching typed).filter (Fits more ·) = wordsMatching more := by
  rw [wordsMatching, List.filter_flatMap]
  refine List.flatMap_congr fun (kind, list) _ ↦ ?_
  dsimp only
  rw [List.filter_map, List.filter_filter]
  congr 1
  exact List.filter_congr fun word _ ↦
    decide_and_eq (fits_of_group rfl) (startsWith_of_shorter hmore)

theorem filter_snippets (hmore : typed.toList <+: more.toList) :
    ((snippets typed).map ofSnippet).filter (Fits more ·) = (snippets more).map ofSnippet := by
  rw [List.filter_map, snippets, List.filter_filter]
  congr 1
  exact List.filter_congr fun snippet _ ↦
    decide_and_eq (fits_of_group rfl) (startsWith_of_shorter hmore)

end Fits

def allLabels : List String :=
  Jet.catalogue.map Jet.qualifiedName ++ (wordLists.flatMap (·.2) ++ Snippet.all.map (·.label))

theorem qualifier_prefix (jet : Jet) : Jet.qualifier.toList <+: jet.qualifiedName.toList := by
  rw [Jet.qualifiedName, String.toList_append]
  exact List.prefix_append _ _

theorem nodup_allLabels : allLabels.Nodup := by
  have hjets : (Jet.catalogue.map Jet.qualifiedName).Nodup := by
    refine (List.Nodup.of_map _ Jet.nodup_names_catalogue).map_on fun jet hjet other hother heq ↦ ?_
    have hname := congrArg String.toList (name_of_qualifiedName heq)
    exact List.inj_on_of_nodup_map Jet.nodup_names_catalogue hjet hother hname
  have hothers : (wordLists.flatMap (·.2) ++ Snippet.all.map (·.label)).Nodup := by
    decide +kernel
  have hfree : ∀ label ∈ wordLists.flatMap (·.2) ++ Snippet.all.map (·.label),
      ¬Jet.qualifier.toList <+: label.toList := by
    decide +kernel
  refine List.nodup_append.mpr ⟨hjets, hothers, fun a ha b hb heq ↦ hfree b hb ?_⟩
  obtain ⟨jet, _, rfl⟩ := List.mem_map.mp ha
  rw [← heq]
  exact qualifier_prefix jet

theorem startsWith_empty (text : String) : startsWith text "" = true :=
  rfl

theorem map_label_completions_empty :
    ((completions "").map label).Perm allLabels := by
  have hall : Jet.catalogue.filter (fitsJet "") = Jet.catalogue :=
    List.filter_eq_self.mpr fun jet _ ↦ rfl
  have hjets : (jets "").Perm Jet.catalogue := by
    rw [jets_eq, hall]
    exact sortBy_perm _ _
  have hwords : (wordsMatching "").map label = wordLists.flatMap (·.2) := by
    rw [wordsMatching, List.map_flatMap]
    refine List.flatMap_congr fun (kind, list) _ ↦ ?_
    dsimp only
    rw [List.filter_eq_self.mpr fun word _ ↦ startsWith_empty word, List.map_map]
    exact List.map_id list
  have hsnippets : snippets "" = Snippet.all :=
    List.filter_eq_self.mpr fun snippet _ ↦ startsWith_empty snippet.label
  rw [completions, List.map_append, List.map_append, List.map_map, List.map_map, hwords, hsnippets,
    List.append_assoc]
  exact (hjets.map _).append_right _

theorem rank_inj {a b : JetGroup} : a.rank = b.rank ↔ a = b := by
  cases a <;> cases b <;> decide

theorem filter_group_jets (typed : String) (group : JetGroup) :
    (jets typed).filter (·.group = group) =
      (Jet.catalogue.filter (fitsJet typed)).filter (·.group = group) := by
  have hrank := filter_key_sortBy (·.group.rank) group.rank (Jet.catalogue.filter (fitsJet typed))
  simp only [rank_inj] at hrank
  exact hrank

end Completion

open Completion

theorem completions_eq_filter {typed more : String} (hmore : typed.toList <+: more.toList) :
    completions more = (completions typed).filter (Fits more ·) := by
  rw [completions, completions, List.filter_append, List.filter_append, filter_jets hmore,
    filter_words hmore, filter_snippets hmore]

theorem nodup_label_completions (typed : String) : ((completions typed).map label).Nodup := by
  have hfilter : completions typed = (completions "").filter (Fits typed ·) :=
    completions_eq_filter List.nil_prefix
  rw [hfilter]
  have hsublist : ((completions "").filter (Fits typed ·)).Sublist (completions "") :=
    List.filter_sublist
  exact (map_label_completions_empty.nodup_iff.mpr nodup_allLabels).sublist (hsublist.map label)

/-- Typing on leaves just the suggestions that still fit, in their order. What is suggested is every
item that fits, once: jets by group and within a group in the order of the catalogue, then the words
table by table, then snippets. -/
theorem completions_narrow (typed : String) :
    (∀ more : String, typed.toList <+: more.toList →
      completions more = (completions typed).filter (Fits more ·)) ∧
    completions typed = (completions "").filter (Fits typed ·) ∧
    ((completions typed).map label).Nodup ∧
    ∃ jets : List Jet,
      completions typed = jets.map ofJet ++
        ((Vocabulary.keywords.filter (typed.toList <+: ·.toList)).map (ofWord .keyword) ++
          (Vocabulary.constants.filter (typed.toList <+: ·.toList)).map (ofWord .keyword) ++
          (Vocabulary.variants.filter (typed.toList <+: ·.toList)).map (ofWord .keyword) ++
          (Vocabulary.primitiveTypes.filter (typed.toList <+: ·.toList)).map (ofWord .type) ++
          (Vocabulary.builtinTypes.filter (typed.toList <+: ·.toList)).map (ofWord .type) ++
          (Vocabulary.builtinFunctions.filter (typed.toList <+: ·.toList)).map
            (ofWord .function)) ++
        (Snippet.all.filter (typed.toList <+: ·.label.toList)).map ofSnippet ∧
      jets.Perm (Jet.catalogue.filter (Fits typed <| .ofJet ·)) ∧
      jets.Pairwise (fun a b ↦ a.group.rank ≤ b.group.rank) ∧
      ∀ group, jets.filter (·.group = group) =
        (Jet.catalogue.filter (Fits typed <| .ofJet ·)).filter (·.group = group) := by
  rw [filter_fits_catalogue]
  refine ⟨fun _ ↦ completions_eq_filter, completions_eq_filter List.nil_prefix,
    nodup_label_completions typed, jets typed, ?_, sortBy_perm _ _, pairwise_sortBy _ _,
    filter_group_jets typed⟩
  rw [completions, wordsMatching, wordLists, snippets]
  simp only [startsWith_eq_decide, List.flatMap_cons, List.flatMap_nil, List.append_nil,
    List.append_assoc]

theorem completions_narrow_sha :
    "s".toList <+: "sha".toList ∧
      completions "sha" = (completions "s").filter (Fits "sha" ·) :=
  ⟨by decide, (completions_narrow "s").1 "sha" (by decide)⟩

end Highlighter
