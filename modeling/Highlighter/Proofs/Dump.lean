import Highlighter.Dump
import Highlighter.Proofs.Scanner.Coverage
import Highlighter.Proofs.Text.Position

namespace Highlighter

section LineFeed

theorem lineFeed_notMem_blanks (n : Nat) : '\n' ∉ blanks n := by
  intro h
  cases List.eq_of_mem_replicate h

theorem lineFeed_notMem_padLeft {width : Nat} {text : List Char} (h : '\n' ∉ text) :
    '\n' ∉ padLeft width text := by
  rw [padLeft, List.mem_append, not_or]
  exact ⟨lineFeed_notMem_blanks _, h⟩

theorem lineFeed_notMem_padRight {width : Nat} {text : List Char} (h : '\n' ∉ text) :
    '\n' ∉ padRight width text := by
  rw [padRight, List.mem_append, not_or]
  exact ⟨h, lineFeed_notMem_blanks _⟩

theorem digitChar_ne_lineFeed (n : Nat) : n.digitChar ≠ '\n' := by
  fun_cases Nat.digitChar n <;> decide

theorem lineFeed_notMem_toDigits {base : Nat} (hbase : 1 < base) (n : Nat) :
    '\n' ∉ Nat.toDigits base n := by
  induction n using Nat.strongRecOn with
  | _ n ih =>
    rw [Nat.toDigits_eq_if hbase]
    split
    · rw [List.mem_singleton]
      exact (digitChar_ne_lineFeed n).symm
    · rename_i hle
      rw [List.mem_append, List.mem_singleton, not_or]
      exact ⟨ih _ (Nat.div_lt_self (by omega) hbase), (digitChar_ne_lineFeed _).symm⟩

theorem lineFeed_notMem_render (p : Position) : '\n' ∉ p.render.toList := by
  have hdigits : ∀ n : Nat, '\n' ∉ (toString n).toList := by
    intro n
    rw [Nat.toString_eq_ofList_toDigits, String.toList_ofList]
    exact lineFeed_notMem_toDigits (by decide) n
  rw [Position.render, String.toList_append, String.toList_append, List.mem_append,
    List.mem_append, not_or, not_or]
  exact ⟨⟨hdigits _, by decide⟩, hdigits _⟩

theorem lineFeed_notMem_name (category : Category) : '\n' ∉ category.name.toList := by
  cases category <;> decide

theorem lineFeed_notMem_quoteChar (c : Char) : '\n' ∉ quoteChar c := by
  fun_cases quoteChar c with
  | case7 _ _ hc =>
    rw [List.mem_singleton]
    exact Ne.symm hc
  | case8 =>
    rw [escapeCodePoint, List.mem_append, List.mem_append, not_or, not_or]
    exact ⟨⟨by decide, lineFeed_notMem_toDigits (by decide) _⟩, by decide⟩
  | _ => decide

theorem lineFeed_notMem_quoted (text : List Char) : '\n' ∉ quoted text := by
  intro h
  rcases List.mem_cons.mp h with h | h
  · cases h
  rcases List.mem_append.mp h with h | h
  · obtain ⟨c, -, hc⟩ := List.mem_flatMap.mp h
    exact lineFeed_notMem_quoteChar c hc
  · cases List.mem_singleton.mp h

theorem lineFeed_notMem_dumpRow (position : Position) (category : Category) (text : List Char) :
    '\n' ∉ dumpRow position category text := by
  intro h
  rcases List.mem_append.mp h with h | h
  · rcases List.mem_append.mp h with h | h
    · exact lineFeed_notMem_padLeft (lineFeed_notMem_render position) h
    rcases List.mem_cons.mp h with h | h
    · cases h
    · exact lineFeed_notMem_padRight (lineFeed_notMem_name category) h
  · rcases List.mem_cons.mp h with h | h
    · cases h
    · exact lineFeed_notMem_quoted text h

end LineFeed

theorem dumpRowsFrom_eq {front rest : List Char} {tokens : List Token}
    (hboundary : ∀ t ∈ tokens, isBoundary t.start (front ++ rest) = true)
    (hfront : ∀ t ∈ tokens, byteLength front ≤ t.start)
    (hsorted : tokens.Pairwise fun t u ↦ t.start ≤ u.start) :
    dumpRowsFrom (.after front) (byteLength front) rest tokens = tokens.map fun t ↦
      dumpRow (.after (takeBytes t.start (front ++ rest))) t.category (t.text (front ++ rest)) := by
  -- `front` grows by what lies between two tokens, and the position stays the one behind it.
  induction tokens generalizing front rest with
  | nil => rfl
  | cons t tokens ih =>
    obtain ⟨before, after, hsplit, hstart⟩ :=
      exists_append_of_isBoundary (hboundary t List.mem_cons_self)
    have hle := hfront t List.mem_cons_self
    obtain ⟨gap, rfl, rfl⟩ := exists_append_of_byteLength_le hsplit (by omega)
    have hgap : t.start - byteLength front = byteLength gap := by
      rw [byteLength_append] at hstart
      omega
    rw [List.pairwise_cons] at hsorted
    rw [hsplit] at hboundary ⊢
    have hrest := ih (fun u hu ↦ hboundary u (List.mem_cons_of_mem t hu))
      (fun u hu ↦ hstart.trans_le (hsorted.1 u hu)) hsorted.2
    have htext : t.text (front ++ gap ++ after) = takeBytes t.length after := by
      rw [Token.text, slice, ← hstart, dropBytes_append, hstart]
      rfl
    rw [List.map_cons, dumpRowsFrom, hgap, takeBytes_append, dropBytes_append,
      Position.after_advanceOver, ← hstart, takeBytes_append, htext, hrest]

/-- Whatever tokens are left out, a dump has one row for each of the others. Its position counts the
line feeds in front of the token and the characters behind the last of them, so it gives the line
the token starts in and the characters of this line before the token. -/
theorem dump_rows (state : ScanState) (text : List Char) {tokens : List Token}
    (h : tokens.Sublist (classifyFrom state text).1) :
    (tokens ≠ [] → (dump text tokens).splitOn '\n' = tokens.map fun t ↦
      dumpRow (.after (takeBytes t.start text)) t.category (t.text text)) ∧
    (tokens.Pairwise fun t u ↦ t.start ≤ u.start) ∧
    ∀ t ∈ tokens,
      (∃ after, takeBytes t.start text ++ (t.text text ++ after) = text ∧
        byteLength (takeBytes t.start text) = t.start ∧ byteLength (t.text text) = t.length) ∧
      (∃ i offset line, InLine text t.start i offset line) ∧
      ∀ i offset line, InLine text t.start i offset line →
        Position.after (takeBytes t.start text) =
          ⟨i + 1, (takeBytes (t.start - offset) line).length + 1⟩ := by
  have htiles := tiles_classifyFrom state text
  have hpart := htiles.partition
  have hsorted := htiles.pairwise_start_le.sublist h
  refine ⟨fun hne ↦ ?_, hsorted, fun t ht ↦ ?_⟩
  · have hrows : dumpRows text tokens = tokens.map fun t ↦
        dumpRow (.after (takeBytes t.start text)) t.category (t.text text) :=
      @dumpRowsFrom_eq [] text tokens (fun t ht ↦ (hpart.isBoundary t (h.subset ht)).1)
        (fun _ _ ↦ Nat.zero_le _) hsorted
    rw [dump, hrows]
    refine List.splitOn_intercalate '\n' (fun row hrow ↦ ?_) (mt List.map_eq_nil_iff.mp hne)
    obtain ⟨t, -, rfl⟩ := List.mem_map.mp hrow
    exact lineFeed_notMem_dumpRow _ _ _
  · obtain ⟨before, after, htext, hstart, hlength⟩ := hpart.exists_text t (h.subset ht)
    have hnonempty : t.text text ++ after ≠ [] := by
      have hlt := hpart.start_lt_stop t (h.subset ht)
      have hsize := byteLength_append (t.text text) after
      rw [hlength, Token.length] at hsize
      exact mt byteLength_eq_zero.mpr (by omega)
    rw [List.append_assoc] at htext
    have hbefore : takeBytes t.start text = before := by
      calc takeBytes t.start text
          = takeBytes (byteLength before) (before ++ (t.text text ++ after)) := by
            rw [hstart, ← htext]
        _ = before := takeBytes_append _ _
    rw [hbefore]
    exact ⟨⟨after, htext.symm, hstart, hlength⟩, exists_inLine htext.symm hstart hnonempty,
      fun _ _ _ ↦ Position.after_eq_of_inLine htext.symm hstart hnonempty⟩

/-- The comment goes over a line end, and the blanks are left out with its first part. -/
theorem dump_rows_behind_line_end :
    [⟨0, 2, .plainText, .start⟩, ⟨8, 14, .comment, .comment⟩,
      ⟨15, 16, .identifier, .start⟩].Sublist (classifyFrom {} "é /* a\n→ */ x".toList).1 ∧
    (dump "é /* a\n→ */ x".toList [⟨0, 2, .plainText, .start⟩, ⟨8, 14, .comment, .comment⟩,
      ⟨15, 16, .identifier, .start⟩]).splitOn '\n' =
      ["   1:1 plain-text         \"é\"".toList, "   2:1 comment            \"→ */\"".toList,
        "   2:6 identifier         \"x\"".toList] := by
  have hsub : [⟨0, 2, .plainText, .start⟩, ⟨8, 14, .comment, .comment⟩,
      ⟨15, 16, .identifier, .start⟩].Sublist (classifyFrom {} "é /* a\n→ */ x".toList).1 := by
    decide +kernel
  refine ⟨hsub, ((dump_rows {} _ hsub).1 (List.cons_ne_nil _ _)).trans ?_⟩
  decide +kernel

end Highlighter
