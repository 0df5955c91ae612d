import Highlighter.Proofs.Text.Ascii
import Highlighter.Theme.Color

namespace Highlighter

namespace Rgb

def IsHexDigit (c : Char) (n : Nat) : Prop :=
  "0123456789abcdef".toList[n]? = some c ∨ "0123456789ABCDEF".toList[n]? = some c

def IsDigitPair (a b : Char) (channel : UInt8) : Prop :=
  ∃ m n, IsHexDigit a m ∧ IsHexDigit b n ∧ channel.toNat = 16 * m + n

def IsSignedDigit (a b : Char) (channel : UInt8) : Prop :=
  a = '+' ∧ IsHexDigit b channel.toNat

def IsChannel (a b : Char) (channel : UInt8) : Prop :=
  IsDigitPair a b channel ∨ IsSignedDigit a b channel

/-- Six characters write the colour, a pair for each channel. At most one number sign stands before
them. -/
def Writes (pair : Char → Char → UInt8 → Prop) (text : List Char) (color : Rgb) : Prop :=
  ∃ a b c d e f, (text = [a, b, c, d, e, f] ∨ text = ['#', a, b, c, d, e, f]) ∧
    pair a b color.red ∧ pair c d color.green ∧ pair e f color.blue

def bare (text : List Char) : List Char :=
  if text.head? = some '#' then text.tail else text

def plainDigit (c : Char) : Char :=
  if c = '+' then '0' else c.toUpper

instance (c : Char) (n : Nat) : Decidable (IsHexDigit c n) :=
  inferInstanceAs (Decidable (_ ∨ _))

section HexDigit

variable {c : Char} {n : Nat}

theorem IsHexDigit.lt (h : IsHexDigit c n) : n < 16 := by
  rcases h with h | h <;> exact (List.getElem?_eq_some_iff.mp h).1

/-- A check of all digits in both cases. -/
theorem IsHexDigit.of_all {P : Char → Nat → Bool} (h : IsHexDigit c n)
    (hall : ∀ n < 16, "0123456789abcdef".toList[n]?.all (P · n) = true ∧
      "0123456789ABCDEF".toList[n]?.all (P · n) = true) : P c n = true := by
  obtain ⟨hlower, hupper⟩ := hall n h.lt
  rcases h with h | h
  · rwa [h] at hlower
  · rwa [h] at hupper

theorem ascii_of_hexDigit? (h : hexDigit? c = some n) : c.toNat < 128 := by
  unfold hexDigit? at h
  split at h
  · rename_i hdigit
    apply toNat_lt_of_isAlphanum
    simp [Char.isAlphanum, hdigit]
  split at h
  · rename_i hletter
    exact Nat.lt_of_le_of_lt (UInt32.le_iff_toNat_le.mp hletter.2) (by decide)
  split at h
  · rename_i hletter
    exact Nat.lt_of_le_of_lt (UInt32.le_iff_toNat_le.mp hletter.2) (by decide)
  · cases h

theorem hexDigit?_eq_some_iff : hexDigit? c = some n ↔ IsHexDigit c n := by
  constructor
  · intro h
    have hall : ∀ n ∈ hexDigit? c, IsHexDigit c n :=
      forall_ascii (P := fun c ↦ ∀ n ∈ hexDigit? c, IsHexDigit c n) (by decide +kernel)
        (ascii_of_hexDigit? h)
    exact hall n h
  · intro h
    have hread := h.of_all (P := fun c n ↦ hexDigit? c = some n) (by decide +kernel)
    exact of_decide_eq_true hread

theorem IsHexDigit.ascii (h : IsHexDigit c n) : c.toNat < 128 :=
  ascii_of_hexDigit? (hexDigit?_eq_some_iff.mpr h)

theorem IsHexDigit.plainDigit_eq (h : IsHexDigit c n) : plainDigit c = upperDigit n := by
  have hplain := h.of_all (P := fun c n ↦ plainDigit c = upperDigit n) (by decide +kernel)
  exact of_decide_eq_true hplain

theorem IsHexDigit.ne_sign (h : IsHexDigit c n) : c ≠ '+' ∧ c ≠ '#' := by
  have hdigit := hexDigit?_eq_some_iff.mpr h
  constructor <;> rintro rfl <;> cases hdigit

end HexDigit

section Written

theorem hexDigit?_upperDigit : ∀ n < 16, hexDigit? (upperDigit n) = some n := by
  decide

theorem upperDigit_ne_numberSign : ∀ n < 16, upperDigit n ≠ '#' := by
  decide

theorem channel?_channelDigits (n : UInt8) :
    channel? (upperDigit (n.toNat / 16)) (upperDigit (n.toNat % 16)) = some n := by
  have hlt := n.toNat_lt
  have hvalue : 16 * (n.toNat / 16) + n.toNat % 16 = n.toNat := Nat.div_add_mod n.toNat 16
  unfold channel?
  simp only [hexDigit?_upperDigit (n.toNat / 16) (by omega),
    hexDigit?_upperDigit (n.toNat % 16) (by omega), hvalue, UInt8.ofNat_toNat]

theorem ofDigits?_digits (c : Rgb) : ofDigits? c.digits = some c := by
  simp only [digits, channelDigits, List.cons_append, List.nil_append, ofDigits?,
    channel?_channelDigits]

theorem parse?_render (c : Rgb) : parse? c.render.toList = some c := by
  rw [render, String.toList_ofList]
  exact ofDigits?_digits c

theorem parse?_digits (c : Rgb) : parse? c.digits = some c := by
  have hlt := c.red.toNat_lt
  have hne : upperDigit (c.red.toNat / 16) ≠ '#' := upperDigit_ne_numberSign _ (by omega)
  obtain ⟨cs, hdigits⟩ : ∃ cs, c.digits = upperDigit (c.red.toNat / 16) :: cs := ⟨_, rfl⟩
  have hread := ofDigits?_digits c
  rw [hdigits] at hread ⊢
  unfold parse?
  split
  · rename_i heq
    exact absurd (List.cons.inj heq).1 hne
  · exact hread

end Written

section Reader

variable {a b : Char} {v : UInt8} {text : List Char} {color : Rgb}

theorem channel?_eq_some_iff : channel? a b = some v ↔ IsChannel a b v := by
  have hvalue : ∀ {m n}, m < 16 → n < 16 → (UInt8.ofNat (16 * m + n)).toNat = 16 * m + n := by
    intro m n hm hn
    exact UInt8.toNat_ofNat_of_lt' (by rw [UInt8.size]; omega)
  constructor
  · intro h
    unfold channel? at h
    split at h
    · rename_i m n ha hb
      have ha := hexDigit?_eq_some_iff.mp ha
      have hb := hexDigit?_eq_some_iff.mp hb
      refine .inl ⟨m, n, ha, hb, ?_⟩
      rw [← Option.some.inj h, hvalue ha.lt hb.lt]
    · rename_i n ha hb
      have hb := hexDigit?_eq_some_iff.mp hb
      split at h
      · rename_i hsign
        refine .inr ⟨hsign, ?_⟩
        have hn := hvalue (m := 0) (by decide) hb.lt
        rw [Nat.mul_zero, Nat.zero_add] at hn
        rwa [← Option.some.inj h, hn]
      · cases h
    · cases h
  · rintro (⟨m, n, ha, hb, hv⟩ | ⟨rfl, hb⟩)
    · have ha := hexDigit?_eq_some_iff.mpr ha
      have hb := hexDigit?_eq_some_iff.mpr hb
      simp only [channel?, ha, hb]
      rw [← hv, UInt8.ofNat_toNat]
    · have hb := hexDigit?_eq_some_iff.mpr hb
      have ha : hexDigit? '+' = none := by decide
      simp only [channel?, ha, hb, if_true, UInt8.ofNat_toNat]

theorem IsChannel.ascii (h : IsChannel a b v) : a.toNat < 128 ∧ b.toNat < 128 := by
  rcases h with ⟨m, n, ha, hb, _⟩ | ⟨rfl, hb⟩
  · exact ⟨ha.ascii, hb.ascii⟩
  · exact ⟨by decide, hb.ascii⟩

theorem IsChannel.ne_numberSign (h : IsChannel a b v) : a ≠ '#' := by
  rcases h with ⟨m, n, ha, _⟩ | ⟨rfl, _⟩
  · exact ha.ne_sign.2
  · decide

theorem IsChannel.channelDigits_eq (h : IsChannel a b v) :
    channelDigits v = [plainDigit a, plainDigit b] := by
  unfold channelDigits
  rcases h with ⟨m, n, ha, hb, hv⟩ | ⟨rfl, hb⟩
  · have hlt := hb.lt
    have hhigh : v.toNat / 16 = m := by omega
    have hlow : v.toNat % 16 = n := by omega
    rw [hhigh, hlow, ha.plainDigit_eq, hb.plainDigit_eq]
  · rw [Nat.div_eq_of_lt hb.lt, Nat.mod_eq_of_lt hb.lt, hb.plainDigit_eq]
    rfl

theorem isDigitPair_iff : IsDigitPair a b v ↔ IsChannel a b v ∧ a ≠ '+' := by
  constructor
  · intro h
    obtain ⟨m, n, ha, _⟩ := id h
    exact ⟨.inl h, ha.ne_sign.1⟩
  · rintro ⟨h | h, hne⟩
    · exact h
    · exact absurd h.1 hne

theorem parse?_eq : parse? text = ofDigits? (bare text) := by
  unfold parse? bare
  split
  · rfl
  · rename_i hne
    rw [if_neg]
    intro hhead
    obtain ⟨digits, rfl⟩ := List.head?_eq_some_iff.mp hhead
    exact hne digits rfl

theorem ofDigits?_eq_some_iff {six : List Char} :
    ofDigits? six = some color ↔ ∃ a b c d e f, six = [a, b, c, d, e, f] ∧
      IsChannel a b color.red ∧ IsChannel c d color.green ∧ IsChannel e f color.blue := by
  simp only [← channel?_eq_some_iff]
  constructor
  · intro h
    unfold ofDigits? at h
    split at h
    · rename_i a b c d e f
      split at h
      · rename_i red green blue hred hgreen hblue
        obtain rfl := Option.some.inj h
        exact ⟨a, b, c, d, e, f, rfl, hred, hgreen, hblue⟩
      · cases h
    · cases h
  · rintro ⟨a, b, c, d, e, f, rfl, hred, hgreen, hblue⟩
    simp only [ofDigits?, hred, hgreen, hblue]

theorem bare_of_six {a b c d e f : Char} (h : IsChannel a b v)
    (htext : text = [a, b, c, d, e, f] ∨ text = ['#', a, b, c, d, e, f]) :
    bare text = [a, b, c, d, e, f] := by
  rcases htext with rfl | rfl
  · apply if_neg
    rw [List.head?_cons, Option.some.injEq]
    exact h.ne_numberSign
  · rfl

theorem parse?_eq_some_iff : parse? text = some color ↔ Writes IsChannel text color := by
  rw [parse?_eq, ofDigits?_eq_some_iff]
  constructor
  · rintro ⟨a, b, c, d, e, f, hsix, hpairs⟩
    refine ⟨a, b, c, d, e, f, ?_, hpairs⟩
    unfold bare at hsix
    split at hsix
    · rename_i hhead
      obtain ⟨digits, rfl⟩ := List.head?_eq_some_iff.mp hhead
      exact .inr (congrArg _ hsix)
    · exact .inl hsix
  · rintro ⟨a, b, c, d, e, f, htext, hpairs⟩
    exact ⟨a, b, c, d, e, f, bare_of_six hpairs.1 htext, hpairs⟩

/-- Written colours are the texts that are read and hold no plus sign. -/
theorem writes_digits_iff :
    Writes IsDigitPair text color ↔ parse? text = some color ∧ '+' ∉ text := by
  rw [parse?_eq_some_iff]
  constructor
  · rintro ⟨a, b, c, d, e, f, htext, hred, hgreen, hblue⟩
    have hsix : '+' ∉ [a, b, c, d, e, f] := by
      obtain ⟨_, _, ha, hb, _⟩ := hred
      obtain ⟨_, _, hc, hd, _⟩ := hgreen
      obtain ⟨_, _, he, hf, _⟩ := hblue
      simp [ha.ne_sign.1.symm, hb.ne_sign.1.symm, hc.ne_sign.1.symm, hd.ne_sign.1.symm,
        he.ne_sign.1.symm, hf.ne_sign.1.symm]
    refine ⟨⟨a, b, c, d, e, f, htext, .inl hred, .inl hgreen, .inl hblue⟩, ?_⟩
    rcases htext with rfl | rfl
    · exact hsix
    · exact List.not_mem_cons_of_ne_of_not_mem (by decide) hsix
  · rintro ⟨⟨a, b, c, d, e, f, htext, hred, hgreen, hblue⟩, hsign⟩
    have hsix : ∀ x ∈ [a, b, c, d, e, f], x ≠ '+' := by
      rintro x hx rfl
      apply hsign
      rcases htext with rfl | rfl
      · exact hx
      · exact List.mem_cons_of_mem '#' hx
    exact ⟨a, b, c, d, e, f, htext, isDigitPair_iff.mpr ⟨hred, hsix a (by simp)⟩,
      isDigitPair_iff.mpr ⟨hgreen, hsix c (by simp)⟩, isDigitPair_iff.mpr ⟨hblue, hsix e (by simp)⟩⟩

theorem render_of_parse? (h : parse? text = some color) :
    color.render.toList = '#' :: (bare text).map plainDigit := by
  obtain ⟨a, b, c, d, e, f, htext, hred, hgreen, hblue⟩ := parse?_eq_some_iff.mp h
  rw [bare_of_six hred htext, render, String.toList_ofList, digits, hred.channelDigits_eq,
    hgreen.channelDigits_eq, hblue.channelDigits_eq]
  rfl

end Reader

section Bytes

/-- The text between two byte offsets, if neither of them falls inside a character or beyond the
text. -/
def slice? (text : List Char) (start stop : Nat) : Option (List Char) :=
  if start ≤ stop ∧ isBoundary start text ∧ isBoundary stop text then some (slice text start stop)
  else none

def readByte? (text : List Char) : Option UInt8 :=
  let digits := if text.head? = some '+' then text.tail else text
  let grow (n : Nat) (c : Char) : Option Nat :=
    (hexDigit? c).bind fun digit ↦ if 16 * n + digit < 256 then some (16 * n + digit) else none
  if digits = [] then none else (digits.foldlM grow 0).map UInt8.ofNat

/-- Reads six bytes, all of them ASCII, as a number from every two. There is no result at all where
an offset does not fit. -/
def readSix? (six : List Char) : Option (Option Rgb) :=
  if byteLength six = 6 ∧ six.all (·.toNat < 128) = true then
    match slice? six 0 2, slice? six 2 4, slice? six 4 6 with
    | some r, some g, some b =>
      match readByte? r, readByte? g, readByte? b with
      | some red, some green, some blue => some (some ⟨red, green, blue⟩)
      | _, _, _ => some none
    | _, _, _ => none
  else
    some none

theorem slice?_append (a b c : List Char) :
    slice? (a ++ b ++ c) (byteLength a) (byteLength a + byteLength b) = some b := by
  unfold slice?
  rw [if_pos, slice_append]
  refine ⟨Nat.le_add_right _ _, ?_, ?_⟩
  · rw [List.append_assoc]
    exact isBoundary_append a _
  · rw [← byteLength_append]
    exact isBoundary_append _ c

theorem readByte?_pair (a b : Char) : readByte? [a, b] = channel? a b := by
  unfold readByte? channel?
  by_cases ha : a = '+'
  · have hsign : hexDigit? '+' = none := by decide
    cases hb : hexDigit? b with
    | none => simp [ha, hsign, hb]
    | some n =>
      have hn := (hexDigit?_eq_some_iff.mp hb).lt
      simp [ha, hsign, hb, Nat.lt_trans hn]
  · cases hm : hexDigit? a with
    | none => cases hb : hexDigit? b <;> simp [ha, hm]
    | some m =>
      have hlt := (hexDigit?_eq_some_iff.mp hm).lt
      cases hb : hexDigit? b with
      | none => simp [ha, hm, hb, Nat.lt_trans hlt]
      | some n =>
        have hn := (hexDigit?_eq_some_iff.mp hb).lt
        have hsmall : 16 * m + n < 256 := by omega
        simp [ha, hm, hb, Nat.lt_trans hlt, hsmall]

theorem slice?_pair {u w : List Char} {x y : Char}
    (h : ∀ c ∈ u ++ [x, y] ++ w, c.toNat < 128) :
    slice? (u ++ [x, y] ++ w) u.length (u.length + 2) = some [x, y] := by
  have hslice := slice?_append u [x, y] w
  have hu : byteLength u = u.length := byteLength_of_ascii fun c hc ↦ h c (by simp [hc])
  have hpair : byteLength [x, y] = 2 :=
    byteLength_of_ascii fun c hc ↦ h c (List.mem_append_left w (List.mem_append_right u hc))
  rwa [hu, hpair] at hslice

/-- No offset falls inside a character, and reading by offsets is reading by characters. -/
theorem readSix?_eq (six : List Char) : readSix? six = some (ofDigits? six) := by
  unfold readSix?
  split
  · rename_i h
    obtain ⟨hsize, hall⟩ := h
    have hascii : ∀ c ∈ six, c.toNat < 128 := fun c hc ↦
      of_decide_eq_true (List.all_eq_true.mp hall c hc)
    rw [byteLength_of_ascii hascii] at hsize
    match six, hsize with
    | [a, b, c, d, e, f], _ =>
      have hred : slice? [a, b, c, d, e, f] 0 2 = some [a, b] := slice?_pair (u := []) hascii
      have hgreen : slice? [a, b, c, d, e, f] 2 4 = some [c, d] :=
        slice?_pair (u := [a, b]) hascii
      have hblue : slice? [a, b, c, d, e, f] 4 6 = some [e, f] :=
        slice?_pair (u := [a, b, c, d]) hascii
      simp only [hred, hgreen, hblue, readByte?_pair, ofDigits?]
      cases channel? a b <;> cases channel? c d <;> cases channel? e f <;> rfl
  · rename_i h
    refine congrArg some (Option.eq_none_iff_forall_ne_some.mpr fun color hcolor ↦ h ?_).symm
    obtain ⟨a, b, c, d, e, f, rfl, hred, hgreen, hblue⟩ := ofDigits?_eq_some_iff.mp hcolor
    have hascii : ∀ x ∈ [a, b, c, d, e, f], x.toNat < 128 := by
      simp [hred.ascii, hgreen.ascii, hblue.ascii]
    refine ⟨byteLength_of_ascii hascii, List.all_eq_true.mpr fun x hx ↦ ?_⟩
    exact decide_eq_true (hascii x hx)

end Bytes

/-- The reader takes the texts that write a colour in digit pairs, and those with a plus sign and
one digit for a pair. It fails on no offset, gives every colour back from its rendering, and the
rendering of what it reads has the same digits in upper case. -/
theorem parse?_reads_writing (text : List Char) :
    readSix? (bare text) = some (parse? text) ∧
    (∀ color, parse? text = some color ↔ Writes IsChannel text color) ∧
    (∀ color, Writes IsDigitPair text color ↔ parse? text = some color ∧ '+' ∉ text) ∧
    (∀ color, parse? text = some color →
      color.render.toList = '#' :: (bare text).map plainDigit) ∧
    ∀ color : Rgb, parse? color.render.toList = some color ∧
      parse? color.render.toList.tail = some color := by
  refine ⟨?_, fun _ ↦ parse?_eq_some_iff, fun _ ↦ writes_digits_iff, fun _ ↦ render_of_parse?, ?_⟩
  · rw [readSix?_eq, parse?_eq]
  · intro color
    refine ⟨parse?_render color, ?_⟩
    rw [render, String.toList_ofList]
    exact parse?_digits color

theorem parse?_reads_writing_signed :
    parse? "#+a4B+f".toList = some ⟨10, 75, 15⟩ ∧
    Writes IsChannel "#+a4B+f".toList ⟨10, 75, 15⟩ ∧
    (⟨10, 75, 15⟩ : Rgb).render.toList = "#0A4B0F".toList := by
  have hread : parse? "#+a4B+f".toList = some ⟨10, 75, 15⟩ := by decide
  obtain ⟨_, hwrites, _, hrender, _⟩ := parse?_reads_writing "#+a4B+f".toList
  exact ⟨hread, (hwrites _).mp hread, (hrender _ hread).trans (by decide)⟩

theorem exists_color_in_signed_digits :
    ¬ ∀ text color, parse? text = some color ↔ Writes IsDigitPair text color := by
  intro hall
  have hwrites := (hall "+1+2+3".toList ⟨1, 2, 3⟩).mp (by decide)
  exact (writes_digits_iff.mp hwrites).2 (by decide)

end Rgb

end Highlighter
