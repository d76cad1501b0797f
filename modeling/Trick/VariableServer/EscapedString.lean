/-
  `write_escaped_string`: which strings a client can get back from the text form of a record.

  A printable character goes out as it is, and that includes the backslash; any other character goes out
  as one of seven named escapes or as `\x` with digits.  So a text can be that of a character and of the
  escape spelled out, a carriage return has the text of a newline, and a character from 128 on is a
  negative `char`, whose eight digits do not fit: all of these have the text `\xfff`.

  1. **The text is printable** (`printable_escaped`), whatever the string.

  2. **Main result** (`recoverable_iff`): no other string has the text of `s` exactly when all of `s` is
     printable and the text of no other character occurs in it.
-/
import Trick.VariableServer.VariableReference

namespace Trick.VarServer.VariableReference

/-! ## Strings and their texts -/

/-- **A string of the simulation**: its bytes before the NUL. -/
structure CString where
  bytes : List UInt8
  noNul : 0 ∉ bytes

/-- `isprint` -/
def IsPrint (b : UInt8) : Prop := 32 ≤ b ∧ b ≤ 126

instance (b : UInt8) : Decidable (IsPrint b) := inferInstanceAs (Decidable (32 ≤ b ∧ b ≤ 126))

/-- A printable character of a text. -/
def PrintChar (c : Char) : Prop := 32 ≤ c.toNat ∧ c.toNat ≤ 126

instance (c : Char) : Decidable (PrintChar c) := inferInstanceAs (Decidable (32 ≤ c.toNat ∧ c.toNat ≤ 126))

/-- The characters that a string shows when nothing is escaped. -/
def asText (s : List UInt8) : List Char := s.map fun b => Char.ofNat b.toNat

/-- The text of some characters. -/
def escaped (s : List UInt8) : List Char := s.flatMap fun b => (escapedChar b).toList

/-- The bytes of some printable characters. -/
def textBytes (l : List Char) : List UInt8 := l.map fun c => UInt8.ofNat c.toNat

/-- `write_escaped_string` of a string. -/
def CString.text (s : CString) : String := escapedString s.bytes

theorem CString.toList_text (s : CString) : s.text.toList = escaped s.bytes := by
  have htake : s.bytes.takeWhile (· ≠ 0) = s.bytes := by
    rw [List.takeWhile_eq_self_iff]
    intro b hb
    have hne : b ≠ 0 := fun h => s.noNul (h ▸ hb)
    exact decide_eq_true hne
  unfold CString.text escapedString escaped
  rw [htake]
  generalize s.bytes = l
  induction l with
  | nil => rfl
  | cons b l ih =>
    rw [List.map_cons, String.join_cons, String.toList_append, ih, List.flatMap_cons]

/-! ## One character -/

/-- A property of all bytes. -/
theorem forall_byte {P : UInt8 → Prop} (h : ∀ n < 256, P (UInt8.ofNat n)) (b : UInt8) : P b := by
  have hb := h b.toNat (UInt8.toNat_lt b)
  rwa [UInt8.ofNat_toNat] at hb

theorem escapedChar_isPrint {b : UInt8} (h : IsPrint b) :
    (escapedChar b).toList = [Char.ofNat b.toNat] := by
  revert h
  refine forall_byte (P := fun b => IsPrint b → (escapedChar b).toList = [Char.ofNat b.toNat]) ?_ b
  decide +kernel

/-- The text of a character is printable. -/
theorem printChar_escapedChar (b : UInt8) : ∀ c ∈ (escapedChar b).toList, PrintChar c := by
  have hall : ∀ n < 256, (escapedChar (UInt8.ofNat n)).toList.all (fun c => decide (PrintChar c)) = true := by
    decide +kernel
  have hb := forall_byte (P := fun b => (escapedChar b).toList.all (fun c => decide (PrintChar c)) = true) hall b
  intro c hc
  exact of_decide_eq_true (List.all_eq_true.mp hb c hc)

/-- An escape is longer than the character. -/
theorem length_escapedChar {b : UInt8} (h : ¬ IsPrint b) : 2 ≤ (escapedChar b).toList.length := by
  revert h
  exact forall_byte (P := fun b => ¬ IsPrint b → 2 ≤ (escapedChar b).toList.length) (by decide +kernel) b

/-! ## Printable strings -/

theorem escaped_append (s t : List UInt8) : escaped (s ++ t) = escaped s ++ escaped t := List.flatMap_append

theorem escaped_cons (b : UInt8) (s : List UInt8) : escaped (b :: s) = (escapedChar b).toList ++ escaped s :=
  List.flatMap_cons

/-- A printable string is its own text. -/
theorem escaped_isPrint {s : List UInt8} (h : ∀ b ∈ s, IsPrint b) : escaped s = asText s := by
  induction s with
  | nil => rfl
  | cons b s ih =>
    rw [escaped_cons, escapedChar_isPrint (h b List.mem_cons_self), ih fun c hc => h c (List.mem_cons_of_mem b hc)]
    rfl

/-- **The text of a string is printable.** -/
theorem printable_escaped (s : List UInt8) : ∀ c ∈ escaped s, PrintChar c := by
  intro c hc
  obtain ⟨b, -, hcb⟩ := List.mem_flatMap.mp hc
  exact printChar_escapedChar b c hcb

theorem asText_textBytes {l : List Char} (h : ∀ c ∈ l, PrintChar c) : asText (textBytes l) = l := by
  unfold asText textBytes
  rw [List.map_map]
  conv_rhs => rw [← List.map_id l]
  apply List.map_congr_left
  intro c hc
  obtain ⟨-, hle⟩ := h c hc
  show Char.ofNat (UInt8.ofNat c.toNat).toNat = c
  rw [UInt8.toNat_ofNat', Nat.mod_eq_of_lt (by omega), Char.ofNat_toNat]

theorem isPrint_textBytes {l : List Char} (h : ∀ c ∈ l, PrintChar c) : ∀ b ∈ textBytes l, IsPrint b := by
  intro b hb
  obtain ⟨c, hc, rfl⟩ := List.mem_map.mp hb
  obtain ⟨hlo, hhi⟩ := h c hc
  have hval : (UInt8.ofNat c.toNat).toNat = c.toNat := by
    rw [UInt8.toNat_ofNat', Nat.mod_eq_of_lt (by omega)]
  refine ⟨?_, ?_⟩
  · apply UInt8.le_iff_toNat_le.mpr
    rw [hval]
    exact hlo
  · apply UInt8.le_iff_toNat_le.mpr
    rw [hval]
    exact hhi

/-- Two strings that show the same are the same. -/
theorem asText_inj {s t : List UInt8} (h : asText s = asText t) : s = t := by
  refine List.map_injective_iff.mpr ?_ h
  intro b c hbc
  have hchar : ∀ n < 256, (Char.ofNat n).toNat = n := by decide +kernel
  have hnat := congrArg Char.toNat hbc
  rw [hchar _ (UInt8.toNat_lt b), hchar _ (UInt8.toNat_lt c)] at hnat
  exact UInt8.toNat_inj.mp hnat

/-! ## Which strings come back -/

/-- **A client can recover the string**: no other one has its text, and the text is printable. -/
def CString.Recoverable (s : CString) : Prop :=
  (∀ t : CString, t.bytes ≠ s.bytes → t.text ≠ s.text) ∧ ∀ c ∈ s.text.toList, PrintChar c

/-- A string with other bytes. -/
theorem CString.Recoverable.eq {s : CString} (h : s.Recoverable) {t : List UInt8} (ht : 0 ∉ t)
    (htext : escaped t = escaped s.bytes) : t = s.bytes := by
  by_contra hne
  apply h.1 ⟨t, ht⟩ hne
  apply String.toList_inj.mp
  rw [CString.toList_text, CString.toList_text, htext]

theorem zero_notMem_of_isPrint {s : List UInt8} (h : ∀ b ∈ s, IsPrint b) : 0 ∉ s := fun hz =>
  absurd (h 0 hz) (by decide)

/-- **The strings that come back** are the printable ones in which the text of no other character
    occurs. -/
theorem recoverable_iff (s : CString) :
    s.Recoverable ↔ (∀ b ∈ s.bytes, IsPrint b) ∧
      ∀ b : UInt8, b ≠ 0 → ¬ IsPrint b → ¬ (escapedChar b).toList <:+: asText s.bytes := by
  constructor
  · intro h
    have hprint : ∀ b ∈ s.bytes, IsPrint b := by
      intro b hb
      by_contra hno
      -- the escape spelled out in the place of the character
      obtain ⟨u, v, huv⟩ := List.append_of_mem hb
      have hspelled : ∀ c ∈ textBytes (escapedChar b).toList, IsPrint c :=
        isPrint_textBytes (printChar_escapedChar b)
      have hnoNul : 0 ∉ u ++ (textBytes (escapedChar b).toList ++ v) := by
        have hz := s.noNul
        rw [huv] at hz
        simp only [List.mem_append, List.mem_cons, not_or] at hz ⊢
        exact ⟨hz.1, zero_notMem_of_isPrint hspelled, hz.2.2⟩
      have heq := h.eq hnoNul (by
        rw [huv, escaped_append, escaped_append, escaped_isPrint hspelled,
          asText_textBytes (printChar_escapedChar b), escaped_append, escaped_cons])
      have hlen := congrArg List.length heq
      have hlong := length_escapedChar hno
      rw [huv] at hlen
      simp only [List.length_append, List.length_cons, textBytes, List.length_map] at hlen
      omega
    refine ⟨hprint, ?_⟩
    rintro b hb hno ⟨p, q, hpq⟩
    -- the character in the place of its escape
    obtain ⟨u, w, huw, hu, hw⟩ := List.map_eq_append_iff.mp hpq.symm
    obtain ⟨x, e, hxe, hx, he⟩ := List.map_eq_append_iff.mp hu
    have hs : s.bytes = x ++ (e ++ w) := by rw [huw, hxe, List.append_assoc]
    have hsub : ∀ c ∈ x ++ (e ++ w), IsPrint c := by
      rw [← hs]
      exact hprint
    have hxw : (∀ c ∈ x, IsPrint c) ∧ ∀ c ∈ w, IsPrint c := by
      refine ⟨fun c hc => hsub c ?_, fun c hc => hsub c ?_⟩ <;>
        simp only [List.mem_append, hc, true_or, or_true]
    have hnoNul : 0 ∉ x ++ b :: w := by
      simp only [List.mem_append, List.mem_cons, not_or]
      exact ⟨zero_notMem_of_isPrint hxw.1, fun h => hb h.symm, zero_notMem_of_isPrint hxw.2⟩
    have heq := h.eq hnoNul (by
      rw [escaped_isPrint hprint, escaped_append, escaped_cons, escaped_isPrint hxw.1, escaped_isPrint hxw.2]
      rw [← hpq, List.append_assoc, ← hx, ← hw]
      rfl)
    have hlen := congrArg List.length heq
    have hlong := length_escapedChar hno
    rw [hs] at hlen
    rw [← he] at hlong
    simp only [List.length_append, List.length_cons, List.length_map] at hlen hlong
    omega
  · rintro ⟨hprint, hfree⟩
    refine ⟨?_, ?_⟩
    · intro t hne htext
      have htext' : escaped t.bytes = asText s.bytes := by
        rw [← CString.toList_text, htext, CString.toList_text, escaped_isPrint hprint]
      by_cases ht : ∀ b ∈ t.bytes, IsPrint b
      · rw [escaped_isPrint ht] at htext'
        exact hne (asText_inj htext')
      · push Not at ht
        obtain ⟨b, hb, hno⟩ := ht
        obtain ⟨u, v, huv⟩ := List.append_of_mem hb
        refine hfree b (fun h => t.noNul (h ▸ hb)) hno ⟨escaped u, escaped v, ?_⟩
        rw [← htext', huv, escaped_append, escaped_cons, List.append_assoc]
    · rw [CString.toList_text]
      exact printable_escaped s.bytes

/-- A carriage return has the text of a newline. -/
theorem texts_collide : ¬ ∀ s t : CString, s.bytes ≠ t.bytes → s.text ≠ t.text := fun h =>
  h ⟨[13], by decide⟩ ⟨[10], by decide⟩ (by decide) (by decide +kernel)

end Trick.VarServer.VariableReference
