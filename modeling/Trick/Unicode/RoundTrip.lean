/-
  Escaping a string and back.

  A backslash is a printable character and is left as it is, so the text of a string that contains one is
  read as an escape; a vertical tab comes back as a backspace.  Every other character has an escape that
  `unescape_to_utf8` turns back into its encoding.

  1. **One character** (`unescape_char`): its escape puts out its encoding.

  2. **Main result** (`escapes`): the round trip, and what the two functions return and write.
-/
import Trick.Unicode.UnescapeToUtf8

namespace Trick.Unicode

open Trick.Lib

/-! ## Strings -/

/-- **Valid UTF-8**: the encodings of some characters. -/
def ValidUtf8 (s : List UInt8) : Prop := ∃ text : List Char, s = text.flatMap String.utf8EncodeChar

/-- A string that comes back: there are no two arrays of enough room, which are found out by calls without an
    array, in which it does not. -/
def Recovered (s : List UInt8) : Prop :=
  ∀ (out back : Buffer) (outSize backSize : Nat), out.Fresh outSize → back.Fresh backSize →
    (escapeToAscii (some s) none 0).2 < outSize → s.length < backSize →
      ∃ out' n back', escapeToAscii (some s) (some out) outSize = (some out', n) ∧
        unescapeToUtf8 (some out'.cells) (some back) backSize = (some back', s.length) ∧
        back'.cells.take (s.length + 1) = s ++ [0]

/-! ## One character -/

/-- The escape of an ASCII character. -/
theorem unescape_ascii {n : Nat} (h : n ≤ 0x7f) (hslash : n ≠ 0x5c) (htab : n ≠ 0x0b) :
    (asciiElements (UInt8.ofNat n)).foldl unescaper.feed (.normal, []) = (.normal, [UInt8.ofNat n]) := by
  have hall : ∀ n < 0x80, n ≠ 0x5c → n ≠ 0x0b →
      (asciiElements (UInt8.ofNat n)).foldl unescaper.feed (.normal, []) = (.normal, [UInt8.ofNat n]) := by
    decide +kernel
  exact hall n (by omega) hslash htab

/-- The escape of any other character. -/
theorem unescape_codePoint {codePoint : Nat} (h : codePoint < 0x110000) :
    (codePointElements codePoint).foldl unescaper.feed (.normal, []) = (.normal, ucodepointToUtf8 codePoint) := by
  have hu : (ascii ['\\', 'u']).foldl unescaper.feed (.normal, []) = (.hex 4 0, []) := by decide +kernel
  have hU : (ascii ['\\', 'U']).foldl unescaper.feed (.normal, []) = (.hex 8 0, []) := by decide +kernel
  unfold codePointElements
  split
  · rename_i hshort
    have hval : 0 * 16 ^ 4 + codePoint % 16 ^ 4 = codePoint := by omega
    have hdigits := output_hexDigits 3 codePoint 0 [] (by omega)
    rw [hval] at hdigits
    rw [List.foldl_append, hu]
    exact hdigits
  · have hval : 0 * 16 ^ 8 + codePoint % 16 ^ 8 = codePoint := by omega
    have hdigits := output_hexDigits 7 codePoint 0 [] (by omega)
    rw [hval] at hdigits
    rw [List.foldl_append, hU]
    exact hdigits

/-- **The escape of a character puts out its encoding.** -/
theorem unescape_char {c : Char} (hslash : c.toNat ≠ 0x5c) (htab : c.toNat ≠ 0x0b) (acc : List UInt8) :
    (charElements c).foldl unescaper.feed (.normal, acc) = (.normal, acc ++ String.utf8EncodeChar c) := by
  have hone : (charElements c).foldl unescaper.feed (.normal, []) = (.normal, String.utf8EncodeChar c) := by
    rw [← ucodepointToUtf8_char]
    unfold charElements
    split
    · rename_i hlow
      have henc : ucodepointToUtf8 c.toNat = [UInt8.ofNat c.toNat] := if_pos hlow
      rw [henc]
      exact unescape_ascii hlow hslash htab
    · exact unescape_codePoint (toNat_lt_max c)
  rw [Converter.run_append, hone]

/-! ## Whole strings -/

/-- A byte below 0x80 occurs only as the encoding of its character. -/
theorem ne_of_not_mem {text : List Char} {n : Nat} (hn : n ≤ 0x7f)
    (h : UInt8.ofNat n ∉ text.flatMap String.utf8EncodeChar) : ∀ c ∈ text, c.toNat ≠ n := by
  rintro c hc rfl
  have hval : c.val.toNat = c.toNat := rfl
  have henc : String.utf8EncodeChar c = [UInt8.ofNat c.toNat] := by
    unfold String.utf8EncodeChar
    simp only [hval, hn, if_true]
  exact h (List.mem_flatMap.mpr ⟨c, hc, henc ▸ List.mem_singleton_self _⟩)

/-- The text of a string. -/
theorem escape_chars (text : List Char) (acc : List UInt8) :
    (text.flatMap String.utf8EncodeChar).foldl escaper.feed (.normal, acc) =
      (.normal, acc ++ text.flatMap charElements) := by
  induction text generalizing acc with
  | nil => exact Prod.ext rfl (List.append_nil acc).symm
  | cons c text ih =>
    rw [List.flatMap_cons, List.foldl_append, output_char, ih, List.append_assoc, List.flatMap_cons]

/-- The string of a text. -/
theorem unescape_chars {text : List Char} (hslash : ∀ c ∈ text, c.toNat ≠ 0x5c) (htab : ∀ c ∈ text, c.toNat ≠ 0x0b)
    (acc : List UInt8) :
    (text.flatMap charElements).foldl unescaper.feed (.normal, acc) =
      (.normal, acc ++ text.flatMap String.utf8EncodeChar) := by
  induction text generalizing acc with
  | nil => exact Prod.ext rfl (List.append_nil acc).symm
  | cons c text ih =>
    obtain ⟨hc, hrest⟩ := List.forall_mem_cons.mp hslash
    obtain ⟨hc', hrest'⟩ := List.forall_mem_cons.mp htab
    rw [List.flatMap_cons, List.foldl_append, unescape_char hc hc', ih hrest hrest', List.append_assoc,
      List.flatMap_cons]

/-- The array of a result that is printable holds it as a string. -/
theorem cString_of_take {cells bytes : List UInt8} (h : cells.take (bytes.length + 1) = bytes ++ [0]) (hno : 0 ∉ bytes) :
    cString cells = bytes := by
  have hfront := congrArg (List.take bytes.length) h
  rw [List.take_take, Nat.min_eq_left (Nat.le_succ _), List.take_left] at hfront
  have hstop : (cells.take (bytes.length + 1))[bytes.length]? = (bytes ++ [0])[bytes.length]? := by rw [h]
  rw [List.getElem?_take_of_lt (Nat.lt_succ_self _), List.getElem?_append_right (Nat.le_refl _), Nat.sub_self] at hstop
  exact Buffer.cString_of_stop hfront hstop hno

/-- **The round trip.** -/
theorem recovered {s : List UInt8} (hs : ValidUtf8 s) (hnul : 0 ∉ s) (hslash : 0x5c ∉ s) (htab : 0x0b ∉ s) :
    Recovered s := by
  obtain ⟨text, rfl⟩ := hs
  intro out back outSize backSize hout hback hsize hbackSize
  -- the two results
  have houtput : escaper.output (text.flatMap String.utf8EncodeChar) = (.normal, text.flatMap charElements) := by
    unfold Converter.output
    rw [cString_eq_self hnul]
    exact escape_chars text []
  have hres : escaper.result (text.flatMap String.utf8EncodeChar) = text.flatMap charElements := by
    unfold Converter.result
    rw [houtput]
    exact if_pos rfl
  have hprint := isPrint_result (text.flatMap String.utf8EncodeChar)
  rw [hres] at hprint
  have hno : 0 ∉ text.flatMap charElements := fun hmem => ne_zero_of_isPrint (hprint 0 hmem) rfl
  have hlen : (escapeToAscii (some (text.flatMap String.utf8EncodeChar)) none 0).2 =
      (text.flatMap charElements).length := by
    unfold escapeToAscii
    rw [Converter.convert_null, hres]
  rw [hlen] at hsize
  -- the first call
  have hroom : escaper.room (text.flatMap String.utf8EncodeChar) < outSize := by
    unfold Converter.room
    rw [houtput]
    exact hsize
  obtain ⟨out', hcall, htake, -⟩ := Converter.convert_sufficient escaper_noNul hout hroom
  rw [hres] at htake
  -- the second call
  have hback' : unescaper.output out'.cells = (.normal, text.flatMap String.utf8EncodeChar) := by
    unfold Converter.output
    rw [cString_of_take htake hno]
    exact unescape_chars (ne_of_not_mem (by omega) hslash) (ne_of_not_mem (by omega) htab) []
  have hres' : unescaper.result out'.cells = text.flatMap String.utf8EncodeChar := by
    unfold Converter.result
    rw [hback']
    exact if_pos rfl
  have hroom' : unescaper.room out'.cells < backSize := by
    unfold Converter.room
    rw [hback']
    exact hbackSize
  obtain ⟨back', hcall', htake', -⟩ := Converter.convert_sufficient unescaper_noNul hback hroom'
  rw [hres'] at hcall' htake'
  exact ⟨out', _, back', hcall, hcall', htake'⟩

/-! ## Lengths -/

/-- **What a call of `f` leaves in a sufficient array**, with the length that a call without one returns. -/
def LengthAgrees {σ : Type} [DecidableEq σ] (c : Converter σ)
    (f : Option (List UInt8) → Option Buffer → Nat → Option Buffer × Nat) : Prop :=
  ∀ (input : Option (List UInt8)) (b : Buffer) (outSize size₀ : Nat), b.Fresh outSize →
    (∀ text, input = some text → c.room text < outSize) →
      ∃ b', f input (some b) outSize = (some b', (f input none size₀).2) ∧ b'.Within outSize ∧
        ∀ text, input = some text → (f input none size₀).2 = (c.result text).length ∧
          b'.cells.take ((c.result text).length + 1) = c.result text ++ [0]

theorem lengthAgrees {σ : Type} [DecidableEq σ] {c : Converter σ} (hno : c.NoNul) : LengthAgrees c c.convert := by
  intro input b outSize size₀ hb hroom
  cases input with
  | none => exact ⟨b, rfl, hb.within, fun text h => nomatch h⟩
  | some text =>
    obtain ⟨b', hcall, htake, hwithin⟩ := Converter.convert_sufficient hno hb (hroom text rfl)
    refine ⟨b', ?_, hwithin, ?_⟩
    · rw [hcall, Converter.convert_null]
    · intro text' htext
      obtain rfl : text = text' := Option.some.inj htext
      rw [Converter.convert_null]
      exact ⟨rfl, htake⟩

/-! ## Main result -/

/-- **What the two functions do.** -/
structure Escapes : Prop where
  /-- A valid string without a NUL, a backslash or a vertical tab comes back. -/
  roundTrip : ∀ s, ValidUtf8 s → 0 ∉ s → 0x5c ∉ s → 0x0b ∉ s → Recovered s
  /-- Whatever the input and the array, nothing outside the array is written, and the string in it is printable. -/
  escapeWithin : ∀ (input : Option (List UInt8)) (b : Buffer) (outSize : Nat), b.Fresh outSize → 0 < outSize →
    ∃ b' n, escapeToAscii input (some b) outSize = (some b', n) ∧ b'.Within outSize ∧
      (input ≠ none → (cString b'.cells).length = n ∧ ∀ x ∈ cString b'.cells, IsPrint x)
  escapeLength : LengthAgrees escaper escapeToAscii
  unescapeLength : LengthAgrees unescaper unescapeToUtf8

theorem escape_within (input : Option (List UInt8)) {b : Buffer} {outSize : Nat} (hb : b.Fresh outSize)
    (hpos : 0 < outSize) :
    ∃ b' n, escapeToAscii input (some b) outSize = (some b', n) ∧ b'.Within outSize ∧
      (input ≠ none → (cString b'.cells).length = n ∧ ∀ x ∈ cString b'.cells, IsPrint x) := by
  cases input with
  | none => exact ⟨b, 0, rfl, hb.within, fun h => absurd rfl h⟩
  | some text =>
    obtain ⟨b', bytes, hcall, hwithin, htake, hbytes⟩ :=
      Converter.convert_checked escaper_noNul (fun _ _ => rfl) EscapeState.noConfusion text hb hpos
    have hprint : ∀ x ∈ bytes, IsPrint x := by
      rcases hbytes with rfl | rfl
      · exact isPrint_result text
      · exact fun x hx => absurd hx List.not_mem_nil
    have hstring : cString b'.cells = bytes :=
      cString_of_take htake fun hmem => ne_zero_of_isPrint (hprint 0 hmem) rfl
    refine ⟨b', bytes.length, hcall, hwithin, fun _ => ?_⟩
    rw [hstring]
    exact ⟨rfl, hprint⟩

/-- **Escaping and back.** -/
theorem escapes : Escapes where
  roundTrip := fun _ hs hnul hslash htab => recovered hs hnul hslash htab
  escapeWithin := fun input _ _ hb hpos => escape_within input hb hpos
  escapeLength := lengthAgrees escaper_noNul
  unescapeLength := lengthAgrees unescaper_noNul

/-- An array of zeros. -/
def zeros (n : Nat) : Buffer where
  cells := List.replicate n 0

theorem zeros_fresh (n : Nat) : (zeros n).Fresh n where
  length := Nat.le_of_eq List.length_replicate.symm
  written := rfl

/-- A backslash does not come back, and neither does a vertical tab; an array of no elements is written to, and
    `unescape_to_utf8` writes behind an array that is too small. -/
theorem not_escapes :
    (ValidUtf8 [0x5c] ∧ ¬ Recovered [0x5c]) ∧ (ValidUtf8 [0x0b] ∧ ¬ Recovered [0x0b]) ∧
      (∃ b', escapeToAscii (some [0x61]) (some (zeros 2)) 0 = (some b', 0) ∧ 0 ∈ b'.written) ∧
      ∃ b', unescapeToUtf8 (some [0x61, 0x62]) (some (zeros 4)) 1 = (some b', 2) ∧ 2 ∈ b'.written := by
  have hslash : escapeToAscii (some [0x5c]) (some (zeros 8)) 8 =
      (some { cells := [0x5c, 0, 0, 0, 0, 0, 0, 0], written := [1, 1, 0, 0] }, 1) := by decide +kernel
  have htab : escapeToAscii (some [0x0b]) (some (zeros 8)) 8 =
      (some { cells := [0x5c, 0x76, 0, 0, 0, 0, 0, 0], written := [2, 2, 1, 0, 0] }, 2) := by decide +kernel
  refine ⟨⟨⟨['\\'], by decide⟩, ?_⟩, ⟨⟨[Char.ofNat 11], by decide⟩, ?_⟩, ?_, ?_⟩
  · intro h
    obtain ⟨out', n, back', hescape, hunescape, -⟩ :=
      h (zeros 8) (zeros 8) 8 8 (zeros_fresh 8) (zeros_fresh 8) (by decide +kernel) (by decide)
    obtain rfl := Option.some.inj (Prod.ext_iff.mp (hslash.symm.trans hescape)).1
    -- the backslash begins an escape that does not end
    have hzero : (unescapeToUtf8 (some [0x5c, 0, 0, 0, 0, 0, 0, 0]) (some (zeros 8)) 8).2 = 0 := by decide +kernel
    rw [hunescape] at hzero
    exact absurd (show 1 = 0 from hzero) (by decide)
  · intro h
    obtain ⟨out', n, back', hescape, hunescape, htake⟩ :=
      h (zeros 8) (zeros 8) 8 8 (zeros_fresh 8) (zeros_fresh 8) (by decide +kernel) (by decide)
    obtain rfl := Option.some.inj (Prod.ext_iff.mp (htab.symm.trans hescape)).1
    have hback : (unescapeToUtf8 (some [0x5c, 0x76, 0, 0, 0, 0, 0, 0]) (some (zeros 8)) 8).1 =
        some { cells := [0x08, 0, 0, 0, 0, 0, 0, 0], written := [1, 0, 0] } := by decide +kernel
    rw [hunescape] at hback
    obtain rfl := Option.some.inj hback
    exact absurd htake (by decide)
  · exact ⟨{ cells := [0, 0], written := [0, 0] }, by decide +kernel, by decide⟩
  · exact ⟨{ cells := [0x61, 0x62, 0, 0], written := [2, 1, 0, 0] }, by decide +kernel, by decide⟩

end Trick.Unicode
