/-
  `escape_to_ascii`: UTF-8 to printable ASCII.

  1. **Program.**  `escapeToAscii` is `convert` with the switch `EscapeState.step`: ASCII characters, the
     first bytes of longer sequences, which say how many continuation bytes follow, and those bytes, which
     are collected in `codePoint`.

  2. **Main results**: all that is put out is printable (`isPrint_output`), and the encoding of a character
     becomes its escape (`output_char`).
-/
import Trick.Unicode.Converter

namespace Trick.Unicode

open Trick.Lib

/-! ## Program -/

/-- The bytes of an ASCII text. -/
def ascii (text : List Char) : List UInt8 := text.map Char.toUInt8

/-- `isprint` -/
def IsPrint (ch : UInt8) : Prop := 0x20 ≤ ch ∧ ch ≤ 0x7e

instance (ch : UInt8) : Decidable (IsPrint ch) := inferInstanceAs (Decidable (_ ∧ _))

/-- A digit of `%x`. -/
def hexDigit (d : Nat) : UInt8 := UInt8.ofNat (if d < 10 then 48 + d else 87 + d)

/-- `%02x`, `%04x` and `%08x`, of a number that has no more digits than that. -/
def hexDigits : Nat → Nat → List UInt8
  | 0, _ => []
  | n + 1, v => hexDigit (v / 16 ^ n % 16) :: hexDigits n v

/-- `ascii_elements` of an ASCII character. -/
def asciiElements (ch : UInt8) : List UInt8 :=
  if ch = 0x07 then ascii ['\\', 'a']
  else if ch = 0x08 then ascii ['\\', 'b']
  else if ch = 0x0c then ascii ['\\', 'f']
  else if ch = 0x0a then ascii ['\\', 'n']
  else if ch = 0x0d then ascii ['\\', 'r']
  else if ch = 0x09 then ascii ['\\', 't']
  else if ch = 0x0b then ascii ['\\', 'v']
  else if IsPrint ch then [ch]
  else ascii ['\\', 'x'] ++ hexDigits 2 ch.toNat

/-- `ascii_elements` of any other character. -/
def codePointElements (codePoint : Nat) : List UInt8 :=
  if codePoint ≤ 0xffff then ascii ['\\', 'u'] ++ hexDigits 4 codePoint
  else ascii ['\\', 'U'] ++ hexDigits 8 codePoint

/-- `state`: zero, the number of continuation bytes that are expected, or `ERROR_STATE`. -/
inductive EscapeState where
  | normal
  /-- One continuation byte, and as many after it. -/
  | expecting (after codePoint : Nat)
  | error
deriving DecidableEq

/-- `case 0` -/
def stepNormal (ch : UInt8) : EscapeState × List UInt8 :=
  if 0xf0 ≤ ch then (.expecting 2 (ch &&& 0x07).toNat, [])
  else if 0xe0 ≤ ch then (.expecting 1 (ch &&& 0x0f).toNat, [])
  else if 0xc0 ≤ ch then (.expecting 0 (ch &&& 0x1f).toNat, [])
  -- "We should never find a continuation byte in isolation."
  else if 0x80 ≤ ch then (.error, [])
  else (.normal, asciiElements ch)

/-- `case 1`, `case 2` and `case 3` -/
def stepExpecting (after codePoint : Nat) (ch : UInt8) : EscapeState × List UInt8 :=
  if ch &&& 0xc0 = 0x80 then
    let codePoint := codePoint <<< 6 ||| (ch &&& 0x3f).toNat
    match after with
    | 0 => (.normal, codePointElements codePoint)
    | after + 1 => (.expecting after codePoint, [])
  else (.error, [])

/-- **The switch.** -/
def EscapeState.step : EscapeState → UInt8 → EscapeState × List UInt8
  | .normal, ch => stepNormal ch
  | .expecting after codePoint, ch => stepExpecting after codePoint ch
  | .error, _ => (.error, [])

def escaper : Converter EscapeState where
  initial := .normal
  failed := .error
  step := EscapeState.step
  -- every write is behind a test
  checked := fun _ _ => true
  append := true

/-- **`escape_to_ascii`** -/
def escapeToAscii : Option (List UInt8) → Option Buffer → Nat → Option Buffer × Nat := escaper.convert

/-! ## The text is printable -/

/-- A property of all bytes. -/
theorem forall_byte {P : UInt8 → Prop} (h : ∀ n < 256, P (UInt8.ofNat n)) (b : UInt8) : P b := by
  have hb := h b.toNat (UInt8.toNat_lt b)
  rwa [UInt8.ofNat_toNat] at hb

theorem isPrint_hexDigit {d : Nat} (h : d < 16) : IsPrint (hexDigit d) := by
  revert d
  decide

theorem isPrint_hexDigits (n v : Nat) : ∀ x ∈ hexDigits n v, IsPrint x := by
  induction n with
  | zero => exact fun x hx => absurd hx List.not_mem_nil
  | succ n ih =>
    intro x hx
    rcases List.mem_cons.mp hx with rfl | hx
    · exact isPrint_hexDigit (Nat.mod_lt _ (by omega))
    · exact ih x hx

theorem isPrint_asciiElements (ch : UInt8) : ∀ x ∈ asciiElements ch, IsPrint x := by
  have hall : ∀ n < 256, (asciiElements (UInt8.ofNat n)).all (fun x => decide (IsPrint x)) = true := by
    decide +kernel
  have hch := forall_byte (P := fun ch => (asciiElements ch).all (fun x => decide (IsPrint x)) = true) hall ch
  intro x hx
  exact of_decide_eq_true (List.all_eq_true.mp hch x hx)

theorem isPrint_codePointElements (codePoint : Nat) : ∀ x ∈ codePointElements codePoint, IsPrint x := by
  have hu : ∀ x ∈ ascii ['\\', 'u'] ++ ascii ['\\', 'U'], IsPrint x := by decide +kernel
  intro x hx
  unfold codePointElements at hx
  split at hx
  · rcases List.mem_append.mp hx with hx | hx
    · exact hu x (List.mem_append_left _ hx)
    · exact isPrint_hexDigits _ _ x hx
  · rcases List.mem_append.mp hx with hx | hx
    · exact hu x (List.mem_append_right _ hx)
    · exact isPrint_hexDigits _ _ x hx

theorem isPrint_step (s : EscapeState) (ch : UInt8) : ∀ x ∈ (s.step ch).2, IsPrint x := by
  have hnone : ∀ x ∈ ([] : List UInt8), IsPrint x := fun x hx => absurd hx List.not_mem_nil
  cases s with
  | normal =>
    show ∀ x ∈ (stepNormal ch).2, IsPrint x
    unfold stepNormal
    split_ifs
    · exact hnone
    · exact hnone
    · exact hnone
    · exact hnone
    · exact isPrint_asciiElements ch
  | expecting after codePoint =>
    show ∀ x ∈ (stepExpecting after codePoint ch).2, IsPrint x
    unfold stepExpecting
    split_ifs
    · cases after with
      | zero => exact isPrint_codePointElements _
      | succ after => exact hnone
    · exact hnone
  | error => exact hnone

/-- What is put out for any input. -/
theorem isPrint_run (text : List UInt8) {p : EscapeState × List UInt8} (h : ∀ x ∈ p.2, IsPrint x) :
    ∀ x ∈ (text.foldl escaper.feed p).2, IsPrint x := by
  induction text generalizing p with
  | nil => exact h
  | cons ch text ih =>
    apply ih
    unfold Converter.feed
    split
    · exact h
    · intro x hx
      rcases List.mem_append.mp hx with hx | hx
      · exact h x hx
      · exact isPrint_step p.1 ch x hx

/-- **The result is printable**, whatever the input. -/
theorem isPrint_result (text : List UInt8) : ∀ x ∈ escaper.result text, IsPrint x := by
  unfold Converter.result
  split
  · exact isPrint_run (cString text) fun x hx => absurd hx List.not_mem_nil
  · exact fun x hx => absurd hx List.not_mem_nil

theorem ne_zero_of_isPrint {x : UInt8} (h : IsPrint x) : x ≠ 0 := by
  rintro rfl
  revert h
  decide

theorem escaper_noNul : escaper.NoNul := fun _ s ch _ hmem => ne_zero_of_isPrint (isPrint_step s ch 0 hmem) rfl

/-! ## One character -/

/-- The escape of a character. -/
def charElements (c : Char) : List UInt8 :=
  if c.toNat ≤ 0x7f then asciiElements (UInt8.ofNat c.toNat) else codePointElements c.toNat

theorem step_ascii {n : Nat} (h : n ≤ 0x7f) :
    EscapeState.normal.step (UInt8.ofNat n) = (.normal, asciiElements (UInt8.ofNat n)) := by
  have hlead : ∀ n < 0x80, ¬ 0xf0 ≤ UInt8.ofNat n ∧ ¬ 0xe0 ≤ UInt8.ofNat n ∧ ¬ 0xc0 ≤ UInt8.ofNat n ∧
      ¬ 0x80 ≤ UInt8.ofNat n := by
    decide +kernel
  obtain ⟨h4, h3, h2, h1⟩ := hlead n (by omega)
  show stepNormal (UInt8.ofNat n) = _
  unfold stepNormal
  rw [if_neg h4, if_neg h3, if_neg h2, if_neg h1]

/-- The first byte of a sequence says how many follow, and carries the first bits. -/
theorem step_lead :
    (∀ d < 32, EscapeState.normal.step (UInt8.ofNat (d + 0xc0)) = (.expecting 0 d, [])) ∧
    (∀ d < 16, EscapeState.normal.step (UInt8.ofNat (d + 0xe0)) = (.expecting 1 d, [])) ∧
    (∀ d < 8, EscapeState.normal.step (UInt8.ofNat (d + 0xf0)) = (.expecting 2 d, [])) := by
  refine ⟨?_, ?_, ?_⟩
  all_goals decide +kernel

/-- A continuation byte carries six bits. -/
theorem continuation_byte {d : Nat} (h : d < 64) :
    UInt8.ofNat (d + 0x80) &&& 0xc0 = 0x80 ∧ (UInt8.ofNat (d + 0x80) &&& 0x3f).toNat = d := by
  revert d
  decide +kernel

theorem shift_or (codePoint : Nat) {d : Nat} (h : d < 64) : codePoint <<< 6 ||| d = codePoint * 64 + d := by
  rw [← Nat.shiftLeft_add_eq_or_of_lt (i := 6) h, Nat.shiftLeft_eq]

theorem step_more (after codePoint : Nat) {d : Nat} (h : d < 64) :
    (EscapeState.expecting (after + 1) codePoint).step (UInt8.ofNat (d + 0x80)) =
      (.expecting after (codePoint * 64 + d), []) := by
  obtain ⟨hmark, hbits⟩ := continuation_byte h
  show stepExpecting (after + 1) codePoint (UInt8.ofNat (d + 0x80)) = _
  unfold stepExpecting
  simp only [hmark, if_true, hbits, shift_or codePoint h]

theorem step_last (codePoint : Nat) {d : Nat} (h : d < 64) :
    (EscapeState.expecting 0 codePoint).step (UInt8.ofNat (d + 0x80)) =
      (.normal, codePointElements (codePoint * 64 + d)) := by
  obtain ⟨hmark, hbits⟩ := continuation_byte h
  show stepExpecting 0 codePoint (UInt8.ofNat (d + 0x80)) = _
  unfold stepExpecting
  simp only [hmark, if_true, hbits, shift_or codePoint h]

/-- A step outside `ERROR_STATE`. -/
theorem feed_normal (acc : List UInt8) (ch : UInt8) :
    escaper.feed (.normal, acc) ch = ((EscapeState.normal.step ch).1, acc ++ (EscapeState.normal.step ch).2) :=
  if_neg (show ¬ EscapeState.normal = EscapeState.error from EscapeState.noConfusion)

theorem feed_expecting (after codePoint : Nat) (acc : List UInt8) (ch : UInt8) :
    escaper.feed (.expecting after codePoint, acc) ch =
      (((EscapeState.expecting after codePoint).step ch).1,
        acc ++ ((EscapeState.expecting after codePoint).step ch).2) :=
  if_neg (show ¬ EscapeState.expecting after codePoint = EscapeState.error from EscapeState.noConfusion)

/-- A byte that puts nothing out. -/
theorem feed_more (after codePoint : Nat) (acc : List UInt8) {d : Nat} (h : d < 64) :
    escaper.feed (.expecting (after + 1) codePoint, acc) (UInt8.ofNat (d + 0x80)) =
      (.expecting after (codePoint * 64 + d), acc) := by
  rw [feed_expecting, step_more after codePoint h, List.append_nil]

theorem feed_last (codePoint : Nat) (acc : List UInt8) {d : Nat} (h : d < 64) :
    escaper.feed (.expecting 0 codePoint, acc) (UInt8.ofNat (d + 0x80)) =
      (.normal, acc ++ codePointElements (codePoint * 64 + d)) := by
  rw [feed_expecting, step_last codePoint h]

theorem toNat_lt_max (c : Char) : c.toNat < 0x110000 := by
  rcases c.valid with hlow | ⟨-, hhigh⟩
  · exact Nat.lt_trans hlow (by decide)
  · exact hhigh

/-- **The encoding of a character becomes its escape.** -/
theorem output_char (c : Char) (acc : List UInt8) :
    (String.utf8EncodeChar c).foldl escaper.feed (.normal, acc) = (.normal, acc ++ charElements c) := by
  obtain ⟨hlead2, hlead3, hlead4⟩ := step_lead
  have hmax := toNat_lt_max c
  have hval : c.val.toNat = c.toNat := rfl
  unfold String.utf8EncodeChar charElements
  simp only [hval]
  by_cases h1 : c.toNat ≤ 0x7f
  · rw [if_pos h1, if_pos h1, List.foldl_cons, feed_normal, step_ascii h1]
    rfl
  · rw [if_neg h1, if_neg h1]
    by_cases h2 : c.toNat ≤ 0x7ff
    · rw [if_pos h2, List.foldl_cons, feed_normal, hlead2 _ (Nat.mod_lt _ (by omega)), List.append_nil,
        List.foldl_cons, feed_last _ _ (Nat.mod_lt _ (by omega))]
      have hsum : c.toNat / 64 % 32 * 64 + c.toNat % 64 = c.toNat := by omega
      rw [hsum]
      rfl
    · rw [if_neg h2]
      by_cases h3 : c.toNat ≤ 0xffff
      · rw [if_pos h3, List.foldl_cons, feed_normal, hlead3 _ (Nat.mod_lt _ (by omega)), List.append_nil,
          List.foldl_cons, feed_more _ _ _ (Nat.mod_lt _ (by omega)),
          List.foldl_cons, feed_last _ _ (Nat.mod_lt _ (by omega))]
        have hsum : (c.toNat / 4096 % 16 * 64 + c.toNat / 64 % 64) * 64 + c.toNat % 64 = c.toNat := by omega
        rw [hsum]
        rfl
      · rw [if_neg h3, List.foldl_cons, feed_normal, hlead4 _ (Nat.mod_lt _ (by omega)), List.append_nil,
          List.foldl_cons, feed_more _ _ _ (Nat.mod_lt _ (by omega)),
          List.foldl_cons, feed_more _ _ _ (Nat.mod_lt _ (by omega)),
          List.foldl_cons, feed_last _ _ (Nat.mod_lt _ (by omega))]
        have hsum : ((c.toNat / 262144 % 8 * 64 + c.toNat / 4096 % 64) * 64 + c.toNat / 64 % 64) * 64 +
            c.toNat % 64 = c.toNat := by omega
        rw [hsum]
        rfl

end Trick.Unicode
