/-
  `unescape_to_utf8`: the escapes of a text back to UTF-8.

  1. **Program.**  `unescapeToUtf8` is `convert` with the switch `UnescapeState.step`: plain characters, the
     byte behind a backslash, the digits of a number, and the bytes of UTF-8 sequences, which are copied.
     Only the character that a number stands for is put out behind a test.

  2. **Main result** (`output_hexDigits`): the digits of a number put out its encoding.
-/
import Mathlib.Tactic.Ring
import Trick.Unicode.EscapeToAscii

namespace Trick.Unicode

/-! ## Program -/

/-- `ucodepoint_to_utf8` -/
def ucodepointToUtf8 (codePoint : Nat) : List UInt8 :=
  if codePoint ≤ 0x7f then [UInt8.ofNat codePoint]
  else if codePoint ≤ 0x7ff then
    [UInt8.ofNat (0xc0 ||| codePoint >>> 6 &&& 0x1f), UInt8.ofNat (0x80 ||| codePoint &&& 0x3f)]
  else if codePoint ≤ 0xffff then
    [UInt8.ofNat (0xe0 ||| codePoint >>> 12 &&& 0x0f), UInt8.ofNat (0x80 ||| codePoint >>> 6 &&& 0x3f),
      UInt8.ofNat (0x80 ||| codePoint &&& 0x3f)]
  else
    [UInt8.ofNat (0xf0 ||| codePoint >>> 18 &&& 0x07), UInt8.ofNat (0x80 ||| codePoint >>> 12 &&& 0x3f),
      UInt8.ofNat (0x80 ||| codePoint >>> 6 &&& 0x3f), UInt8.ofNat (0x80 ||| codePoint &&& 0x3f)]

/-- `state` -/
inductive UnescapeState where
  | normal
  /-- "We've found a `\` character." -/
  | escaped
  /-- "We've found `\x`, `\u` or `\U`." -/
  | hex (digitsExpected codePoint : Nat)
  /-- One continuation byte is expected, and as many after it. -/
  | expecting (after : Nat)
  | error
deriving DecidableEq

/-- `case 0` -/
def unescapeNormal (ch : UInt8) : UnescapeState × List UInt8 :=
  if 0xf0 ≤ ch then (.expecting 2, [ch])
  else if 0xe0 ≤ ch then (.expecting 1, [ch])
  else if 0xc0 ≤ ch then (.expecting 0, [ch])
  else if 0x80 ≤ ch then (.error, [])
  else if ch = 0x5c then (.escaped, [])
  else (.normal, [ch])

/-- `case 1` -/
def unescapeEscaped (ch : UInt8) : UnescapeState × List UInt8 :=
  if ch = 0x27 ∨ ch = 0x22 ∨ ch = 0x3f ∨ ch = 0x5c then (.normal, [ch])
  else if ch = 'a'.toUInt8 then (.normal, [0x07])
  else if ch = 'b'.toUInt8 then (.normal, [0x08])
  else if ch = 'f'.toUInt8 then (.normal, [0x0c])
  else if ch = 'n'.toUInt8 then (.normal, [0x0a])
  else if ch = 'r'.toUInt8 then (.normal, [0x0d])
  else if ch = 't'.toUInt8 then (.normal, [0x09])
  -- the source has `'\b'` here
  else if ch = 'v'.toUInt8 then (.normal, [0x08])
  else if ch = 'x'.toUInt8 then (.hex 2 0, [])
  else if ch = 'u'.toUInt8 then (.hex 4 0, [])
  else if ch = 'U'.toUInt8 then (.hex 8 0, [])
  else (.error, [])

/-- `digit` -/
def digitValue (ch : UInt8) : Option Nat :=
  if '0'.toUInt8 ≤ ch ∧ ch ≤ '9'.toUInt8 then some (ch.toNat - 48)
  else if 'A'.toUInt8 ≤ ch ∧ ch ≤ 'F'.toUInt8 then some (ch.toNat - 65 + 10)
  else if 'a'.toUInt8 ≤ ch ∧ ch ≤ 'f'.toUInt8 then some (ch.toNat - 97 + 10)
  else none

/-- `case 2` -/
def unescapeHex (digitsExpected codePoint : Nat) (ch : UInt8) : UnescapeState × List UInt8 :=
  match digitValue ch with
  | none => (.error, [])
  | some digit =>
    let codePoint := (codePoint * 16 + digit) % 2 ^ 32
    if digitsExpected - 1 = 0 then (.normal, ucodepointToUtf8 codePoint)
    else (.hex (digitsExpected - 1) codePoint, [])

/-- `case 3`, `case 4` and `case 5` -/
def unescapeExpecting (after : Nat) (ch : UInt8) : UnescapeState × List UInt8 :=
  if ch &&& 0xc0 = 0x80 then
    match after with
    | 0 => (.normal, [ch])
    | after + 1 => (.expecting after, [ch])
  else (.error, [])

/-- **The switch.** -/
def UnescapeState.step : UnescapeState → UInt8 → UnescapeState × List UInt8
  | .normal, ch => unescapeNormal ch
  | .escaped, ch => unescapeEscaped ch
  | .hex digitsExpected codePoint, ch => unescapeHex digitsExpected codePoint ch
  | .expecting after, ch => unescapeExpecting after ch
  | .error, _ => (.error, [])

/-- `out_len + n_elements < outSize` is only asked for a number. -/
def UnescapeState.checked : UnescapeState → Bool
  | .hex _ _ => true
  | _ => false

def unescaper : Converter UnescapeState where
  initial := .normal
  failed := .error
  step := UnescapeState.step
  checked := fun s _ => s.checked
  append := false

/-- **`unescape_to_utf8`** -/
def unescapeToUtf8 : Option (List UInt8) → Option Buffer → Nat → Option Buffer × Nat := unescaper.convert

theorem unescaper_noNul : unescaper.NoNul := fun happ => nomatch happ

/-! ## The encoding of a character -/

/-- The first byte of two. -/
theorem or_lead2 (x : Nat) : 0xc0 ||| x &&& 0x1f = x % 0x20 + 0xc0 := by
  have hall : ∀ d < 32, 0xc0 ||| d = d + 0xc0 := by decide +kernel
  have hmask : x &&& 0x1f = x % 0x20 := Nat.and_two_pow_sub_one_eq_mod x 5
  rw [hmask]
  exact hall _ (Nat.mod_lt _ (by omega))

/-- The first byte of three. -/
theorem or_lead3 (x : Nat) : 0xe0 ||| x &&& 0x0f = x % 0x10 + 0xe0 := by
  have hall : ∀ d < 16, 0xe0 ||| d = d + 0xe0 := by decide +kernel
  have hmask : x &&& 0x0f = x % 0x10 := Nat.and_two_pow_sub_one_eq_mod x 4
  rw [hmask]
  exact hall _ (Nat.mod_lt _ (by omega))

/-- The first byte of four. -/
theorem or_lead4 (x : Nat) : 0xf0 ||| x &&& 0x07 = x % 0x08 + 0xf0 := by
  have hall : ∀ d < 8, 0xf0 ||| d = d + 0xf0 := by decide +kernel
  have hmask : x &&& 0x07 = x % 0x08 := Nat.and_two_pow_sub_one_eq_mod x 3
  rw [hmask]
  exact hall _ (Nat.mod_lt _ (by omega))

/-- A continuation byte. -/
theorem or_continuation (x : Nat) : 0x80 ||| x &&& 0x3f = x % 0x40 + 0x80 := by
  have hall : ∀ d < 64, 0x80 ||| d = d + 0x80 := by decide +kernel
  have hmask : x &&& 0x3f = x % 0x40 := Nat.and_two_pow_sub_one_eq_mod x 6
  rw [hmask]
  exact hall _ (Nat.mod_lt _ (by omega))

/-- **`ucodepoint_to_utf8` is the encoding.** -/
theorem ucodepointToUtf8_char (c : Char) : ucodepointToUtf8 c.toNat = String.utf8EncodeChar c := by
  have hval : c.val.toNat = c.toNat := rfl
  have hshift6 : c.toNat >>> 6 = c.toNat / 64 := Nat.shiftRight_eq_div_pow _ 6
  have hshift12 : c.toNat >>> 12 = c.toNat / 4096 := Nat.shiftRight_eq_div_pow _ 12
  have hshift18 : c.toNat >>> 18 = c.toNat / 262144 := Nat.shiftRight_eq_div_pow _ 18
  unfold ucodepointToUtf8 String.utf8EncodeChar
  simp only [hval, hshift6, hshift12, hshift18, or_continuation, or_lead2, or_lead3, or_lead4]

/-! ## The digits of a number -/

theorem digitValue_hexDigit {d : Nat} (h : d < 16) : digitValue (hexDigit d) = some d := by
  revert d
  decide +kernel

/-- One digit. -/
theorem unescapeHex_digit (digitsExpected : Nat) {codePoint d : Nat} (h : d < 16) (hsmall : codePoint * 16 + d < 2 ^ 32) :
    unescapeHex digitsExpected codePoint (hexDigit d) =
      if digitsExpected - 1 = 0 then (.normal, ucodepointToUtf8 (codePoint * 16 + d))
      else (.hex (digitsExpected - 1) (codePoint * 16 + d), []) := by
  unfold unescapeHex
  rw [digitValue_hexDigit h]
  show (if digitsExpected - 1 = 0 then _ else _) = _
  rw [Nat.mod_eq_of_lt hsmall]

theorem feed_hex (digitsExpected codePoint : Nat) (acc : List UInt8) (ch : UInt8) :
    unescaper.feed (.hex digitsExpected codePoint, acc) ch =
      ((unescapeHex digitsExpected codePoint ch).1, acc ++ (unescapeHex digitsExpected codePoint ch).2) :=
  if_neg (show ¬ UnescapeState.hex digitsExpected codePoint = UnescapeState.error from UnescapeState.noConfusion)

/-- **The digits of a number put out its encoding**, behind what has been read of it. -/
theorem output_hexDigits (n v a : Nat) (acc : List UInt8) (h : a * 16 ^ (n + 1) + v % 16 ^ (n + 1) < 2 ^ 32) :
    (hexDigits (n + 1) v).foldl unescaper.feed (.hex (n + 1) a, acc) =
      (.normal, acc ++ ucodepointToUtf8 (a * 16 ^ (n + 1) + v % 16 ^ (n + 1))) := by
  induction n generalizing a with
  | zero =>
    have hdigit : v % 16 < 16 := Nat.mod_lt _ (by omega)
    have hone : v / 16 ^ 0 % 16 = v % 16 := by rw [Nat.pow_zero, Nat.div_one]
    rw [Nat.zero_add, Nat.pow_one] at h ⊢
    show unescaper.feed (.hex 1 a, acc) (hexDigit (v / 16 ^ 0 % 16)) = _
    rw [hone, feed_hex, unescapeHex_digit 1 hdigit h, if_pos rfl]
  | succ n ih =>
    have hdigit : v / 16 ^ (n + 1) % 16 < 16 := Nat.mod_lt _ (by omega)
    have hsplit : v % 16 ^ (n + 1 + 1) = v % 16 ^ (n + 1) + 16 ^ (n + 1) * (v / 16 ^ (n + 1) % 16) := Nat.mod_pow_succ
    have hnext : (a * 16 + v / 16 ^ (n + 1) % 16) * 16 ^ (n + 1) + v % 16 ^ (n + 1) =
        a * 16 ^ (n + 1 + 1) + v % 16 ^ (n + 1 + 1) := by
      rw [hsplit, Nat.pow_succ 16 (n + 1)]
      ring
    have hpos : 0 < 16 ^ (n + 1) := Nat.pow_pos (by omega)
    have hle : a * 16 + v / 16 ^ (n + 1) % 16 ≤ (a * 16 + v / 16 ^ (n + 1) % 16) * 16 ^ (n + 1) :=
      Nat.le_mul_of_pos_right _ hpos
    have hsmall : a * 16 + v / 16 ^ (n + 1) % 16 < 2 ^ 32 := by omega
    show (hexDigits (n + 1) v).foldl unescaper.feed
      (unescaper.feed (.hex (n + 1 + 1) a, acc) (hexDigit (v / 16 ^ (n + 1) % 16))) = _
    rw [feed_hex, unescapeHex_digit (n + 1 + 1) hdigit hsmall,
      if_neg (show ¬ n + 1 + 1 - 1 = 0 from Nat.succ_ne_zero n), List.append_nil,
      ← hnext]
    exact ih _ (by rw [hnext]; exact h)

end Trick.Unicode
