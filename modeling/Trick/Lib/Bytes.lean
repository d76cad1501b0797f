/-
  Numbers as bytes, and strings and buffers of bytes.

  `leBytes n v` are the `n` bytes of `v`, the least significant one first, and `ofLeBytes` reads them
  back.  `swapEach k n` reverses the order of the bytes in each of `n` elements of `k` bytes.  `cString`
  is what stands before the NUL, and `blit` writes over the beginning of a buffer.

  Nothing here names a program.
-/
import Mathlib

namespace Trick.Lib

/-! ## Numbers -/

/-- **The bytes of a number**, least significant first. -/
def leBytes : Nat → Nat → List UInt8
  | 0, _ => []
  | n + 1, v => UInt8.ofNat v :: leBytes n (v / 256)

/-- **The number of some bytes.** -/
def ofLeBytes : List UInt8 → Nat
  | [] => 0
  | b :: bs => b.toNat + 256 * ofLeBytes bs

@[simp] theorem length_leBytes (n v : Nat) : (leBytes n v).length = n := by
  induction n generalizing v with
  | zero => rfl
  | succ n ih => exact congrArg (· + 1) (ih (v / 256))

theorem ofLeBytes_leBytes_mod (n v : Nat) : ofLeBytes (leBytes n v) = v % 256 ^ n := by
  induction n generalizing v with
  | zero => exact (Nat.mod_one v).symm
  | succ n ih =>
    show (UInt8.ofNat v).toNat + 256 * ofLeBytes (leBytes n (v / 256)) = _
    rw [ih, pow_succ', Nat.mod_mul]
    rfl

/-- Reading the bytes of a number back. -/
theorem ofLeBytes_leBytes {n v : Nat} (h : v < 256 ^ n) : ofLeBytes (leBytes n v) = v := by
  rw [ofLeBytes_leBytes_mod, Nat.mod_eq_of_lt h]

theorem ofLeBytes_lt (l : List UInt8) : ofLeBytes l < 256 ^ l.length := by
  induction l with
  | nil => exact Nat.one_pos
  | cons b l ih =>
    have hb : b.toNat < 256 := UInt8.toNat_lt b
    have hpow : 256 ^ (b :: l).length = 256 * 256 ^ l.length := pow_succ' 256 l.length
    rw [hpow]
    unfold ofLeBytes
    omega

/-- Writing the number of some bytes back. -/
theorem leBytes_ofLeBytes (l : List UInt8) : leBytes l.length (ofLeBytes l) = l := by
  induction l with
  | nil => rfl
  | cons b l ih =>
    have hb : b.toNat < 256 := UInt8.toNat_lt b
    have hdiv : (b.toNat + 256 * ofLeBytes l) / 256 = ofLeBytes l := by omega
    have hmod : UInt8.ofNat (b.toNat + 256 * ofLeBytes l) = b := by
      apply UInt8.toNat_inj.mp
      rw [UInt8.toNat_ofNat']
      omega
    show UInt8.ofNat (b.toNat + 256 * ofLeBytes l) :: leBytes l.length ((b.toNat + 256 * ofLeBytes l) / 256) = b :: l
    rw [hmod, hdiv, ih]

/-! ## Elements -/

/-- **The bytes of each of `n` elements of `k` bytes the other way round.** -/
def swapEach (k : Nat) : Nat → List UInt8 → List UInt8
  | 0, _ => []
  | n + 1, l => (l.take k).reverse ++ swapEach k n (l.drop k)

/-! ## Strings -/

/-- The bytes of a string up to the NUL. -/
def cString (text : List UInt8) : List UInt8 := text.takeWhile (· ≠ 0)

theorem zero_not_mem_cString (text : List UInt8) : 0 ∉ cString text := fun hmem =>
  absurd (List.mem_takeWhile_imp hmem) (by decide)

theorem cString_eq_self {s : List UInt8} (h : 0 ∉ s) : cString s = s := by
  unfold cString
  rw [List.takeWhile_eq_self_iff]
  intro x hx
  exact decide_eq_true fun hz => h (hz ▸ hx)

/-! ## Buffers -/

/-- `src` written over the beginning of `buf`. -/
def blit (src buf : List UInt8) : List UInt8 := src ++ buf.drop src.length

theorem length_blit {src buf : List UInt8} (h : src.length ≤ buf.length) :
    (blit src buf).length = buf.length := by
  unfold blit
  rw [List.length_append, List.length_drop]
  omega

theorem take_blit (src buf : List UInt8) : (blit src buf).take src.length = src := by
  unfold blit
  rw [List.take_left]

theorem blit_of_length {src buf : List UInt8} (h : buf.length ≤ src.length) : blit src buf = src := by
  unfold blit
  rw [List.drop_eq_nil_of_le h, List.append_nil]

end Trick.Lib
