/-
  Words of memory: byte orders, two's complement, and integers as doubles.

  `storeBytes` and `loadBytes` are a number in memory in either byte order, and `byteswap` turns one into
  the other.  `toBits` and `signed` are two's complement.  `roundToDouble` is the double that is closest to
  an integer.

  Nothing here names a program.
-/
import Mathlib
import Trick.Lib.Bytes

namespace Trick.Lib

/-! ## Byte orders -/

/-- **A number in memory**, the most significant byte first or last. -/
def storeBytes (big : Bool) (n v : Nat) : List UInt8 := if big then (leBytes n v).reverse else leBytes n v

/-- The number of some bytes. -/
def loadBytes (big : Bool) (l : List UInt8) : Nat := if big then ofLeBytes l.reverse else ofLeBytes l

/-- The number whose bytes are those of `v` the other way round. -/
def byteswap (n v : Nat) : Nat := ofLeBytes (leBytes n v).reverse

@[simp] theorem length_storeBytes (big : Bool) (n v : Nat) : (storeBytes big n v).length = n := by
  unfold storeBytes
  split
  · rw [List.length_reverse, length_leBytes]
  · exact length_leBytes n v

theorem loadBytes_storeBytes (big : Bool) {n v : Nat} (h : v < 256 ^ n) : loadBytes big (storeBytes big n v) = v := by
  cases big with
  | false => exact ofLeBytes_leBytes h
  | true =>
    show ofLeBytes (leBytes n v).reverse.reverse = v
    rw [List.reverse_reverse, ofLeBytes_leBytes h]

theorem loadBytes_lt (big : Bool) (l : List UInt8) : loadBytes big l < 256 ^ l.length := by
  cases big with
  | false => exact ofLeBytes_lt l
  | true =>
    have hlt := ofLeBytes_lt l.reverse
    rw [List.length_reverse] at hlt
    exact hlt

/-- **Reading in the wrong order and swapping is reading in the right one.** -/
theorem byteswap_loadBytes (big : Bool) (l : List UInt8) : byteswap l.length (loadBytes big l) = loadBytes (!big) l := by
  unfold byteswap
  cases big with
  | false =>
    show ofLeBytes (leBytes l.length (ofLeBytes l)).reverse = ofLeBytes l.reverse
    rw [leBytes_ofLeBytes]
  | true =>
    show ofLeBytes (leBytes l.length (ofLeBytes l.reverse)).reverse = ofLeBytes l
    have hback := leBytes_ofLeBytes l.reverse
    rw [List.length_reverse] at hback
    rw [hback, List.reverse_reverse]

/-! ## Two's complement -/

/-- The `n` bytes of an integer as a number. -/
def toBits (n : Nat) (x : Int) : Nat := (x % 256 ^ n).toNat

/-- **The integer of `n` bytes**, the first bit of which is the sign. -/
def signed (n v : Nat) : Int := if 2 * v < 256 ^ n then v else (v : Int) - 256 ^ n

theorem toBits_lt (n : Nat) (x : Int) : toBits n x < 256 ^ n := by
  unfold toBits
  have hpos : (0 : Int) < 256 ^ n := by positivity
  have hlt : x % 256 ^ n < 256 ^ n := Int.emod_lt_of_pos x hpos
  have hnn : 0 ≤ x % 256 ^ n := Int.emod_nonneg x (ne_of_gt hpos)
  zify
  rw [Int.toNat_of_nonneg hnn]
  exact hlt

/-- A number that is not negative is its own bits. -/
theorem toBits_of_nonneg {n : Nat} {x : Int} (h : 0 ≤ x) (hlt : x < 256 ^ n) : (toBits n x : Int) = x := by
  unfold toBits
  rw [Int.emod_eq_of_lt h hlt, Int.toNat_of_nonneg h]

/-- A negative number is read as one that is larger by the size of the word. -/
theorem toBits_of_neg {n : Nat} {x : Int} (h : x < 0) (hle : -(256 ^ n : Int) ≤ x) :
    (toBits n x : Int) = x + 256 ^ n := by
  unfold toBits
  have hmod : x % 256 ^ n = x + 256 ^ n := by
    rw [← Int.add_emod_right, Int.emod_eq_of_lt (by omega) (by omega)]
  rw [hmod, Int.toNat_of_nonneg (by omega)]

/-- **What is stored is what is read**, when it is in range. -/
theorem signed_toBits {n : Nat} {x : Int} (hle : -(256 ^ n : Int) ≤ 2 * x) (hlt : 2 * x < 256 ^ n) :
    signed n (toBits n x) = x := by
  have hpos : (0 : Int) < 256 ^ n := by positivity
  unfold signed
  rcases Int.lt_or_le x 0 with hneg | hnn
  · have hbits := toBits_of_neg hneg (show -(256 ^ n : Int) ≤ x by omega)
    have hcut : ¬ 2 * toBits n x < 256 ^ n := by
      zify
      omega
    rw [if_neg hcut]
    omega
  · have hbits := toBits_of_nonneg hnn (show x < 256 ^ n by omega)
    have hcut : 2 * toBits n x < 256 ^ n := by
      zify
      omega
    rw [if_pos hcut, hbits]

/-- From half of the range on, the sign is wrong. -/
theorem signed_neg {n v : Nat} (hv : v < 256 ^ n) (h : 256 ^ n ≤ 2 * v) : signed n v < 0 := by
  unfold signed
  rw [if_neg (Nat.not_lt.mpr h)]
  zify at hv
  omega

theorem signed_range {n v : Nat} (hv : v < 256 ^ n) :
    -(256 ^ n : Int) ≤ 2 * signed n v ∧ 2 * signed n v < 256 ^ n := by
  unfold signed
  split
  · rename_i h
    zify at h
    omega
  · rename_i h
    zify at h hv
    omega

/-! ## Integers as doubles -/

/-- The closest number of 53 bits and zeros, the even one of two. -/
def roundNat (n : Nat) : Nat :=
  let unit := 2 ^ (n.log2 + 1 - 53)
  let q := n / unit
  let r := n % unit
  if 2 * r < unit ∨ 2 * r = unit ∧ q % 2 = 0 then q * unit else (q + 1) * unit

/-- **An integer converted to a double.** -/
def roundToDouble (x : Int) : Int := if 0 ≤ x then roundNat x.natAbs else -roundNat x.natAbs

/-- The integer is a double. -/
def IsDouble (x : Int) : Prop := roundToDouble x = x

instance (x : Int) : Decidable (IsDouble x) := inferInstanceAs (Decidable (_ = _))

theorem roundNat_of_lt {n : Nat} (h : n < 2 ^ 53) : roundNat n = n := by
  have hlog : n.log2 + 1 - 53 = 0 := by
    by_cases hz : n = 0
    · subst hz
      rfl
    · have hlt : n.log2 < 53 := (Nat.log2_lt hz).mpr h
      omega
  unfold roundNat
  dsimp only
  rw [hlog, Nat.pow_zero, Nat.mod_one, Nat.div_one, if_pos (Or.inl (by omega)), Nat.mul_one]

theorem roundNat_pos {n : Nat} (h : 0 < n) : 0 < roundNat n := by
  have hunit : 2 ^ (n.log2 + 1 - 53) ≤ n := by
    calc 2 ^ (n.log2 + 1 - 53) ≤ 2 ^ n.log2 := Nat.pow_le_pow_right (by omega) (by omega)
      _ ≤ n := Nat.log2_self_le (by omega)
  have hpos : 0 < 2 ^ (n.log2 + 1 - 53) := Nat.pow_pos (by omega)
  have hq : 0 < n / 2 ^ (n.log2 + 1 - 53) := Nat.div_pos hunit hpos
  unfold roundNat
  dsimp only
  split
  · exact Nat.mul_pos hq hpos
  · exact Nat.mul_pos (Nat.succ_pos _) hpos

theorem isDouble_of_small {x : Int} (h : x.natAbs < 2 ^ 53) : IsDouble x := by
  unfold IsDouble roundToDouble
  rw [roundNat_of_lt h]
  split <;> omega

/-- The conversion keeps the sign. -/
theorem roundToDouble_neg {x : Int} (h : x < 0) : roundToDouble x < 0 := by
  have hpos := roundNat_pos (show 0 < x.natAbs by omega)
  unfold roundToDouble
  rw [if_neg (by omega)]
  omega

theorem roundToDouble_nonneg {x : Int} (h : 0 ≤ x) : 0 ≤ roundToDouble x := by
  unfold roundToDouble
  rw [if_pos h]
  exact Int.natCast_nonneg _

end Trick.Lib
