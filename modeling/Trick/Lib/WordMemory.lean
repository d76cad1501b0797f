/-
  Words of 32 bits in a memory of bytes, in either byte order.

  `load` and `store` are a word at an address, bit by bit (`load_store`).  `swap32` is the word in the other
  order (`swap32_load`, `swap32_swap32`).  `copyReversed` is an element of any size the other way
  round.  `shl`, `shr` and `sar` are the shifts of C, which are undefined for an amount outside of the word.

  Nothing here names a program.
-/
import Mathlib

namespace Trick.Lib

/-! ## Byte orders -/

/-- The order of the bytes of a word. -/
inductive ByteOrder where
  | little
  | big
deriving DecidableEq

namespace ByteOrder

/-- The opposite order. -/
def other : ByteOrder → ByteOrder
  | little => big
  | big => little

/-- Where the byte number `k` of a word of `n` bytes lies, counted from the least significant one. -/
def place : ByteOrder → Nat → Nat → Nat
  | little, _, k => k
  | big, n, k => n - 1 - k

theorem other_other (o : ByteOrder) : o.other.other = o := by
  cases o <;> rfl

theorem place_lt (o : ByteOrder) {n k : Nat} (h : k < n) : o.place n k < n := by
  cases o with
  | little => exact h
  | big =>
    show n - 1 - k < n
    omega

theorem place_place (o : ByteOrder) {n k : Nat} (h : k < n) : o.place n (o.place n k) = k := by
  cases o with
  | little => rfl
  | big =>
    show n - 1 - (n - 1 - k) = k
    omega

end ByteOrder

/-! ## Memory -/

/-- A memory of bytes. -/
abbrev Mem := Nat → BitVec 8

/-- A bit of a memory. -/
def bit (m : Mem) (x b : Nat) : Bool := (m x).getLsbD b

/-- The address is in the word at `a`. -/
def InWord (a x : Nat) : Prop := a ≤ x ∧ x < a + 4

instance (a x : Nat) : Decidable (InWord a x) := inferInstanceAs (Decidable (_ ∧ _))

/-- **The word at an address.** -/
def load (o : ByteOrder) (m : Mem) (a : Nat) : BitVec 32 :=
  BitVec.ofFnLE fun i : Fin 32 => bit m (a + o.place 4 (i / 8)) (i % 8)

/-- **A word is stored.** -/
def store (o : ByteOrder) (m : Mem) (a : Nat) (w : BitVec 32) : Mem := fun x =>
  if InWord a x then w.extractLsb' (8 * o.place 4 (x - a)) 8 else m x

/-- The bytes of a word the other way round. -/
def swap32 (w : BitVec 32) : BitVec 32 :=
  BitVec.ofFnLE fun i : Fin 32 => w.getLsbD (8 * (3 - i / 8) + i % 8)

/-- The `n` bytes at an address the other way round, written to another memory. -/
def copyReversed (n a : Nat) (inp out : Mem) : Mem := fun x =>
  if a ≤ x ∧ x < a + n then inp (a + (n - 1 - (x - a))) else out x

section Words

variable {o : ByteOrder} {m : Mem} {a x b i : Nat} {w : BitVec 32}

theorem getLsbD_load (h : i < 32) : (load o m a).getLsbD i = bit m (a + o.place 4 (i / 8)) (i % 8) := by
  unfold load
  rw [BitVec.getLsbD_ofFnLE, dif_pos h]

theorem getLsbD_swap32 (h : i < 32) : (swap32 w).getLsbD i = w.getLsbD (8 * (3 - i / 8) + i % 8) := by
  unfold swap32
  rw [BitVec.getLsbD_ofFnLE, dif_pos h]

theorem inWord_place (h : i < 32) : InWord a (a + o.place 4 (i / 8)) := by
  have hplace := o.place_lt (show i / 8 < 4 by omega)
  unfold InWord
  omega

/-- **Swapping is reading in the other order.** -/
theorem swap32_load : swap32 (load o m a) = load o.other m a := by
  apply BitVec.eq_of_getLsbD_eq
  intro i h
  have hlt : 8 * (3 - i / 8) + i % 8 < 32 := by omega
  have hbyte : (8 * (3 - i / 8) + i % 8) / 8 = 3 - i / 8 := by omega
  have hbit : (8 * (3 - i / 8) + i % 8) % 8 = i % 8 := by omega
  rw [getLsbD_swap32 h, getLsbD_load hlt, getLsbD_load h, hbyte, hbit]
  cases o with
  | little => rfl
  | big =>
    show bit m (a + (4 - 1 - (3 - i / 8))) (i % 8) = bit m (a + i / 8) (i % 8)
    rw [show 4 - 1 - (3 - i / 8) = i / 8 by omega]

theorem bit_store_of_mem (h : InWord a x) (hb : b < 8) :
    bit (store o m a w) x b = w.getLsbD (8 * o.place 4 (x - a) + b) := by
  unfold bit store
  rw [if_pos h, BitVec.getLsbD_extractLsb', decide_eq_true hb, Bool.true_and]

theorem load_store : load o (store o m a w) a = w := by
  apply BitVec.eq_of_getLsbD_eq
  intro i hi
  rw [getLsbD_load hi, bit_store_of_mem (inWord_place hi) (by omega), Nat.add_sub_cancel_left, o.place_place (by omega)]
  rw [show 8 * (i / 8) + i % 8 = i by omega]

theorem store_of_not_mem (h : ¬ InWord a x) : store o m a w x = m x := if_neg h

theorem load_congr {n : Mem} (h : ∀ x, InWord a x → m x = n x) : load o m a = load o n a := by
  apply BitVec.eq_of_getLsbD_eq
  intro i hi
  rw [getLsbD_load hi, getLsbD_load hi]
  unfold bit
  rw [h _ (inWord_place hi)]

/-- Swapped twice. -/
theorem swap32_swap32 (w : BitVec 32) : swap32 (swap32 w) = w := by
  have h : swap32 (swap32 (load .little (store .little (fun _ => 0) 0 w) 0)) =
      load .little (store .little (fun _ => 0) 0 w) 0 := by
    rw [swap32_load, swap32_load]
    rfl
  rwa [load_store] at h

theorem load_zero (h : ∀ x, InWord a x → m x = 0) : load o m a = 0 := by
  apply BitVec.eq_of_getLsbD_eq
  intro i hi
  rw [getLsbD_load hi]
  unfold bit
  rw [h _ (inWord_place hi)]
  simp

end Words

/-! ## Shifts -/

/-- The amount of a shift of a word of 32 bits. -/
def ShiftAmount (k : Int) : Prop := 0 ≤ k ∧ k < 32

instance (k : Int) : Decidable (ShiftAmount k) := inferInstanceAs (Decidable (_ ∧ _))

/-- `w << k` -/
def shl (w : BitVec 32) (k : Int) : Option (BitVec 32) := if ShiftAmount k then some (w <<< k.toNat) else none

/-- `w >> k` of an unsigned word. -/
def shr (w : BitVec 32) (k : Int) : Option (BitVec 32) := if ShiftAmount k then some (w >>> k.toNat) else none

/-- `w >> k` of a signed word. -/
def sar (w : BitVec 32) (k : Int) : Option (BitVec 32) :=
  if ShiftAmount k then some (w.sshiftRight k.toNat) else none

section Shifts

variable {w : BitVec 32} {n : Nat} {k : Int}

theorem shl_eq (hk : k = n) (h : n < 32) : shl w k = some (w <<< n) := by
  subst hk
  exact if_pos ⟨Int.natCast_nonneg n, by exact_mod_cast h⟩

theorem shr_eq (hk : k = n) (h : n < 32) : shr w k = some (w >>> n) := by
  subst hk
  exact if_pos ⟨Int.natCast_nonneg n, by exact_mod_cast h⟩

theorem sar_eq (hk : k = n) (h : n < 32) : sar w k = some (w.sshiftRight n) := by
  subst hk
  exact if_pos ⟨Int.natCast_nonneg n, by exact_mod_cast h⟩

/-- A mask of low bits. -/
theorem getLsbD_ones_shr (n i : Nat) : (0xFFFFFFFF#32 >>> n).getLsbD i = decide (i + n < 32) := by
  rw [BitVec.getLsbD_ushiftRight, show 0xFFFFFFFF#32 = BitVec.allOnes 32 from rfl, BitVec.getLsbD_allOnes, Nat.add_comm]

/-- A mask of high bits. -/
theorem getLsbD_ones_shl (n i : Nat) : (0xFFFFFFFF#32 <<< n).getLsbD i = decide (i < 32 ∧ n ≤ i) := by
  rw [BitVec.getLsbD_shiftLeft, show 0xFFFFFFFF#32 = BitVec.allOnes 32 from rfl, BitVec.getLsbD_allOnes, Bool.eq_iff_iff]
  simp only [Bool.and_eq_true, Bool.not_eq_true', decide_eq_true_eq, decide_eq_false_iff_not]
  omega

end Shifts

end Trick.Lib
