/-
  `insert_bitfield_any`, `extract_bitfield_any` and `extract_unsigned_bitfield_any`: bit-fields in a storage unit.

  Data:           a storage unit of one, two or four bytes; a field of it, given by its start bit and its width.
  Program:        the three functions, for either byte order of the machine, and the macros that call them for a
                  unit in memory.  A shift by less than zero or more than 31 bits has no result.
  Specification:  `fieldPos`, where a field lies, counted from the least significant bit: the start bit is counted
                  from the other end on a little endian machine.
  Result:         `bitfield_laws`: what is extracted after an insertion, what an insertion leaves, and that the
                  insertions into disjoint fields commute.
-/
import Trick.Lib.WordMemory

namespace Trick.Bitfields

open Trick.Lib

/-! ## The functions -/

/-- `start`, adjusted "if bitfield is smaller than 32 bits". -/
def adjustedStart (size start : Int) : Int :=
  if size = 2 then start + 16 else if size = 1 then start + 24 else start

/-- `insert_bitfield_any` -/
def insertBitfieldAny (o : ByteOrder) (bitfield value : BitVec 32) (size start bits : Int) : Option (BitVec 32) := do
  -- "Mask out sign extension bits in case the value is negative"
  let ones ← shr 0xFFFFFFFF#32 (32 - bits)
  let value := value &&& ones
  match o with
  | .big =>
    let low ← (if start = 0 then some 0 else shr 0xFFFFFFFF#32 (32 - start))
    let high ← (if start + bits < 32 then shl 0xFFFFFFFF#32 (start + bits) else some 0)
    let field ← shl value start
    some (bitfield &&& (low ||| high) ||| field)
  | .little =>
    let start := adjustedStart size start
    let high ← (if start = 0 then some 0 else shl 0xFFFFFFFF#32 (32 - start))
    let low ← (if start + bits < 32 then shr 0xFFFFFFFF#32 (start + bits) else some 0)
    let field ← shl value (32 - (start + bits))
    some (bitfield &&& (high ||| low) ||| field)

/-- The loops over the bits of a field: those whose mask passes the test. -/
def collect (start : Int) (bits : Nat) (test : BitVec 32 → Bool) : Option (BitVec 32) :=
  (List.range bits).foldlM (fun bf (j : Nat) => do
    let mask ← shl 1 (start + j)
    some (if test mask = true then bf ||| mask else bf)) 0

/-- The start of `case` little endian: the field at the low end of the word. -/
def shiftedField (value : BitVec 32) (size start bits : Int) (shift : BitVec 32 → Int → Option (BitVec 32)) :
    Option (BitVec 32) := do
  let value ← (if size = 2 then shl value 16 else if size = 1 then shl value 24 else some value)
  let bf ← (if start + bits < 32 then shift value (32 - start - bits) else some value)
  let ones ← shr 0xFFFFFFFF#32 (32 - bits)
  some (bf &&& ones)

/-- `extract_bitfield_any` -/
def extractBitfieldAny (o : ByteOrder) (value : BitVec 32) (size start bits : Int) : Option (BitVec 32) :=
  match o with
  | .big => do
    let mask ← shl 1 (start + bits - 1)
    if mask &&& value ≠ 0 then
      -- "This is a negative value"
      let sbf ← collect start bits.toNat fun mask => value &&& mask != mask
      let sbf ← sar sbf start
      some (-(sbf + 1))
    else
      let bf ← collect start bits.toNat fun mask => value &&& mask == mask
      shr bf start
  | .little => do
    let bf ← shiftedField value size start bits sar
    let mask ← shl 1 (bits - 1)
    if mask &&& bf ≠ 0 then
      let sbf ← collect 0 bits.toNat fun mask => bf &&& mask != mask
      some (-(sbf + 1))
    else some bf

/-- `extract_unsigned_bitfield_any` -/
def extractUnsignedBitfieldAny (o : ByteOrder) (value : BitVec 32) (size start bits : Int) : Option (BitVec 32) :=
  match o with
  | .big => do
    let _ ← shl 1 (start + bits - 1)
    let bf ← collect start bits.toNat fun mask => value &&& mask == mask
    shr bf start
  | .little => shiftedField value size start bits shr

/-! ## A unit in memory -/

/-- `GET_BITFIELD` -/
def getBitfield (o : ByteOrder) {n : Nat} (unit : BitVec (8 * n)) (start bits : Int) : Option (BitVec 32) :=
  extractBitfieldAny o (unit.signExtend 32) n start bits

/-- `GET_UNSIGNED_BITFIELD` -/
def getUnsignedBitfield (o : ByteOrder) {n : Nat} (unit : BitVec (8 * n)) (start bits : Int) : Option (BitVec 32) :=
  extractUnsignedBitfieldAny o (unit.setWidth 32) n start bits

/-- `PUT_BITFIELD` -/
def putBitfield (o : ByteOrder) {n : Nat} (unit : BitVec (8 * n)) (value : BitVec 32) (start bits : Int) :
    Option (BitVec (8 * n)) := do
  let word ← insertBitfieldAny o (unit.setWidth 32) value n start bits
  some (word.setWidth (8 * n))

/-! ## Where a field lies -/

/-- The bits in front of a field in its unit of `n` bytes. -/
def fieldPos (o : ByteOrder) (n start bits : Nat) : Nat :=
  match o with
  | .big => start
  | .little => 8 * n - start - bits

/-- A field of a storage unit. -/
structure Fits (n start bits : Nat) : Prop where
  size : n = 1 ∨ n = 2 ∨ n = 4
  pos : 0 < bits
  fits : start + bits ≤ 8 * n

/-- A bit of a field is one of the unit. -/
theorem Fits.pos_add_lt {n start bits : Nat} (h : Fits n start bits) (o : ByteOrder) {i : Nat} (hi : i < bits) :
    fieldPos o n start bits + i < 8 * n := by
  have hfits := h.fits
  cases o with
  | big =>
    show start + i < 8 * n
    omega
  | little =>
    show 8 * n - start - bits + i < 8 * n
    omega

theorem Fits.size_le {n start bits : Nat} (h : Fits n start bits) : 8 * n ≤ 32 := by
  have hsize := h.size
  omega

/-! ## Bits of words -/

section Bits

theorem getLsbD_mask (i j : Nat) (hj : j < 32) : (1#32 <<< j).getLsbD i = decide (i = j) := by
  rw [← BitVec.twoPow_eq, BitVec.getLsbD_twoPow, Bool.eq_iff_iff]
  simp only [Bool.and_eq_true, decide_eq_true_eq]
  omega

/-- The test of a bit by its mask. -/
theorem and_mask (x : BitVec 32) (j : Nat) : x &&& (1#32 <<< j) = if x.getLsbD j = true then 1#32 <<< j else 0 := by
  rw [← BitVec.twoPow_eq]
  exact BitVec.and_twoPow x j

theorem mask_ne_zero (j : Nat) (hj : j < 32) : 1#32 <<< j ≠ 0 := by
  intro h
  have hbit := getLsbD_mask j j hj
  rw [h, decide_eq_true rfl] at hbit
  exact absurd (hbit.symm.trans BitVec.getLsbD_zero) Bool.noConfusion

theorem test_eq (x : BitVec 32) (j : Nat) (hj : j < 32) : (x &&& 1#32 <<< j == 1#32 <<< j) = x.getLsbD j := by
  rw [and_mask]
  cases hbit : x.getLsbD j with
  | true => simp
  | false =>
    rw [if_neg Bool.false_ne_true, beq_eq_false_iff_ne]
    exact (mask_ne_zero j hj).symm

theorem test_ne (x : BitVec 32) (j : Nat) (hj : j < 32) : (x &&& 1#32 <<< j != 1#32 <<< j) = !x.getLsbD j := by
  rw [bne, test_eq x j hj]

theorem sign_iff (x : BitVec 32) (j : Nat) (hj : j < 32) : 1#32 <<< j &&& x ≠ 0 ↔ x.getLsbD j = true := by
  rw [BitVec.and_comm, and_mask]
  split
  · rename_i h
    exact iff_of_true (mask_ne_zero j hj) h
  · rename_i h
    exact iff_of_false (fun hne => hne rfl) h

/-- **The loop** over the bits of a field. -/
theorem collect_eq (start : Nat) (test : BitVec 32 → Bool) (bits : Nat) (h : start + bits ≤ 32) :
    ∃ bf, collect start bits test = some bf ∧
      ∀ i, bf.getLsbD i = (decide (start ≤ i ∧ i < start + bits) && test (1#32 <<< i)) := by
  induction bits with
  | zero =>
    refine ⟨0, rfl, ?_⟩
    intro i
    rw [decide_eq_false (by omega), Bool.false_and]
    exact BitVec.getLsbD_zero
  | succ bits ih =>
    obtain ⟨bf, heq, hbits⟩ := ih (by omega)
    have hshl : shl 1 ((start : Int) + bits) = some (1#32 <<< (start + bits)) :=
      shl_eq (by push_cast; rfl) (by omega)
    refine ⟨if test (1#32 <<< (start + bits)) = true then bf ||| 1#32 <<< (start + bits) else bf, ?_, ?_⟩
    · unfold collect at heq ⊢
      rw [List.range_succ, List.foldlM_append, heq, Option.bind_eq_bind, Option.bind_some, List.foldlM_cons, hshl]
      rfl
    · intro i
      by_cases hi : i = start + bits
      · subst hi
        rw [decide_eq_true (by omega), Bool.true_and]
        have hold := hbits (start + bits)
        rw [decide_eq_false (by omega), Bool.false_and] at hold
        split
        · rename_i htest
          rw [BitVec.getLsbD_or, hold, getLsbD_mask _ _ (by omega), decide_eq_true rfl, htest]
          rfl
        · rename_i htest
          rw [hold, Bool.eq_false_iff.mpr htest]
      · have hrange : decide (start ≤ i ∧ i < start + (bits + 1)) = decide (start ≤ i ∧ i < start + bits) := by
          rw [decide_eq_decide]
          omega
        rw [hrange, ← hbits i]
        split
        · rw [BitVec.getLsbD_or, getLsbD_mask _ _ (by omega), decide_eq_false hi, Bool.or_false]
        · rfl

/-- `-(x + 1)` -/
theorem neg_add_one (x : BitVec 32) : -(x + 1) = ~~~x := by
  rw [BitVec.neg_add, BitVec.neg_eq_not_add x]
  exact BitVec.add_sub_cancel _ _

end Bits

/-! ## Insertion -/

section Insertion

variable {n start bits a c : Nat} {m f b v : BitVec 32}

/-- The bits below `a`. -/
theorem maskBelow (ha : a < 32) : ∃ m, (if (a : Int) = 0 then some 0 else shr 0xFFFFFFFF#32 (32 - a)) = some m ∧
    ∀ i < 32, m.getLsbD i = decide (i < a) := by
  by_cases h : a = 0
  · subst h
    refine ⟨0, rfl, ?_⟩
    intro i _
    exact BitVec.getLsbD_zero
  · refine ⟨0xFFFFFFFF#32 >>> (32 - a), ?_, ?_⟩
    · rw [if_neg (by exact_mod_cast h)]
      exact shr_eq (by omega) (by omega)
    · intro i hi
      rw [getLsbD_ones_shr, decide_eq_decide]
      omega

/-- The bits from `c` on. -/
theorem maskFrom (c : Nat) : ∃ m, (if (c : Int) < 32 then shl 0xFFFFFFFF#32 c else some 0) = some m ∧
    ∀ i < 32, m.getLsbD i = decide (c ≤ i) := by
  by_cases h : c < 32
  · refine ⟨0xFFFFFFFF#32 <<< c, ?_, ?_⟩
    · rw [if_pos (by exact_mod_cast h)]
      exact shl_eq rfl h
    · intro i hi
      rw [getLsbD_ones_shl, decide_eq_decide]
      omega
  · refine ⟨0, if_neg (by exact_mod_cast h), ?_⟩
    intro i hi
    rw [decide_eq_false (by omega)]
    exact BitVec.getLsbD_zero

/-- The `a` highest bits. -/
theorem maskHighest (ha : a < 32) : ∃ m, (if (a : Int) = 0 then some 0 else shl 0xFFFFFFFF#32 (32 - a)) = some m ∧
    ∀ i < 32, m.getLsbD i = decide (32 - a ≤ i) := by
  by_cases h : a = 0
  · subst h
    refine ⟨0, rfl, ?_⟩
    intro i hi
    rw [decide_eq_false (by omega)]
    exact BitVec.getLsbD_zero
  · refine ⟨0xFFFFFFFF#32 <<< (32 - a), ?_, ?_⟩
    · rw [if_neg (by exact_mod_cast h)]
      exact shl_eq (by omega) (by omega)
    · intro i hi
      rw [getLsbD_ones_shl, decide_eq_decide]
      omega

/-- The bits that `c` places lie above. -/
theorem maskUnder (c : Nat) : ∃ m, (if (c : Int) < 32 then shr 0xFFFFFFFF#32 c else some 0) = some m ∧
    ∀ i < 32, m.getLsbD i = decide (i + c < 32) := by
  by_cases h : c < 32
  · refine ⟨0xFFFFFFFF#32 >>> c, ?_, ?_⟩
    · rw [if_pos (by exact_mod_cast h)]
      exact shr_eq rfl h
    · intro i _
      exact getLsbD_ones_shr c i
  · refine ⟨0, if_neg (by exact_mod_cast h), ?_⟩
    intro i hi
    rw [decide_eq_false (by omega)]
    exact BitVec.getLsbD_zero

/-- The value without its sign extension, at its place. -/
theorem getLsbD_shiftedValue (v : BitVec 32) {bits p i : Nat} (hbits : bits ≤ 32) (hi : i < 32) :
    ((v &&& 0xFFFFFFFF#32 >>> (32 - bits)) <<< p).getLsbD i =
      (decide (p ≤ i ∧ i < p + bits) && v.getLsbD (i - p)) := by
  rw [BitVec.getLsbD_shiftLeft, BitVec.getLsbD_and, getLsbD_ones_shr, Bool.eq_iff_iff]
  simp only [Bool.and_eq_true, Bool.not_eq_true', decide_eq_true_eq, decide_eq_false_iff_not]
  constructor
  · rintro ⟨⟨-, hp⟩, hv, hlt⟩
    exact ⟨by omega, hv⟩
  · rintro ⟨hp, hv⟩
    exact ⟨by omega, hv, by omega⟩

/-- A word whose field is replaced. -/
theorem getLsbD_merged {p i : Nat} (hm : m.getLsbD i = decide (i < p ∨ p + bits ≤ i))
    (hf : f.getLsbD i = (decide (p ≤ i ∧ i < p + bits) && v.getLsbD (i - p))) :
    (b &&& m ||| f).getLsbD i = if p ≤ i ∧ i < p + bits then v.getLsbD (i - p) else b.getLsbD i := by
  rw [BitVec.getLsbD_or, BitVec.getLsbD_and, hm, hf]
  by_cases h : p ≤ i ∧ i < p + bits
  · rw [if_pos h, decide_eq_false (by omega), decide_eq_true h, Bool.and_false, Bool.false_or, Bool.true_and]
  · rw [if_neg h, decide_eq_true (by omega), decide_eq_false h, Bool.and_true, Bool.false_and, Bool.or_false]

/-- The adjusted start. -/
theorem adjustedStart_eq (hn : n = 1 ∨ n = 2 ∨ n = 4) (start : Nat) :
    adjustedStart n start = ((start + (32 - 8 * n) : Nat) : Int) := by
  rcases hn with rfl | rfl | rfl <;> rfl

/-- **The insertion**: the field has the low bits of the value, and the rest is as it was. -/
theorem insertBitfieldAny_eq (o : ByteOrder) (h : Fits n start bits) (b v : BitVec 32) :
    ∃ w, insertBitfieldAny o b v n start bits = some w ∧ ∀ i < 32, w.getLsbD i =
      if fieldPos o n start bits ≤ i ∧ i < fieldPos o n start bits + bits then v.getLsbD (i - fieldPos o n start bits)
      else b.getLsbD i := by
  obtain ⟨hn, hpos, hfits⟩ := h
  have hsmall : 8 * n ≤ 32 := by omega
  have hones : shr 0xFFFFFFFF#32 (32 - (bits : Int)) = some (0xFFFFFFFF#32 >>> (32 - bits)) := shr_eq (by omega) (by omega)
  cases o with
  | big =>
    obtain ⟨low, hlow, hlowBits⟩ := maskBelow (a := start) (by omega)
    obtain ⟨high, hhigh, hhighBits⟩ := maskFrom (start + bits)
    have hfield : shl (v &&& 0xFFFFFFFF#32 >>> (32 - bits)) (start : Int) = some _ := shl_eq rfl (by omega)
    refine ⟨b &&& (low ||| high) ||| (v &&& 0xFFFFFFFF#32 >>> (32 - bits)) <<< start, ?_, ?_⟩
    · unfold insertBitfieldAny
      rw [Nat.cast_add] at hhigh
      simp only [hones, hlow, hhigh, hfield, Option.bind_eq_bind, Option.bind_some]
    · intro i hi
      refine getLsbD_merged ?_ (getLsbD_shiftedValue v (by omega) hi)
      rw [BitVec.getLsbD_or, hlowBits i hi, hhighBits i hi, Bool.decide_or]
      rfl
  | little =>
    have hstart := adjustedStart_eq hn start
    obtain ⟨high, hhigh, hhighBits⟩ := maskHighest (a := start + (32 - 8 * n)) (by omega)
    obtain ⟨low, hlow, hlowBits⟩ := maskUnder (start + (32 - 8 * n) + bits)
    have hfield : shl (v &&& 0xFFFFFFFF#32 >>> (32 - bits)) (32 - (((start + (32 - 8 * n) : Nat) : Int) + bits)) =
        some ((v &&& 0xFFFFFFFF#32 >>> (32 - bits)) <<< (8 * n - start - bits)) := shl_eq (by omega) (by omega)
    refine ⟨b &&& (high ||| low) ||| (v &&& 0xFFFFFFFF#32 >>> (32 - bits)) <<< (8 * n - start - bits), ?_, ?_⟩
    · unfold insertBitfieldAny
      rw [Nat.cast_add _ bits] at hlow
      simp only [hones, hstart, hlow, hhigh, hfield, Option.bind_eq_bind, Option.bind_some]
    · intro i hi
      refine getLsbD_merged ?_ (getLsbD_shiftedValue v (by omega) hi)
      rw [BitVec.getLsbD_or, hlowBits i hi, hhighBits i hi, ← Bool.decide_or, decide_eq_decide]
      show _ ↔ i < 8 * n - start - bits ∨ 8 * n - start - bits + bits ≤ i
      omega

end Insertion

/-! ## Extraction -/

section Extraction

variable {n start bits : Nat}

/-- A right shift of a word, with or without a sign. -/
def IsShift (shift : BitVec 32 → Int → Option (BitVec 32)) : Prop :=
  ∀ (w : BitVec 32) (k : Nat), k < 32 → ∃ r, shift w k = some r ∧ ∀ i, i + k < 32 → r.getLsbD i = w.getLsbD (k + i)

theorem isShift_shr : IsShift shr := by
  intro w k hk
  refine ⟨w >>> k, shr_eq rfl hk, ?_⟩
  intro i _
  exact BitVec.getLsbD_ushiftRight w k i

theorem isShift_sar : IsShift sar := by
  intro w k hk
  refine ⟨w.sshiftRight k, sar_eq rfl hk, ?_⟩
  intro i hi
  rw [BitVec.getLsbD_sshiftRight, if_pos (by omega), decide_eq_false (by omega)]
  rfl

/-- The unit at the high end of the word. -/
theorem shiftedUnit (hn : n = 1 ∨ n = 2 ∨ n = 4) (value : BitVec 32) :
    ∃ w, (if (n : Int) = 2 then shl value 16 else if (n : Int) = 1 then shl value 24 else some value) = some w ∧
      ∀ i, 32 - 8 * n ≤ i → i < 32 → w.getLsbD i = value.getLsbD (i - (32 - 8 * n)) := by
  have hbit : ∀ k i, k ≤ i → i < 32 → (value <<< k).getLsbD i = value.getLsbD (i - k) := by
    intro k i hk hi
    rw [BitVec.getLsbD_shiftLeft, decide_eq_true hi, decide_eq_false (by omega)]
    rfl
  rcases hn with rfl | rfl | rfl
  · exact ⟨value <<< 24, rfl, hbit 24⟩
  · exact ⟨value <<< 16, rfl, hbit 16⟩
  · exact ⟨value, rfl, fun i _ _ => rfl⟩

theorem shiftedField_eq {shift : BitVec 32 → Int → Option (BitVec 32)} (hshift : IsShift shift)
    (h : Fits n start bits) (value : BitVec 32) :
    ∃ r, shiftedField value n start bits shift = some r ∧
      ∀ i, r.getLsbD i = (decide (i < bits) && value.getLsbD (8 * n - start - bits + i)) := by
  obtain ⟨hn, hpos, hfits⟩ := h
  obtain ⟨w, hw, hwBits⟩ := shiftedUnit hn value
  have hones : shr 0xFFFFFFFF#32 (32 - (bits : Int)) = some (0xFFFFFFFF#32 >>> (32 - bits)) :=
    shr_eq (by omega) (by omega)
  -- the field at the low end of the word
  have hbf : ∃ bf, (if (start : Int) + bits < 32 then shift w (32 - start - bits) else some w) = some bf ∧
      ∀ i < bits, bf.getLsbD i = w.getLsbD (32 - start - bits + i) := by
    by_cases hlt : start + bits < 32
    · obtain ⟨bf, heq, hbits⟩ := hshift w (32 - start - bits) (by omega)
      have hk : ((32 - start - bits : Nat) : Int) = 32 - (start : Int) - bits := by omega
      rw [hk] at heq
      exact ⟨bf, (if_pos (by omega)).trans heq, fun i hi => hbits i (by omega)⟩
    · refine ⟨w, if_neg (by omega), ?_⟩
      intro i _
      rw [show 32 - start - bits + i = i by omega]
  obtain ⟨bf, hbf, hbfBits⟩ := hbf
  refine ⟨bf &&& 0xFFFFFFFF#32 >>> (32 - bits), ?_, ?_⟩
  · unfold shiftedField
    simp only [hw, hbf, hones, Option.bind_eq_bind, Option.bind_some]
  · intro i
    rw [BitVec.getLsbD_and, getLsbD_ones_shr, Bool.and_comm]
    by_cases hi : i < bits
    · rw [hbfBits i hi, hwBits _ (by omega) (by omega), decide_eq_true hi, decide_eq_true (by omega),
        show 32 - start - bits + i - (32 - 8 * n) = 8 * n - start - bits + i by omega]
    · rw [decide_eq_false hi, decide_eq_false (by omega), Bool.false_and, Bool.false_and]

/-- **The extraction of an unsigned field.** -/
theorem extractUnsignedBitfieldAny_eq (o : ByteOrder) (h : Fits n start bits) (value : BitVec 32) :
    ∃ r, extractUnsignedBitfieldAny o value n start bits = some r ∧
      ∀ i, r.getLsbD i = (decide (i < bits) && value.getLsbD (fieldPos o n start bits + i)) := by
  cases o with
  | little => exact shiftedField_eq isShift_shr h value
  | big =>
    obtain ⟨hn, hpos, hfits⟩ := h
    obtain ⟨bf, hbf, hbfBits⟩ := collect_eq start (fun mask => value &&& mask == mask) bits (by omega)
    have hsign : shl 1 ((start : Int) + bits - 1) = some (1#32 <<< (start + bits - 1)) := shl_eq (by omega) (by omega)
    have hshr : shr bf (start : Int) = some (bf >>> start) := shr_eq rfl (by omega)
    refine ⟨bf >>> start, ?_, ?_⟩
    · unfold extractUnsignedBitfieldAny
      simp only [hsign, Int.toNat_natCast, hbf, hshr, Option.bind_eq_bind, Option.bind_some]
    · intro i
      rw [BitVec.getLsbD_ushiftRight, hbfBits]
      by_cases hi : i < bits
      · rw [decide_eq_true hi, decide_eq_true (by omega), test_eq _ _ (by omega)]
        rfl
      · rw [decide_eq_false hi, decide_eq_false (by omega), Bool.false_and, Bool.false_and]

/-- **The extraction of a signed field.** -/
theorem extractBitfieldAny_eq (o : ByteOrder) (h : Fits n start bits) (value : BitVec 32) :
    ∃ r, extractBitfieldAny o value n start bits = some r ∧ ∀ i < 32, r.getLsbD i =
      if i < bits then value.getLsbD (fieldPos o n start bits + i)
      else value.getLsbD (fieldPos o n start bits + bits - 1) := by
  obtain ⟨hn, hpos, hfits⟩ := h
  cases o with
  | little =>
    obtain ⟨bf, hbf, hbfBits⟩ := shiftedField_eq isShift_sar ⟨hn, hpos, hfits⟩ value
    have hmask : shl 1 ((bits : Int) - 1) = some (1#32 <<< (bits - 1)) := shl_eq (by omega) (by omega)
    have hsign : bf.getLsbD (bits - 1) = value.getLsbD (8 * n - start - bits + bits - 1) := by
      rw [hbfBits, decide_eq_true (by omega), Bool.true_and, Nat.add_sub_assoc hpos]
    by_cases hneg : bf.getLsbD (bits - 1) = true
    · obtain ⟨sbf, hsbf, hsbfBits⟩ := collect_eq 0 (fun mask => bf &&& mask != mask) bits (by omega)
      refine ⟨-(sbf + 1), ?_, ?_⟩
      · unfold extractBitfieldAny
        simp only [hbf, hmask, Int.toNat_natCast, Option.bind_eq_bind, Option.bind_some]
        rw [if_pos ((sign_iff _ _ (by omega)).mpr hneg)]
        show (collect ((0 : Nat) : Int) bits _).bind _ = _
        rw [hsbf]
        rfl
      · intro i hi
        show _ = if i < bits then value.getLsbD (8 * n - start - bits + i)
          else value.getLsbD (8 * n - start - bits + bits - 1)
        rw [neg_add_one, BitVec.getLsbD_not, hsbfBits, decide_eq_true hi, Bool.true_and, test_ne _ _ hi, hbfBits]
        by_cases hlt : i < bits
        · rw [if_pos hlt, decide_eq_true (by omega), decide_eq_true hlt, Bool.true_and, Bool.true_and, Bool.not_not]
        · rw [if_neg hlt, decide_eq_false (by omega), ← hsign, hneg]
          rfl
    · refine ⟨bf, ?_, ?_⟩
      · unfold extractBitfieldAny
        simp only [hbf, hmask, Option.bind_eq_bind, Option.bind_some]
        rw [if_neg fun hne => hneg ((sign_iff _ _ (by omega)).mp hne)]
      · intro i hi
        show _ = if i < bits then value.getLsbD (8 * n - start - bits + i)
          else value.getLsbD (8 * n - start - bits + bits - 1)
        rw [hbfBits]
        by_cases hlt : i < bits
        · rw [if_pos hlt, decide_eq_true hlt, Bool.true_and]
        · rw [if_neg hlt, decide_eq_false hlt, ← hsign, Bool.eq_false_iff.mpr hneg]
          rfl
  | big =>
    have hmask : shl 1 ((start : Int) + bits - 1) = some (1#32 <<< (start + bits - 1)) :=
      shl_eq (by omega) (by omega)
    by_cases hneg : value.getLsbD (start + bits - 1) = true
    · obtain ⟨sbf, hsbf, hsbfBits⟩ := collect_eq start (fun mask => value &&& mask != mask) bits (by omega)
      obtain ⟨r, hr, hrBits⟩ := isShift_sar sbf start (by omega)
      have hsar : sar sbf (start : Int) = some (sbf.sshiftRight start) := sar_eq rfl (by omega)
      refine ⟨-(sbf.sshiftRight start + 1), ?_, ?_⟩
      · unfold extractBitfieldAny
        simp only [hmask, Int.toNat_natCast, Option.bind_eq_bind, Option.bind_some]
        rw [if_pos ((sign_iff _ _ (by omega)).mpr hneg), hsbf, Option.bind_some, hsar]
        rfl
      · intro i hi
        show _ = if i < bits then value.getLsbD (start + i) else value.getLsbD (start + bits - 1)
        have hshifted : (sbf.sshiftRight start).getLsbD i = (decide (i < bits) && !value.getLsbD (start + i)) := by
          rw [BitVec.getLsbD_sshiftRight, decide_eq_false (by omega)]
          split
          · rw [hsbfBits, test_ne _ _ (by omega), Bool.not_false, Bool.true_and]
            congr 1
            rw [decide_eq_decide]
            omega
          · -- the sign of the word is that of the field, or it is outside of the field
            rw [BitVec.msb_eq_getLsbD_last, hsbfBits, test_ne _ _ (by omega), decide_eq_false (by omega : ¬ i < bits)]
            by_cases hlast : start + bits = 32
            · rw [show 32 - 1 = start + bits - 1 by omega, hneg]
              simp
            · rw [decide_eq_false (by omega)]
              rfl
        rw [neg_add_one, BitVec.getLsbD_not, hshifted, decide_eq_true hi, Bool.true_and]
        by_cases hlt : i < bits
        · rw [if_pos hlt, decide_eq_true hlt, Bool.true_and, Bool.not_not]
        · rw [if_neg hlt, decide_eq_false hlt, hneg]
          rfl
    · obtain ⟨bf, hbf, hbfBits⟩ := collect_eq start (fun mask => value &&& mask == mask) bits (by omega)
      have hshr : shr bf (start : Int) = some (bf >>> start) := shr_eq rfl (by omega)
      refine ⟨bf >>> start, ?_, ?_⟩
      · unfold extractBitfieldAny
        simp only [hmask, Int.toNat_natCast, Option.bind_eq_bind, Option.bind_some]
        rw [if_neg fun hne => hneg ((sign_iff _ _ (by omega)).mp hne), hbf, Option.bind_some, hshr]
      · intro i hi
        show _ = if i < bits then value.getLsbD (start + i) else value.getLsbD (start + bits - 1)
        rw [BitVec.getLsbD_ushiftRight, hbfBits]
        by_cases hlt : i < bits
        · rw [if_pos hlt, decide_eq_true (by omega), test_eq _ _ (by omega), Bool.true_and]
        · rw [if_neg hlt, decide_eq_false (by omega), Bool.eq_false_iff.mpr hneg]
          rfl

end Extraction

/-! ## Result -/

section Laws

variable {n start bits : Nat}

/-- The integer of the low bits of a word. -/
theorem toInt_emod (v : BitVec 32) (h : bits ≤ 32) : v.toInt % 2 ^ bits = (v.toNat % 2 ^ bits : Nat) := by
  have hdvd : ((2 ^ bits : Nat) : Int) ∣ ((2 ^ 32 : Nat) : Int) := by
    exact_mod_cast Nat.pow_dvd_pow 2 h
  have hmod : v.toInt % ((2 ^ bits : Nat) : Int) = (v.toNat : Int) % ((2 ^ bits : Nat) : Int) := by
    rw [← Int.emod_emod_of_dvd v.toInt hdvd, BitVec.toInt_eq_toNat_bmod, Int.bmod_emod, Int.emod_emod_of_dvd _ hdvd]
  push_cast at hmod ⊢
  exact hmod

/-- **What is read of a unit** as an unsigned field. -/
theorem getUnsignedBitfield_eq (o : ByteOrder) (h : Fits n start bits) (unit : BitVec (8 * n)) :
    ∃ r, getUnsignedBitfield o unit start bits = some r ∧
      ∀ i, r.getLsbD i = (decide (i < bits) && unit.getLsbD (fieldPos o n start bits + i)) := by
  obtain ⟨r, hr, hbits⟩ := extractUnsignedBitfieldAny_eq o h (unit.setWidth 32)
  refine ⟨r, hr, ?_⟩
  intro i
  rw [hbits i]
  by_cases hlt : i < bits
  · have hpos := h.pos_add_lt o hlt
    have hsize := h.size_le
    rw [BitVec.getLsbD_setWidth, decide_eq_true (by omega : fieldPos o n start bits + i < 32), Bool.true_and]
  · rw [decide_eq_false hlt, Bool.false_and, Bool.false_and]

/-- **What is read of a unit** as a signed field. -/
theorem getBitfield_eq (o : ByteOrder) (h : Fits n start bits) (unit : BitVec (8 * n)) :
    ∃ r, getBitfield o unit start bits = some r ∧ ∀ i < 32, r.getLsbD i =
      if i < bits then unit.getLsbD (fieldPos o n start bits + i)
      else unit.getLsbD (fieldPos o n start bits + bits - 1) := by
  obtain ⟨r, hr, hbits⟩ := extractBitfieldAny_eq o h (unit.signExtend 32)
  refine ⟨r, hr, ?_⟩
  have hpos := h.pos
  have hsize := h.size_le
  have hbit : ∀ i, i < bits → (unit.signExtend 32).getLsbD (fieldPos o n start bits + i) =
      unit.getLsbD (fieldPos o n start bits + i) := by
    intro i hi
    have hlt := h.pos_add_lt o hi
    rw [BitVec.getLsbD_signExtend, decide_eq_true (by omega), if_pos hlt, Bool.true_and]
  intro i hi
  rw [hbits i hi, Nat.add_sub_assoc hpos, hbit (bits - 1) (by omega)]
  by_cases hlt : i < bits
  · rw [if_pos hlt, if_pos hlt, hbit i hlt]
  · rw [if_neg hlt, if_neg hlt]

/-- **What is written to a unit.** -/
theorem putBitfield_eq (o : ByteOrder) (h : Fits n start bits) (unit : BitVec (8 * n)) (v : BitVec 32) :
    ∃ unit', putBitfield o unit v start bits = some unit' ∧ ∀ i < 8 * n, unit'.getLsbD i =
      if fieldPos o n start bits ≤ i ∧ i < fieldPos o n start bits + bits then v.getLsbD (i - fieldPos o n start bits)
      else unit.getLsbD i := by
  obtain ⟨w, hw, hbits⟩ := insertBitfieldAny_eq o h (unit.setWidth 32) v
  have hsize := h.size_le
  refine ⟨w.setWidth (8 * n), ?_, ?_⟩
  · unfold putBitfield
    rw [hw]
    rfl
  · intro i hi
    rw [BitVec.getLsbD_setWidth, decide_eq_true hi, Bool.true_and, hbits i (by omega), BitVec.getLsbD_setWidth,
      decide_eq_true (by omega), Bool.true_and]

/-- Insertions into disjoint fields commute. -/
theorem putBitfield_comm (o : ByteOrder) {start' bits' : Nat} (h : Fits n start bits) (h' : Fits n start' bits')
    (hdisjoint : start + bits ≤ start' ∨ start' + bits' ≤ start) (unit : BitVec (8 * n)) (v v' : BitVec 32) :
    (putBitfield o unit v start bits).bind (putBitfield o · v' start' bits') =
      (putBitfield o unit v' start' bits').bind (putBitfield o · v start bits) := by
  obtain ⟨first, hfirst, hfirstBits⟩ := putBitfield_eq o h unit v
  obtain ⟨second, hsecond, hsecondBits⟩ := putBitfield_eq o h' unit v'
  obtain ⟨both, hboth, hbothBits⟩ := putBitfield_eq o h' first v'
  obtain ⟨both', hboth', hbothBits'⟩ := putBitfield_eq o h second v
  rw [hfirst, hsecond, Option.bind_some, Option.bind_some, hboth, hboth']
  congr 1
  apply BitVec.eq_of_getLsbD_eq
  intro i hi
  rw [hbothBits i hi, hbothBits' i hi, hfirstBits i hi, hsecondBits i hi]
  -- no bit is in both fields
  have hapart : ¬ ((fieldPos o n start bits ≤ i ∧ i < fieldPos o n start bits + bits) ∧
      fieldPos o n start' bits' ≤ i ∧ i < fieldPos o n start' bits' + bits') := by
    have hfits := h.fits
    have hfits' := h'.fits
    cases o with
    | big =>
      show ¬ ((start ≤ i ∧ i < start + bits) ∧ start' ≤ i ∧ i < start' + bits')
      omega
    | little =>
      show ¬ ((8 * n - start - bits ≤ i ∧ i < 8 * n - start - bits + bits) ∧
        8 * n - start' - bits' ≤ i ∧ i < 8 * n - start' - bits' + bits')
      omega
  by_cases hin : fieldPos o n start bits ≤ i ∧ i < fieldPos o n start bits + bits
  · rw [if_pos hin, if_neg fun hin' => hapart ⟨hin, hin'⟩, if_pos hin]
  · rw [if_neg hin, if_neg hin]

/-- **The laws of bit-fields.** -/
theorem bitfield_laws (o : ByteOrder) (h : Fits n start bits) (unit : BitVec (8 * n)) (v : BitVec 32) :
    (∃ unit', putBitfield o unit v start bits = some unit' ∧
      (∃ r, getUnsignedBitfield o unit' start bits = some r ∧ (r.toNat : Int) = v.toInt % 2 ^ bits) ∧
      (∃ r, getBitfield o unit' start bits = some r ∧ r.toInt = v.toInt.bmod (2 ^ bits)) ∧
      ∀ i < 8 * n, ¬ (fieldPos o n start bits ≤ i ∧ i < fieldPos o n start bits + bits) →
        unit'.getLsbD i = unit.getLsbD i) ∧
      ∀ (start' bits' : Nat) (v' : BitVec 32), Fits n start' bits' → start + bits ≤ start' ∨ start' + bits' ≤ start →
        (putBitfield o unit v start bits).bind (putBitfield o · v' start' bits') =
          (putBitfield o unit v' start' bits').bind (putBitfield o · v start bits) := by
  have hpos := h.pos
  have hfits := h.fits
  have hsize := h.size_le
  obtain ⟨unit', hput, hbits⟩ := putBitfield_eq o h unit v
  -- the bits of the field are the low bits of the value
  have hfield : ∀ i, i < bits → unit'.getLsbD (fieldPos o n start bits + i) = v.getLsbD i := by
    intro i hi
    rw [hbits _ (h.pos_add_lt o hi), if_pos (by omega), Nat.add_sub_cancel_left]
  refine ⟨⟨unit', hput, ?_, ?_, ?_⟩, ?_⟩
  · obtain ⟨r, hr, hrBits⟩ := getUnsignedBitfield_eq o h unit'
    refine ⟨r, hr, ?_⟩
    have hlow : r = (v.setWidth bits).setWidth 32 := by
      apply BitVec.eq_of_getLsbD_eq
      intro i hi
      rw [hrBits i, BitVec.getLsbD_setWidth, BitVec.getLsbD_setWidth, decide_eq_true hi, Bool.true_and]
      by_cases hlt : i < bits
      · rw [hfield i hlt]
      · rw [decide_eq_false hlt, Bool.false_and, Bool.false_and]
    have hlt : v.toNat % 2 ^ bits < 2 ^ 32 :=
      lt_of_lt_of_le (Nat.mod_lt _ (by positivity)) (Nat.pow_le_pow_right (by omega) (by omega))
    rw [toInt_emod v (by omega), hlow, BitVec.toNat_setWidth, BitVec.toNat_setWidth, Nat.mod_eq_of_lt hlt]
  · obtain ⟨r, hr, hrBits⟩ := getBitfield_eq o h unit'
    refine ⟨r, hr, ?_⟩
    have hsigned : r = (v.setWidth bits).signExtend 32 := by
      apply BitVec.eq_of_getLsbD_eq
      intro i hi
      rw [hrBits i hi, BitVec.getLsbD_signExtend, decide_eq_true hi, Bool.true_and, BitVec.msb_eq_getLsbD_last,
        BitVec.getLsbD_setWidth, BitVec.getLsbD_setWidth, Nat.add_sub_assoc hpos, hfield (bits - 1) (by omega),
        decide_eq_true (by omega : bits - 1 < bits), Bool.true_and]
      by_cases hlt : i < bits
      · rw [if_pos hlt, if_pos hlt, hfield i hlt, decide_eq_true hlt, Bool.true_and]
      · rw [if_neg hlt, if_neg hlt]
    have hdvd : 2 ^ bits ∣ 2 ^ 32 := Nat.pow_dvd_pow 2 (by omega)
    rw [hsigned, BitVec.toInt_signExtend_of_le (by omega), BitVec.toInt_setWidth, BitVec.toInt_eq_toNat_bmod,
      Int.bmod_bmod_of_dvd hdvd]
  · intro i hi hout
    rw [hbits i hi, if_neg hout]
  · intro start' bits' v' h' hdisjoint
    exact putBitfield_comm o h h' hdisjoint unit v v'

/-- A negative value in a whole word, on a little endian machine. -/
theorem bitfield_laws_word : ∃ unit', @putBitfield .little 4 0#32 (-3) 0 32 = some unit' ∧
    ∃ r, getBitfield .little unit' 0 32 = some r ∧ r.toInt = -3 := by
  obtain ⟨⟨unit', hput, -, hsigned, -⟩, -⟩ :=
    @bitfield_laws 4 0 32 .little ⟨.inr (.inr rfl), by decide, by decide⟩ 0#32 (-3)
  exact ⟨unit', hput, hsigned⟩

end Laws

end Trick.Bitfields
