/-
  The memory that the attributes describe: numbers by their bytes, and the objects of the C++ library by their values.

  Data:           bytes, in one of the two orders, and for each address the string, wide string or container that
                  starts there; no two strings overlap.
  Program:        `value` reads a number.
  Specification:  `NilElement`: an element of a member is zero, null or empty.
-/
import Trick.Lib.Words
import Trick.MemoryManager.Attributes
import Trick.MemoryManager.Bitfields

namespace Trick.Memory

open Trick.Lib (ByteOrder loadBytes loadBytes_lt ofLeBytes)
open Trick.Bitfields (fieldPos)

/-- **A memory.** -/
structure ObjectMemory where
  big : Bool := false
  byte : Nat → UInt8
  string : Nat → Option (List UInt8) := fun _ => none
  wstring : Nat → Option (List Nat) := fun _ => none
  /-- The number of elements of the container at an address. -/
  stl : Nat → Nat := fun _ => 0
  apart : ∀ a b, (string a).isSome → (string b).isSome → a < b → a + sizeofString ≤ b

/-- Where there are no strings, they are apart. -/
theorem apart_of_no_strings (a b : Nat) (h : ((fun _ => none : Nat → Option (List UInt8)) a).isSome)
    (_ : ((fun _ => none : Nat → Option (List UInt8)) b).isSome) (_ : a < b) : a + sizeofString ≤ b :=
  absurd h Bool.false_ne_true

namespace ObjectMemory

variable (m : ObjectMemory)

/-- The order of the bytes. -/
def order : ByteOrder := if m.big then .big else .little

/-- The bytes from an address on. -/
def bytes (a n : Nat) : List UInt8 := (List.range n).map fun i => m.byte (a + i)

/-- **The number at an address**, of `n` bytes. -/
def value (a n : Nat) : Nat := loadBytes m.big (m.bytes a n)

/-- A floating-point number is a zero of either sign. -/
def FloatZero (a n : Nat) : Prop := m.value a n % 2 ^ (8 * n - 1) = 0

instance (a n : Nat) : Decidable (m.FloatZero a n) := inferInstanceAs (Decidable (_ = _))

end ObjectMemory

/-! ## Bits -/

/-- **The bits of a number** are those of its bytes. -/
theorem testBit_ofLeBytes (l : List UInt8) (j : Nat) :
    (ofLeBytes l).testBit j = (l.getD (j / 8) 0).toNat.testBit (j % 8) := by
  induction l generalizing j with
  | nil =>
    show Nat.testBit 0 j = Nat.testBit 0 (j % 8)
    rw [Nat.zero_testBit, Nat.zero_testBit]
  | cons b l ih =>
    have hvalue : ofLeBytes (b :: l) = 2 ^ 8 * ofLeBytes l + b.toNat := Nat.add_comm _ _
    rw [hvalue, Nat.testBit_two_pow_mul_add _ b.toNat_lt]
    by_cases hj : j < 8
    · rw [if_pos hj, Nat.div_eq_of_lt hj, Nat.mod_eq_of_lt hj]
      rfl
    · have hdiv : j / 8 = (j - 8) / 8 + 1 := by omega
      have hmod : j % 8 = (j - 8) % 8 := by omega
      rw [if_neg hj, ih, hdiv, hmod]
      rfl

namespace ObjectMemory

variable {m : ObjectMemory} {a n : Nat}

theorem bytes_getD {k : Nat} (h : k < n) : (m.bytes a n).getD k 0 = m.byte (a + k) := by
  unfold bytes
  rw [List.getD_eq_getElem?_getD, List.getElem?_map, List.getElem?_range h]
  rfl

/-- **A bit of a number** is one of a byte, at the place that the order gives. -/
theorem testBit_value (m : ObjectMemory) (a n j : Nat) : (m.value a n).testBit j =
    (decide (j < 8 * n) && (m.byte (a + m.order.place n (j / 8))).toNat.testBit (j % 8)) := by
  have hlength : (m.bytes a n).length = n := by
    unfold bytes
    rw [List.length_map, List.length_range]
  by_cases hj : j < 8 * n
  · have hdiv : j / 8 < n := by omega
    rw [decide_eq_true hj, Bool.true_and]
    unfold value loadBytes order
    cases m.big with
    | false =>
      rw [if_neg Bool.false_ne_true, testBit_ofLeBytes, bytes_getD hdiv]
      rfl
    | true =>
      rw [if_pos rfl, testBit_ofLeBytes, List.getD_eq_getElem?_getD, List.getElem?_reverse (by omega), hlength,
        ← List.getD_eq_getElem?_getD, bytes_getD (by omega)]
      rfl
  · rw [decide_eq_false hj, Bool.false_and]
    refine Nat.testBit_lt_two_pow ?_
    have hlt := loadBytes_lt m.big (m.bytes a n)
    rw [hlength, show 256 ^ n = 2 ^ (8 * n) from (Nat.pow_mul 2 8 n).symm] at hlt
    exact lt_of_lt_of_le hlt (Nat.pow_le_pow_right (by decide) (by omega))

end ObjectMemory

/-! ## Elements -/

/-- **The bytes of an element** of a type; enumerations, bit-fields and composite types have those of the record. -/
def Attributes.stride (a : Attributes) : Nat :=
  match a.type with
  | .character | .unsignedCharacter | .boolean => 1
  | .short | .unsignedShort => 2
  | .integer | .unsignedInteger | .float | .wchar => 4
  | .long | .unsignedLong | .longLong | .unsignedLongLong | .double => 8
  | .filePtr | .voidPtr => sizeofPointer
  | .string | .wstring => sizeofString
  | .enumerated | .bitfield | .unsignedBitfield | .structured | .stl | .void | .opaqueType => a.size

/-- The bits of a bit-field in its storage unit. -/
def fieldValue (m : ObjectMemory) (a : Attributes) (address : Nat) : Nat :=
  m.value address a.size / 2 ^ fieldPos m.order a.size a.bits.start a.bits.size % 2 ^ a.bits.size

/-- **The object at an address is nil**: zero, null or empty. -/
def NilObject (m : ObjectMemory) (a : Attributes) (address : Nat) : Prop :=
  match a.type with
  | .float => m.FloatZero address 4
  | .double => m.FloatZero address 8
  | .bitfield | .unsignedBitfield => fieldValue m a address = 0
  | .string => m.string address = some []
  | .wstring => m.wstring address = some []
  | .stl => m.stl address = 0
  | _ => m.value address a.stride = 0

/-- **The element number `k` from an address is nil**; when there are dimensions left, it is a pointer. -/
def NilElement (m : ObjectMemory) (a : Attributes) (pointer : Prop) [Decidable pointer] (address k : Nat) : Prop :=
  if pointer then m.value (address + k * sizeofPointer) sizeofPointer = 0 else NilObject m a (address + k * a.stride)

end Trick.Memory
