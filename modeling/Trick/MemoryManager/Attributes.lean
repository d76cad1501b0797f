/-
  What Trick knows of types: the data types of `parameter_types.h`, and the records of `attributes.h` and `io_alloc.h`.

  Data:           the dimensions of a record are a list, whose length is `num_index`; what the first index of a
                  bit-field holds has a field of its own.
  Program:        sizes of the C types, and what the bits of `mods` and `io` say.
  Specification:  `Types`: the records of the composite types, where no type contains itself.
-/
import Mathlib.Data.List.Basic
import Mathlib.Algebra.BigOperators.Group.List.Basic

namespace Trick.Memory

/-! ## Types -/

/-- `TRICK_TYPE` -/
inductive TrickType where
  | void
  | character
  | unsignedCharacter
  | string
  | short
  | unsignedShort
  | integer
  | unsignedInteger
  | long
  | unsignedLong
  | float
  | double
  | bitfield
  | unsignedBitfield
  | longLong
  | unsignedLongLong
  | filePtr
  | boolean
  | wchar
  | wstring
  | voidPtr
  | enumerated
  | structured
  | opaqueType
  | stl
deriving DecidableEq, Repr

/-- `sizeof(void *)` -/
def sizeofPointer : Nat := 8

/-- `sizeof(std::string)` and `sizeof(std::wstring)` -/
def sizeofString : Nat := 32

/-! ## Attributes -/

/-- `INDEX`, for the bits of a bit-field. -/
structure BitRange where
  size : Nat
  start : Nat
deriving DecidableEq, Repr

/-- **`ATTRIBUTES`**, of a member of a type; `attr` is the number of the type of a structured member. -/
structure Attributes where
  name : String
  type : TrickType
  io : Nat := 15
  size : Nat
  mods : Nat := 0
  offset : Nat := 0
  attr : Option Nat := none
  dims : List Nat := []
  bits : BitRange := ⟨0, 0⟩
  /-- There is a `clear_stl`. -/
  clearStl : Bool := false
deriving DecidableEq, Repr

namespace Attributes

/-- `num_index` -/
def numIndex (a : Attributes) : Nat := a.dims.length

/-- "bit 0 = c++ reference var" -/
def isReference (a : Attributes) : Prop := a.mods % 2 = 1

instance (a : Attributes) : Decidable a.isReference := inferInstanceAs (Decidable (_ = _))

/-- "bit 1 = c++ static var" -/
def isStatic (a : Attributes) : Prop := a.mods / 2 % 2 = 1

instance (a : Attributes) : Decidable a.isStatic := inferInstanceAs (Decidable (_ = _))

/-- The width of a reference, of the bits from 3 on. -/
def referenceWidth (a : Attributes) : Nat := a.mods / 8 % 64

/-- **Embedded**: an object of a composite type, or a fixed array of them, is a part of the object. -/
def Embedded (a : Attributes) : Prop :=
  a.type = .structured ∧ ¬ a.isReference ∧ ¬ a.isStatic ∧ ∀ d ∈ a.dims, d ≠ 0

instance (a : Attributes) : Decidable a.Embedded := inferInstanceAs (Decidable (_ ∧ _))

end Attributes

/-- `output_perm_check` -/
def outputPermCheck (a : Attributes) : Prop := a.io / 4 % 2 = 1

instance (a : Attributes) : Decidable (outputPermCheck a) := inferInstanceAs (Decidable (_ = _))

/-- `input_perm_check` -/
def inputPermCheck (a : Attributes) : Prop := a.io / 8 % 2 = 1

instance (a : Attributes) : Decidable (inputPermCheck a) := inferInstanceAs (Decidable (_ = _))

/-- The element address of a member: that of a static member is its `offset`. -/
def elementAddress (a : Attributes) (address : Nat) : Nat := if a.isStatic then a.offset else address + a.offset

/-- The elements of the member are pointers. -/
def Attributes.OfPointers (a : Attributes) : Prop := ∃ d ∈ a.dims, d = 0

instance (a : Attributes) : Decidable a.OfPointers := inferInstanceAs (Decidable (∃ d ∈ _, _))

/-- The number of the elements. -/
def Attributes.count (a : Attributes) : Nat := (a.dims.takeWhile (· ≠ 0)).prod

/-- **The composite types** that are described; no type contains itself, so that its depth is a number. -/
structure Types where
  members : Nat → List Attributes
  depth : Nat → Nat
  embedded : ∀ t, ∀ a ∈ members t, a.Embedded → ∃ t', a.attr = some t' ∧ depth t' < depth t

/-! ## Allocations -/

/-- `Language` -/
inductive Language where
  | c
  | cpp
deriving DecidableEq, Repr

/-- `TRICK_STCL` -/
inductive Stcl where
  | trickLocal
  | trickExtern
deriving DecidableEq, Repr

/-- **`ALLOC_INFO`**; `attr` is the number of the type of a structured allocation. -/
structure AllocInfo where
  start : Nat
  lastByte : Int
  name : Option String := none
  size : Nat
  language : Language := .cpp
  type : TrickType
  stcl : Stcl := .trickLocal
  attr : Option Nat := none
  num : Int
  index : List Int := []

/-- `make_reference_attr` -/
def makeReferenceAttr (info : AllocInfo) : Attributes :=
  { name := info.name.getD "", type := info.type, io := 15, size := info.size, attr := info.attr,
    dims := info.index.map Int.toNat }

end Trick.Memory
