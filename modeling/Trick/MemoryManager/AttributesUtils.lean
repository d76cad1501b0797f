/-
  From an address to the member that contains it: `AttributesUtils` and `get_attributes_for_address`.

  Data:           the records of the members of a type, by their offsets.
  Program:        `traverseForOffset` is one level; the indices in an array come from divisions by the size in the
                  record, which is that of what is pointed to when the elements are pointers.
  Specification:  `Decomposes`: a path of members, with indices that are within the dimensions, whose offsets and
                  strides add up to the offset that was given, with less left over than the size of what was reached.
  Result:         `decomposes_iff`: so it is exactly if no member that is met on the way is one of the arrays of
                  pointers for which the divisions by the two sizes differ.
-/
import Trick.Lib.RowMajor
import Trick.MemoryManager.Attributes

namespace Trick.Memory

open Trick.Lib (rowMajor rowMajor_lt rowMajor_add Indices displacement displacement_eq)

/-! ## `AttributesUtils` -/

namespace Attributes

/-- The fixed dimensions, which `count_fixed_dims` counts. -/
def fixedDims (a : Attributes) : List Nat := a.dims.takeWhile (· ≠ 0)

/-- **`compute_member_byte_size`** -/
def memberByteSize (a : Attributes) : Nat :=
  if a.isReference then a.referenceWidth
  else if a.dims ≠ [] then
    -- "if size of last valid index is 0, then we are looking at a pointer"
    (if a.dims.getLastD 0 = 0 then sizeofPointer else a.size) * a.fixedDims.prod
  else a.size

/-- The loop of `compute_fixed_indices_for_linear_offset`, from the last dimension on: the indices, and what `size`
    and `remaining` are after it. -/
def fixedIndicesLoop : List Nat → Nat → Nat → Option (List Nat × Nat × Nat)
  | [], size, remaining => some ([], size, remaining)
  | dim :: dims, size, remaining =>
    match fixedIndicesLoop dims size remaining with
    | none => none
    | some (outIndices, lastSize, remaining) =>
      if lastSize * dim = 0 ∨ lastSize = 0 then none
      else
        let index := remaining % (lastSize * dim) / lastSize
        some (index :: outIndices, lastSize * dim, remaining - lastSize * index)

/-- **`compute_fixed_indices_for_linear_offset`**; no result where it returns false. -/
def computeFixedIndices (member : Attributes) (offset : Nat) : Option (List Nat) :=
  if member.fixedDims = [] then some []
  else (fixedIndicesLoop member.fixedDims member.size offset).map Prod.fst

/-- The linear offset of an array element; the indices that have not been computed are zero. -/
def elementOffset (size : Nat) : List Nat → List Nat → Nat
  | _ :: dims, index :: arrayIndices => index * dims.prod * size + elementOffset size dims arrayIndices
  | _, _ => 0

end Attributes

/-- `find_member_by_offset`; no result for the sentinel. -/
def findMemberByOffset (structAttr : List Attributes) (offset : Nat) : Option Attributes :=
  structAttr.find? fun a => decide (a.offset ≤ offset ∧ offset < a.offset + a.memberByteSize)

/-- **`TraversalResult`**; without a member it is in an anonymous one. -/
structure TraversalResult where
  foundAttr : Option Attributes
  offsetFromFoundAttr : Nat
  arrayIndices : List Nat := []

/-- **`traverse_for_offset`**; no result where it returns 1. -/
def traverseForOffset (referenceOffset : Nat) (structAttr : List Attributes) : Option TraversalResult :=
  match findMemberByOffset structAttr referenceOffset with
  | none => some { foundAttr := none, offsetFromFoundAttr := referenceOffset }
  | some a =>
    let offset := referenceOffset - a.offset
    if a.type ≠ .structured then
      if a.dims.headD 0 = 0 then some { foundAttr := a, offsetFromFoundAttr := offset }
      else
        (a.computeFixedIndices offset).map fun arrayIndices => { foundAttr := a, offsetFromFoundAttr := offset, arrayIndices }
    else if a.isReference then some { foundAttr := a, offsetFromFoundAttr := offset }
    -- an object, or a pointer
    else if a.dims.headD 0 = 0 then some { foundAttr := a, offsetFromFoundAttr := offset }
    else
      (a.computeFixedIndices offset).map fun arrayIndices =>
        { foundAttr := a, offsetFromFoundAttr := Attributes.elementOffset a.size a.dims arrayIndices, arrayIndices }

/-! ## `get_attributes_for_address` -/

/-- The attributes of what is not described. -/
def anonymousAttributes (offset : Nat) : Attributes :=
  { name := "", type := .voidPtr, io := 0, size := sizeofPointer, offset, dims := [0] }

/-- The attributes that are returned for a member that is not followed: a scalar or a pointer is given one dimension. -/
def returnedAttributes (a : Attributes) : Attributes :=
  if a.type ≠ .structured ∧ (match a.dims with
    | [] => a.bits.size
    | dim :: _ => dim) = 0 then { a with dims := [if a.dims = [] then 1 else 0] }
  else a

/-- **`getCompositeSubReference`**: the attributes and what remains of the offset.  There is no result where it
    returns 1, and none where it does not come back. -/
def getCompositeSubReference (types : Types) : Nat → Nat → Nat → Option Nat → Option (Attributes × Nat)
  | _, _, _, none => none
  | 0, _, _, some _ => none
  | fuel + 1, addrValue, structAddrValue, some t =>
    if addrValue < structAddrValue then none
    else
      let addrOffsetFromStruct := addrValue - structAddrValue
      match traverseForOffset addrOffsetFromStruct (types.members t) with
      | none => none
      | some r =>
        match r.foundAttr with
        | none => some (anonymousAttributes addrOffsetFromStruct, r.offsetFromFoundAttr)
        | some a =>
          if a.type ≠ .structured ∨ a.isReference then some (returnedAttributes a, r.offsetFromFoundAttr)
          else if a.dims = [] then getCompositeSubReference types fuel addrValue (structAddrValue + a.offset) a.attr
          else if a.dims.headD 0 = 0 then some (a, r.offsetFromFoundAttr)
          else
            getCompositeSubReference types fuel addrValue (structAddrValue + a.offset + r.offsetFromFoundAttr) a.attr

/-- **`get_attributes_for_address`**, for the allocation that `get_alloc_info_of` finds; no result where there is
    nothing to describe. -/
def getAttributesForAddress (types : Types) (fuel : Nat) (allocInfo : Option AllocInfo) (address : Nat) :
    Option (Attributes × Nat) :=
  if address = 0 then none
  else
    match allocInfo with
    | none => none
    | some info =>
      if info.type = .structured then
        getCompositeSubReference types fuel address
          (info.start + (address - info.start) / info.size * info.size) info.attr
      else
        match info.attr.bind fun t => (types.members t).head? with
        | some a =>
          if info.type = .enumerated then some (primitive info, address - info.start) else some (a, address - info.start)
        | none => some (primitive info, address - info.start)
where
  primitive (info : AllocInfo) : Attributes :=
    { name := info.name.getD "", type := info.type, size := 0, dims := info.index.map Int.toNat }

/-! ## What is wanted -/

namespace Attributes

/-- The dimensions of the member itself: those of what a reference or a pointer leads to are not among them. -/
def ownDims (a : Attributes) : List Nat := if a.isReference then [] else a.fixedDims

/-- **The size of an element**: a reference, a pointer, or an object of the type. -/
def elementSize (a : Attributes) : Nat :=
  if a.isReference then a.referenceWidth else if a.fixedDims.length < a.numIndex then sizeofPointer else a.size

end Attributes

/-- A member of a path, and the indices in it. -/
structure Step where
  member : Attributes
  indices : List Nat

/-- Where the element starts, in the object that the member is of. -/
def Step.start (s : Step) : Nat := s.member.offset + displacement s.member.elementSize s.member.ownDims s.indices

/-- The member is one of the type and lies in its objects, and each index is within its dimension. -/
def Step.Valid (types : Types) (t : Nat) (s : Step) : Prop :=
  s.member ∈ types.members t ∧ ¬ s.member.isStatic ∧ Indices s.member.ownDims s.indices

/-- **A path** from an object to a part of it: a part that is not described, a member, or a path in a member. -/
inductive MemberPath where
  | anonymous
  | member (s : Step)
  | inside (s : Step) (rest : MemberPath)

namespace MemberPath

/-- The members are those of the types, and only composite objects have members. -/
def Valid (types : Types) : Nat → MemberPath → Prop
  | _, anonymous => True
  | t, member s => s.Valid types t
  | t, inside s rest => s.Valid types t ∧ s.member.Embedded ∧ ∃ t', s.member.attr = some t' ∧ rest.Valid types t'

/-- **The sum** of the offsets, and of the indices times the strides. -/
def start : MemberPath → Nat
  | anonymous => 0
  | member s => s.start
  | inside s rest => s.start + rest.start

/-- The size of what is reached, from an object of the size `outer`. -/
def reachedSize : Nat → MemberPath → Nat
  | outer, anonymous => outer
  | _, member s => s.member.elementSize
  | _, inside s rest => rest.reachedSize s.member.size

/-- Where that starts whose attributes are returned, which may be a whole array. -/
def attributesStart : MemberPath → Nat
  | anonymous => 0
  | member s => s.member.offset
  | inside s rest => s.start + rest.attributesStart

/-- The attributes are those of the last member. -/
def Describes : MemberPath → Attributes → Prop
  | anonymous, a => a.type = .voidPtr ∧ a.name = ""
  | member s, a => a.type = s.member.type ∧ a.name = s.member.name
  | inside _ rest, a => rest.Describes a

end MemberPath

/-- **The members and indices** that `traverse_for_offset` finds, level by level, as `getCompositeSubReference` goes
    on with them. -/
def memberPath (types : Types) : Nat → Option Nat → Nat → Option MemberPath
  | _, none, _ => none
  | 0, some _, _ => none
  | fuel + 1, some t, offset =>
    match traverseForOffset offset (types.members t) with
    | none => none
    | some r =>
      match r.foundAttr with
      | none => some .anonymous
      | some a =>
        if a.type ≠ .structured ∨ a.isReference then some (.member ⟨a, r.arrayIndices⟩)
        else if a.dims = [] then
          (memberPath types fuel a.attr (offset - a.offset)).map (.inside ⟨a, r.arrayIndices⟩)
        else if a.dims.headD 0 = 0 then some (.member ⟨a, r.arrayIndices⟩)
        else
          (memberPath types fuel a.attr (offset - (a.offset + r.offsetFromFoundAttr))).map (.inside ⟨a, r.arrayIndices⟩)

/-- An allocation of objects of a type. -/
structure AllocationOf (t size : Nat) (info : AllocInfo) : Prop where
  structured : info.type = .structured
  attr : info.attr = some t
  size : info.size = size
  start : info.start ≠ 0

/-- **An offset in a type is decomposed**: the path that is found is one of the type, it leads to the offset, with
    less left over than the size of what it reaches; and in each object of an allocation, the attributes are those
    of the last member, which starts at the address minus the offset that remains. -/
def Decomposes (types : Types) (t size offset : Nat) : Prop :=
  ∃ fuel path rem, memberPath types fuel (some t) offset = some path ∧ path.Valid types t ∧
    offset = path.start + rem ∧ rem < path.reachedSize size ∧
    ∀ info, AllocationOf t size info → ∀ i, ∃ a remaining,
      getAttributesForAddress types fuel (some info) (info.start + i * size + offset) = some (a, remaining) ∧
      path.Describes a ∧ info.start + i * size + offset = info.start + i * size + path.attributesStart + remaining

/-- **The members that are met** on the way to an offset, and the offsets in them. -/
inductive Meets (types : Types) : Nat → Nat → Attributes → Nat → Prop where
  | here {t offset a} : findMemberByOffset (types.members t) offset = some a →
      Meets types t offset a (offset - a.offset)
  | inside {t t' offset a a' offset'} : findMemberByOffset (types.members t) offset = some a → a.Embedded →
      a.attr = some t' → Meets types t' ((offset - a.offset) % a.size) a' offset' → Meets types t offset a' offset'

/-- **The indices of a member come out right** at an offset in it: it is no array of pointers to composite objects,
    in any other array of pointers the element is the same in units of the type's size and of a pointer's, and no
    reference to an array is taken for the array.  A static member is not in the object, whatever its address. -/
structure Attributes.Countable (a : Attributes) (offset : Nat) : Prop where
  object : ¬ a.isStatic
  reference : a.isReference → a.type ≠ .structured → a.fixedDims = []
  structured : ¬ a.isReference → a.fixedDims.length < a.numIndex → a.type = .structured → a.fixedDims = []
  sized : ¬ a.isReference → a.fixedDims ≠ [] → a.size ≠ 0
  pointers : ¬ a.isReference → a.fixedDims.length < a.numIndex →
    offset / a.size % a.fixedDims.prod = offset / sizeofPointer

/-! ## The indices in an array -/

namespace Attributes

variable {a : Attributes} {offset : Nat}

theorem ne_zero_of_mem_fixedDims {d : Nat} (h : d ∈ a.fixedDims) : d ≠ 0 := by
  have hd := List.mem_takeWhile_imp h
  exact of_decide_eq_true hd

theorem fixedDims_length_le : a.fixedDims.length ≤ a.numIndex := (List.takeWhile_prefix _).length_le

theorem fixedDims_eq_dims (h : ¬ a.fixedDims.length < a.numIndex) : a.fixedDims = a.dims :=
  (List.takeWhile_prefix _).eq_of_length (Nat.le_antisymm fixedDims_length_le (Nat.not_lt.mp h))

theorem fixedDims_of_ne_zero (h : ∀ d ∈ a.dims, d ≠ 0) : a.fixedDims = a.dims := by
  unfold fixedDims
  rw [List.takeWhile_eq_self_iff]
  intro d hd
  exact decide_eq_true (h d hd)

theorem fixedDims_eq_nil : a.fixedDims = [] ↔ a.dims.headD 0 = 0 := by
  unfold fixedDims
  cases a.dims with
  | nil => exact ⟨fun _ => rfl, fun _ => rfl⟩
  | cons d dims =>
    by_cases hd : d = 0
    · rw [List.takeWhile_cons, hd]
      exact ⟨fun _ => rfl, fun _ => rfl⟩
    · rw [List.takeWhile_cons, if_pos (decide_eq_true hd)]
      exact ⟨nofun, fun h => absurd h hd⟩

/-- The loop divides the number of the element, once for each dimension. -/
theorem fixedIndicesLoop_spec {dims : List Nat} (hdims : ∀ d ∈ dims, d ≠ 0) {size : Nat} (hsize : size ≠ 0)
    (remaining : Nat) : ∃ indices, fixedIndicesLoop dims size remaining =
        some (indices, size * dims.prod, remaining - size * (remaining / size % dims.prod)) ∧
      Indices dims indices ∧ rowMajor 0 dims indices = remaining / size % dims.prod := by
  induction dims with
  | nil =>
    refine ⟨[], ?_, .nil, ?_⟩
    · rw [List.prod_nil, Nat.mul_one, Nat.mod_one, Nat.mul_zero]
      rfl
    · rw [List.prod_nil, Nat.mod_one]
      rfl
  | cons d dims ih =>
    obtain ⟨hd, hrest⟩ := List.forall_mem_cons.mp hdims
    obtain ⟨indices, hloop, hindices, hrow⟩ := ih hrest
    have hprod : dims.prod ≠ 0 := List.prod_ne_zero fun h => hrest 0 h rfl
    have hstride : size * dims.prod ≠ 0 := Nat.mul_ne_zero hsize hprod
    -- what is left is whole strides, and less than an element
    have hleft : remaining - size * (remaining / size % dims.prod) =
        remaining % size + size * dims.prod * (remaining / size / dims.prod) := by
      have hall := Nat.mod_add_div remaining size
      have hinner := Nat.mod_add_div (remaining / size) dims.prod
      have hmul : size * (remaining / size) =
          size * (remaining / size % dims.prod) + size * dims.prod * (remaining / size / dims.prod) := by
        conv_lhs => rw [← hinner]
        ring
      omega
    have hindex : (remaining - size * (remaining / size % dims.prod)) % (size * dims.prod * d) / (size * dims.prod) =
        remaining / size / dims.prod % d := by
      rw [Nat.mod_mul_right_div_self, hleft, Nat.add_mul_div_left _ _ (Nat.pos_of_ne_zero hstride), Nat.div_eq_of_lt,
        Nat.zero_add]
      exact lt_of_lt_of_le (Nat.mod_lt _ (Nat.pos_of_ne_zero hsize)) (Nat.le_mul_of_pos_right _ (Nat.pos_of_ne_zero hprod))
    refine ⟨remaining / size / dims.prod % d :: indices, ?_, .cons (Nat.mod_lt _ (Nat.pos_of_ne_zero hd)) hindices, ?_⟩
    · rw [fixedIndicesLoop, hloop]
      dsimp only
      rw [if_neg (not_or.mpr ⟨Nat.mul_ne_zero hstride hd, hstride⟩), hindex, List.prod_cons]
      refine congrArg some (Prod.ext rfl (Prod.ext ?_ ?_))
      · show size * dims.prod * d = size * (d * dims.prod)
        ring
      · show remaining - size * (remaining / size % dims.prod) - size * dims.prod * (remaining / size / dims.prod % d) =
          remaining - size * (remaining / size % (d * dims.prod))
        rw [Nat.mul_comm d, Nat.mod_mul, Nat.mul_add, Nat.sub_sub, Nat.mul_assoc]
    · show rowMajor (0 * d + remaining / size / dims.prod % d) dims indices = _
      rw [rowMajor_add hindices, Nat.zero_mul, Nat.zero_add, hrow, List.prod_cons, Nat.mul_comm d, Nat.mod_mul]
      ring

/-- Without a size there are no indices. -/
theorem fixedIndicesLoop_zero {dims : List Nat} (h : dims ≠ []) (remaining : Nat) :
    fixedIndicesLoop dims 0 remaining = none := by
  induction dims with
  | nil => exact absurd rfl h
  | cons d dims ih =>
    rw [fixedIndicesLoop]
    by_cases hdims : dims = []
    · rw [hdims]
      exact if_pos (.inr rfl)
    · rw [ih hdims]

/-- **The indices that are computed** are those of the element that the offset has in units of the type's size. -/
theorem computeFixedIndices_spec (hsize : a.fixedDims ≠ [] → a.size ≠ 0) (offset : Nat) :
    ∃ indices, a.computeFixedIndices offset = some indices ∧ Indices a.fixedDims indices ∧
      rowMajor 0 a.fixedDims indices = offset / a.size % a.fixedDims.prod := by
  unfold computeFixedIndices
  by_cases hdims : a.fixedDims = []
  · rw [if_pos hdims, hdims]
    refine ⟨[], rfl, .nil, ?_⟩
    rw [List.prod_nil, Nat.mod_one]
    rfl
  · obtain ⟨indices, hloop, hindices, hrow⟩ :=
      fixedIndicesLoop_spec (fun d => ne_zero_of_mem_fixedDims) (hsize hdims) offset
    rw [if_neg hdims, hloop]
    exact ⟨indices, rfl, hindices, hrow⟩

theorem computeFixedIndices_zero (hdims : a.fixedDims ≠ []) (hsize : a.size = 0) (offset : Nat) :
    a.computeFixedIndices offset = none := by
  unfold computeFixedIndices
  rw [if_neg hdims, hsize, fixedIndicesLoop_zero hdims]
  rfl

/-- The offset of an element, for the caller. -/
theorem elementOffset_eq (size : Nat) (dims indices : List Nat) :
    elementOffset size dims indices = displacement size dims indices := by
  induction dims generalizing indices with
  | nil => cases indices <;> rfl
  | cons d dims ih =>
    cases indices with
    | nil => rfl
    | cons i indices =>
      show i * dims.prod * size + elementOffset size dims indices = i * (dims.prod * size) + _
      rw [ih, Nat.mul_assoc]

end Attributes

/-! ## One level -/

section Level

variable {members : List Attributes} {offset : Nat} {a : Attributes}

theorem findMemberByOffset_some (h : findMemberByOffset members offset = some a) :
    a ∈ members ∧ a.offset ≤ offset ∧ offset < a.offset + a.memberByteSize := by
  refine ⟨List.mem_of_find?_eq_some h, ?_⟩
  have hfound := List.find?_some h
  exact of_decide_eq_true hfound

theorem traverseForOffset_none (h : findMemberByOffset members offset = none) :
    traverseForOffset offset members = some { foundAttr := none, offsetFromFoundAttr := offset } := by
  unfold traverseForOffset
  rw [h]

/-- A scalar, a pointer, or a reference to a composite object. -/
theorem traverseForOffset_plain (h : findMemberByOffset members offset = some a)
    (hplain : a.fixedDims = [] ∨ a.type = .structured ∧ a.isReference) : traverseForOffset offset members =
      some { foundAttr := a, offsetFromFoundAttr := offset - a.offset } := by
  unfold traverseForOffset
  rw [h]
  dsimp only
  rcases hplain with hdims | ⟨htype, href⟩
  · have hhead := Attributes.fixedDims_eq_nil.mp hdims
    by_cases htype : a.type = .structured
    · rw [if_neg (not_not.mpr htype), if_pos hhead, ite_self]
    · rw [if_pos htype, if_pos hhead]
  · rw [if_neg (not_not.mpr htype), if_pos href]

/-- An array. -/
theorem traverseForOffset_array (h : findMemberByOffset members offset = some a) (hdims : a.fixedDims ≠ [])
    (href : a.type = .structured → ¬ a.isReference) : traverseForOffset offset members =
      (a.computeFixedIndices (offset - a.offset)).map fun indices =>
        { foundAttr := a
          offsetFromFoundAttr :=
            if a.type = .structured then displacement a.size a.dims indices else offset - a.offset
          arrayIndices := indices } := by
  have hhead : ¬ a.dims.headD 0 = 0 := mt Attributes.fixedDims_eq_nil.mpr hdims
  unfold traverseForOffset
  rw [h]
  dsimp only
  by_cases htype : a.type = .structured
  · rw [if_neg (not_not.mpr htype), if_neg (href htype), if_neg hhead]
    simp only [if_pos htype, Attributes.elementOffset_eq]
  · rw [if_pos htype, if_neg hhead]
    simp only [if_neg htype]

namespace Attributes

theorem elementSize_reference (h : a.isReference) : a.elementSize = a.referenceWidth := if_pos h

theorem elementSize_pointer (h : ¬ a.isReference) (hlt : a.fixedDims.length < a.numIndex) :
    a.elementSize = sizeofPointer := by
  unfold elementSize
  rw [if_neg h, if_pos hlt]

theorem elementSize_object (h : ¬ a.isReference) (hlt : ¬ a.fixedDims.length < a.numIndex) :
    a.elementSize = a.size := by
  unfold elementSize
  rw [if_neg h, if_neg hlt]

/-- The bytes of an object, or of an array of objects. -/
theorem memberByteSize_object (h : ¬ a.isReference) (hlt : ¬ a.fixedDims.length < a.numIndex) :
    a.memberByteSize = a.size * a.fixedDims.prod := by
  have hdims := fixedDims_eq_dims hlt
  unfold memberByteSize
  rw [if_neg h]
  split
  · rename_i hne
    rw [if_neg]
    rw [List.getLastD_eq_getLast?, List.getLast?_eq_some_getLast hne]
    exact ne_zero_of_mem_fixedDims (by rw [hdims]; exact List.getLast_mem hne)
  · rename_i hnil
    rw [hdims, not_not.mp hnil, List.prod_nil, Nat.mul_one]

/-- **What is left over** in the element whose number the offset has in units of its size. -/
theorem left_over {n unit : Nat} {indices sizes : List Nat} (hindices : Indices sizes indices) (hunit : unit ≠ 0)
    (hrow : rowMajor 0 sizes indices = n / unit) :
    n = displacement unit sizes indices + n % unit ∧ n % unit < unit := by
  rw [displacement_eq hindices, hrow]
  exact ⟨(Nat.div_add_mod' n unit).symm, Nat.mod_lt _ (Nat.pos_of_ne_zero hunit)⟩

/-- **The indices of a member that is countable** are right. -/
theorem Countable.indices {o : Nat} (h : a.Countable o) (hlt : o < a.memberByteSize) {indices : List Nat}
    (hcompute : a.computeFixedIndices o = some indices) (hplain : a.isReference → indices = []) :
    Indices a.ownDims indices ∧
      ∃ rem, o = displacement a.elementSize a.ownDims indices + rem ∧ rem < a.elementSize := by
  by_cases href : a.isReference
  · rw [hplain href]
    unfold ownDims
    rw [if_pos href, elementSize_reference href]
    unfold memberByteSize at hlt
    rw [if_pos href] at hlt
    exact ⟨.nil, o, (Nat.zero_add o).symm, hlt⟩
  · obtain ⟨indices', hcompute', hindices, hrow⟩ := computeFixedIndices_spec (h.sized href) o
    obtain rfl : indices = indices' := Option.some.inj (hcompute.symm.trans hcompute')
    unfold ownDims
    rw [if_neg href]
    refine ⟨hindices, ?_⟩
    by_cases hpointer : a.fixedDims.length < a.numIndex
    · -- pointers: the units are those of the size of what they lead to
      rw [elementSize_pointer href hpointer]
      exact ⟨o % sizeofPointer, left_over hindices (by decide) (hrow.trans (h.pointers href hpointer))⟩
    · rw [memberByteSize_object href hpointer] at hlt
      have hsize : a.size ≠ 0 := by
        intro hzero
        rw [hzero, Nat.zero_mul] at hlt
        exact Nat.not_lt_zero _ hlt
      rw [elementSize_object href hpointer]
      refine ⟨o % a.size, left_over hindices hsize ?_⟩
      rw [hrow, Nat.mod_eq_of_lt (Nat.div_lt_of_lt_mul hlt)]

end Attributes

/-- **What a level gives** for a member that is countable there. -/
theorem traverseForOffset_countable (h : findMemberByOffset members offset = some a)
    (hcount : a.Countable (offset - a.offset)) : ∃ r, traverseForOffset offset members = some r ∧
      r.foundAttr = some a ∧ Indices a.ownDims r.arrayIndices ∧
      (∃ rem, offset - a.offset = displacement a.elementSize a.ownDims r.arrayIndices + rem ∧ rem < a.elementSize) ∧
      r.offsetFromFoundAttr = (if a.type = .structured ∧ ¬ a.isReference ∧ a.fixedDims ≠ []
        then displacement a.size a.dims r.arrayIndices else offset - a.offset) := by
  obtain ⟨-, hle, hlt⟩ := findMemberByOffset_some h
  have ho : offset - a.offset < a.memberByteSize := by omega
  by_cases hplain : a.fixedDims = [] ∨ a.type = .structured ∧ a.isReference
  · obtain ⟨hindices, hrem⟩ : Indices a.ownDims [] ∧
        ∃ rem, offset - a.offset = displacement a.elementSize a.ownDims [] + rem ∧ rem < a.elementSize := by
      by_cases href : a.isReference
      · unfold Attributes.ownDims
        rw [if_pos href, Attributes.elementSize_reference href]
        refine ⟨.nil, offset - a.offset, (Nat.zero_add _).symm, ?_⟩
        unfold Attributes.memberByteSize at ho
        rw [if_pos href] at ho
        exact ho
      · have hdims := hplain.resolve_right fun hno => href hno.2
        refine hcount.indices ho ?_ fun hno => absurd hno href
        unfold Attributes.computeFixedIndices
        rw [if_pos hdims]
    refine ⟨_, traverseForOffset_plain h hplain, rfl, hindices, hrem, ?_⟩
    rw [if_neg]
    rintro ⟨htype, href, hdims⟩
    rcases hplain with hno | hno
    · exact hdims hno
    · exact href hno.2
  · obtain ⟨hdims, href⟩ := not_or.mp hplain
    have hnot : ¬ a.isReference := fun hr =>
      hdims (hcount.reference hr fun htype => href ⟨htype, hr⟩)
    obtain ⟨indices, hcompute, -, -⟩ := Attributes.computeFixedIndices_spec (hcount.sized hnot) (offset - a.offset)
    obtain ⟨hindices, hrem⟩ := hcount.indices ho hcompute fun hno => absurd hno hnot
    refine ⟨⟨some a, if a.type = .structured then displacement a.size a.dims indices else offset - a.offset, indices⟩,
      ?_, rfl, hindices, hrem, ?_⟩
    · rw [traverseForOffset_array h hdims fun _ => hnot, hcompute]
      rfl
    · dsimp only
      by_cases htype : a.type = .structured
      · rw [if_pos htype, if_pos ⟨htype, hnot, hdims⟩]
      · rw [if_neg htype, if_neg fun hno => htype hno.1]

/-- **What a level has to give** for a member to be countable there. -/
theorem countable_of_traverseForOffset (h : findMemberByOffset members offset = some a) {r : TraversalResult}
    (htraverse : traverseForOffset offset members = some r) (hindices : Indices a.ownDims r.arrayIndices) {rem : Nat}
    (hrem : offset - a.offset = displacement a.elementSize a.ownDims r.arrayIndices + rem)
    (hlt : rem < a.elementSize) (hobject : ¬ a.isStatic)
    (hstructured : ¬ a.isReference → a.fixedDims.length < a.numIndex → a.type = .structured → a.fixedDims = []) :
    a.Countable (offset - a.offset) := by
  have hsized : a.fixedDims ≠ [] → (a.type = .structured → ¬ a.isReference) → a.size ≠ 0 := by
    intro hdims href hzero
    rw [traverseForOffset_array h hdims href, Attributes.computeFixedIndices_zero hdims hzero] at htraverse
    cases htraverse
  have hcompute : a.fixedDims ≠ [] → (a.type = .structured → ¬ a.isReference) → Indices a.fixedDims r.arrayIndices ∧
      rowMajor 0 a.fixedDims r.arrayIndices = (offset - a.offset) / a.size % a.fixedDims.prod := by
    intro hdims href
    obtain ⟨indices, hcompute, hfixed, hrow⟩ :=
      Attributes.computeFixedIndices_spec (fun hd => hsized hd href) (offset - a.offset)
    rw [traverseForOffset_array h hdims href, hcompute] at htraverse
    rw [← Option.some.inj htraverse]
    exact ⟨hfixed, hrow⟩
  refine ⟨hobject, ?_, hstructured, fun href hdims => hsized hdims fun _ => href, ?_⟩
  · intro href htype
    by_contra hdims
    obtain ⟨hfixed, -⟩ := hcompute hdims fun hno => absurd hno htype
    -- a reference has no indices
    unfold Attributes.ownDims at hindices
    rw [if_pos href] at hindices
    have hlength := hfixed.length_eq.trans hindices.length_eq.symm
    exact hdims (List.length_eq_zero_iff.mp hlength)
  · intro href hpointer
    unfold Attributes.ownDims at hindices hrem
    rw [if_neg href] at hindices hrem
    rw [Attributes.elementSize_pointer href hpointer] at hrem hlt
    have hdiv : (offset - a.offset) / sizeofPointer = rowMajor 0 a.fixedDims r.arrayIndices := by
      rw [hrem, displacement_eq hindices, Nat.add_comm, Nat.add_mul_div_right _ _ (by decide), Nat.div_eq_of_lt hlt,
        Nat.zero_add]
    rw [hdiv]
    by_cases hdims : a.fixedDims = []
    · rw [hdims, List.prod_nil, Nat.mod_one]
      cases r.arrayIndices <;> rfl
    · exact (hcompute hdims fun _ => href).2.symm

end Level

/-! ## The whole way -/

section Way

variable {types : Types} {t offset : Nat} {a : Attributes}

/-- The dimensions of an embedded member are all fixed. -/
theorem Attributes.Embedded.fixed (h : a.Embedded) : a.fixedDims = a.dims ∧ ¬ a.fixedDims.length < a.numIndex := by
  have hdims := fixedDims_of_ne_zero h.2.2.2
  rw [hdims]
  exact ⟨rfl, Nat.lt_irrefl _⟩

/-- A level of the two functions, for a member that has been found. -/
theorem memberPath_succ {fuel : Nat} {r : TraversalResult}
    (htraverse : traverseForOffset offset (types.members t) = some r) (hfound : r.foundAttr = some a) :
    memberPath types (fuel + 1) (some t) offset =
      if a.type ≠ .structured ∨ a.isReference then some (.member ⟨a, r.arrayIndices⟩)
      else if a.dims = [] then
        (memberPath types fuel a.attr (offset - a.offset)).map (.inside ⟨a, r.arrayIndices⟩)
      else if a.dims.headD 0 = 0 then some (.member ⟨a, r.arrayIndices⟩)
      else
        (memberPath types fuel a.attr (offset - (a.offset + r.offsetFromFoundAttr))).map
          (.inside ⟨a, r.arrayIndices⟩) := by
  rw [memberPath, htraverse]
  dsimp only
  rw [hfound]

theorem getCompositeSubReference_succ {fuel : Nat} {r : TraversalResult}
    (htraverse : traverseForOffset offset (types.members t) = some r) (hfound : r.foundAttr = some a) (base : Nat) :
    getCompositeSubReference types (fuel + 1) (base + offset) base (some t) =
      if a.type ≠ .structured ∨ a.isReference then some (returnedAttributes a, r.offsetFromFoundAttr)
      else if a.dims = [] then getCompositeSubReference types fuel (base + offset) (base + a.offset) a.attr
      else if a.dims.headD 0 = 0 then some (a, r.offsetFromFoundAttr)
      else getCompositeSubReference types fuel (base + offset) (base + a.offset + r.offsetFromFoundAttr) a.attr := by
  rw [getCompositeSubReference, if_neg (Nat.not_lt.mpr (Nat.le_add_right base offset)), Nat.add_sub_cancel_left]
  dsimp only
  rw [htraverse]
  dsimp only
  rw [hfound]

/-- **A composite member is followed**: into an object, or into the element of an array. -/
theorem memberPath_embedded {fuel : Nat} (h : findMemberByOffset (types.members t) offset = some a) (ha : a.Embedded)
    {r : TraversalResult} (htraverse : traverseForOffset offset (types.members t) = some r)
    (hfound : r.foundAttr = some a)
    (hoffset : r.offsetFromFoundAttr = (if a.type = .structured ∧ ¬ a.isReference ∧ a.fixedDims ≠ []
      then displacement a.size a.dims r.arrayIndices else offset - a.offset)) {rem : Nat}
    (hrem : offset - a.offset = displacement a.elementSize a.ownDims r.arrayIndices + rem) :
    memberPath types (fuel + 1) (some t) offset =
        (memberPath types fuel a.attr rem).map (.inside ⟨a, r.arrayIndices⟩) ∧
      ∀ base, getCompositeSubReference types (fuel + 1) (base + offset) base (some t) =
        getCompositeSubReference types fuel (base + (Step.mk a r.arrayIndices).start + rem)
          (base + (Step.mk a r.arrayIndices).start) a.attr := by
  obtain ⟨htype, href, -⟩ := id ha
  obtain ⟨hdims, hlt⟩ := ha.fixed
  obtain ⟨-, hle, -⟩ := findMemberByOffset_some h
  have hplain : ¬ (a.type ≠ .structured ∨ a.isReference) := not_or.mpr ⟨not_not.mpr htype, href⟩
  have hown : a.ownDims = a.dims := by
    unfold Attributes.ownDims
    rw [if_neg href, hdims]
  rw [Attributes.elementSize_object href hlt, hown] at hrem
  have hstart : (Step.mk a r.arrayIndices).start = a.offset + displacement a.size a.dims r.arrayIndices := by
    unfold Step.start
    rw [Attributes.elementSize_object href hlt, hown]
  by_cases hnil : a.dims = []
  · -- an object: there is no displacement
    have hzero : displacement a.size a.dims r.arrayIndices = 0 := by
      rw [hnil]
      cases r.arrayIndices <;> rfl
    rw [hzero, Nat.zero_add] at hrem
    refine ⟨?_, ?_⟩
    · rw [memberPath_succ htraverse hfound, if_neg hplain, if_pos hnil, hrem]
    · intro base
      rw [getCompositeSubReference_succ htraverse hfound, if_neg hplain, if_pos hnil, hstart, hzero, Nat.add_zero]
      congr 1
      omega
  · have hne : a.fixedDims ≠ [] := by
      rw [hdims]
      exact hnil
    have hhead : ¬ a.dims.headD 0 = 0 := mt Attributes.fixedDims_eq_nil.mpr hne
    rw [if_pos ⟨htype, href, hne⟩] at hoffset
    refine ⟨?_, ?_⟩
    · rw [memberPath_succ htraverse hfound, if_neg hplain, if_neg hnil, if_neg hhead, hoffset]
      congr 2
      omega
    · intro base
      rw [getCompositeSubReference_succ htraverse hfound, if_neg hplain, if_neg hnil, if_neg hhead, hoffset, hstart,
        ← Nat.add_assoc base]
      congr 1
      omega

/-- **Any other member is the last**: not composite, a reference, or a pointer. -/
theorem memberPath_last {fuel : Nat} (hlast : (a.type ≠ .structured ∨ a.isReference) ∨ a.dims ≠ [] ∧ a.fixedDims = [])
    {r : TraversalResult} (htraverse : traverseForOffset offset (types.members t) = some r)
    (hfound : r.foundAttr = some a) :
    memberPath types (fuel + 1) (some t) offset = some (.member ⟨a, r.arrayIndices⟩) ∧
      ∀ base, ∃ out, out.type = a.type ∧ out.name = a.name ∧
        getCompositeSubReference types (fuel + 1) (base + offset) base (some t) =
          some (out, r.offsetFromFoundAttr) := by
  have hreturned : (returnedAttributes a).type = a.type ∧ (returnedAttributes a).name = a.name := by
    unfold returnedAttributes
    split
    · split <;> exact ⟨rfl, rfl⟩
    · split <;> exact ⟨rfl, rfl⟩
  by_cases hplain : a.type ≠ .structured ∨ a.isReference
  · refine ⟨?_, ?_⟩
    · rw [memberPath_succ htraverse hfound, if_pos hplain]
    · intro base
      refine ⟨returnedAttributes a, hreturned.1, hreturned.2, ?_⟩
      rw [getCompositeSubReference_succ htraverse hfound, if_pos hplain]
  · obtain ⟨hnil, hdims⟩ := hlast.resolve_left hplain
    have hhead := Attributes.fixedDims_eq_nil.mp hdims
    refine ⟨?_, ?_⟩
    · rw [memberPath_succ htraverse hfound, if_neg hplain, if_neg hnil, if_pos hhead]
    · intro base
      refine ⟨a, rfl, rfl, ?_⟩
      rw [getCompositeSubReference_succ htraverse hfound, if_neg hplain, if_neg hnil, if_pos hhead]

/-- A member is followed if it is composite, and not a reference or a pointer. -/
theorem embedded_or_last (hcount : a.Countable offset) : a.Embedded ∨
    (a.type ≠ .structured ∨ a.isReference) ∨ a.dims ≠ [] ∧ a.fixedDims = [] := by
  by_cases hplain : a.type ≠ .structured ∨ a.isReference
  · exact .inr (.inl hplain)
  · obtain ⟨htype, href⟩ := not_or.mp hplain
    by_cases hpointer : a.fixedDims.length < a.numIndex
    · refine .inr (.inr ⟨?_, hcount.structured href hpointer (not_not.mp htype)⟩)
      intro hnil
      unfold Attributes.numIndex at hpointer
      rw [hnil] at hpointer
      exact Nat.not_lt_zero _ hpointer
    · refine .inl ⟨not_not.mp htype, href, hcount.object, ?_⟩
      intro d hd
      rw [← Attributes.fixedDims_eq_dims hpointer] at hd
      exact Attributes.ne_zero_of_mem_fixedDims hd

/-- What is left over in an embedded member is the remainder by its size. -/
theorem rem_embedded (ha : a.Embedded) {indices : List Nat} (hindices : Indices a.ownDims indices) {n rem : Nat}
    (hrem : n = displacement a.elementSize a.ownDims indices + rem) (hlt : rem < a.elementSize) :
    rem = n % a.size ∧ rem < a.size := by
  rw [Attributes.elementSize_object ha.2.1 ha.fixed.2] at hrem hlt
  rw [hrem, displacement_eq hindices, Nat.add_comm, Nat.add_mul_mod_self_right, Nat.mod_eq_of_lt hlt]
  exact ⟨rfl, hlt⟩

/-- **The path is right** if every member that is met is countable. -/
theorem memberPath_of_countable {fuel outer : Nat} (hfuel : types.depth t < fuel) (houter : offset < outer)
    (hcount : ∀ a o, Meets types t offset a o → a.Countable o) :
    ∃ path rem, memberPath types fuel (some t) offset = some path ∧ path.Valid types t ∧ offset = path.start + rem ∧
      rem < path.reachedSize outer ∧ ∀ base, ∃ out remaining,
        getCompositeSubReference types fuel (base + offset) base (some t) = some (out, remaining) ∧
        path.Describes out ∧ offset = path.attributesStart + remaining := by
  induction fuel generalizing t offset outer with
  | zero => exact absurd hfuel (Nat.not_lt_zero _)
  | succ fuel ih =>
    cases hfind : findMemberByOffset (types.members t) offset with
    | none =>
      refine ⟨.anonymous, offset, ?_, trivial, (Nat.zero_add _).symm, houter, ?_⟩
      · rw [memberPath, traverseForOffset_none hfind]
      · intro base
        refine ⟨anonymousAttributes offset, offset, ?_, ⟨rfl, rfl⟩, (Nat.zero_add _).symm⟩
        rw [getCompositeSubReference, if_neg (Nat.not_lt.mpr (Nat.le_add_right base offset)), Nat.add_sub_cancel_left]
        dsimp only
        rw [traverseForOffset_none hfind]
    | some a =>
      obtain ⟨hmem, hle, -⟩ := findMemberByOffset_some hfind
      have ha := hcount a _ (.here hfind)
      obtain ⟨r, htraverse, hfound, hindices, ⟨rem, hrem, hlt⟩, hoffset⟩ := traverseForOffset_countable hfind ha
      have hvalid : (Step.mk a r.arrayIndices).Valid types t := ⟨hmem, ha.object, hindices⟩
      have hstart : offset = (Step.mk a r.arrayIndices).start + rem := by
        show offset = a.offset + displacement a.elementSize a.ownDims r.arrayIndices + rem
        omega
      rcases embedded_or_last ha with hembedded | hlast
      · -- the offset that is left over is met in the type of the member
        obtain ⟨t', hattr, hdepth⟩ := types.embedded t a hmem hembedded
        obtain ⟨hmod, hsize⟩ := rem_embedded hembedded hindices hrem hlt
        have hnext := @ih t' rem a.size (by omega) hsize ?_
        · obtain ⟨path, rem', hpath, hvalid', hstart', hlt', hcomposite⟩ := hnext
          obtain ⟨hmember, hreference⟩ :=
            @memberPath_embedded types t offset a fuel hfind hembedded r htraverse hfound hoffset rem hrem
          refine ⟨.inside ⟨a, r.arrayIndices⟩ path, rem', ?_, ⟨hvalid, hembedded, t', hattr, hvalid'⟩, ?_, hlt', ?_⟩
          · rw [hmember, hattr, hpath]
            rfl
          · show offset = (Step.mk a r.arrayIndices).start + path.start + rem'
            omega
          · intro base
            obtain ⟨out, remaining, hout, hdescribes, hattributes⟩ := hcomposite (base + (Step.mk a r.arrayIndices).start)
            refine ⟨out, remaining, ?_, hdescribes, ?_⟩
            · rw [hreference base, hattr]
              exact hout
            · show offset = (Step.mk a r.arrayIndices).start + path.attributesStart + remaining
              omega
        · intro a' o' hmeets
          rw [hmod] at hmeets
          exact hcount a' o' (.inside hfind hembedded hattr hmeets)
      · obtain ⟨hmember, hreference⟩ := @memberPath_last types t offset a fuel hlast r htraverse hfound
        have hwhole : r.offsetFromFoundAttr = offset - a.offset := by
          rw [hoffset, if_neg]
          rintro ⟨htype, href, hdims⟩
          rcases hlast with (hno | hno) | hno
          · exact hno htype
          · exact href hno
          · exact hdims hno.2
        refine ⟨.member ⟨a, r.arrayIndices⟩, rem, hmember, hvalid, hstart, hlt, ?_⟩
        intro base
        obtain ⟨out, htype, hname, hout⟩ := hreference base
        refine ⟨out, r.offsetFromFoundAttr, hout, ⟨htype, hname⟩, ?_⟩
        show offset = a.offset + r.offsetFromFoundAttr
        omega

/-- What is found is what is returned. -/
theorem foundAttr_of_traverseForOffset {members : List Attributes} (h : findMemberByOffset members offset = some a)
    {r : TraversalResult} (htraverse : traverseForOffset offset members = some r) : r.foundAttr = some a := by
  by_cases hplain : a.fixedDims = [] ∨ a.type = .structured ∧ a.isReference
  · rw [traverseForOffset_plain h hplain] at htraverse
    rw [← Option.some.inj htraverse]
  · obtain ⟨hdims, href⟩ := not_or.mp hplain
    rw [traverseForOffset_array h hdims fun htype hr => href ⟨htype, hr⟩] at htraverse
    obtain ⟨indices, -, heq⟩ := Option.map_eq_some_iff.mp htraverse
    rw [← heq]

/-- A composite member is countable. -/
theorem countable_of_embedded (h : findMemberByOffset (types.members t) offset = some a) (ha : a.Embedded) :
    a.Countable (offset - a.offset) := by
  obtain ⟨-, href, hobject, -⟩ := id ha
  obtain ⟨-, hle, hlt⟩ := findMemberByOffset_some h
  refine ⟨hobject, fun hno => absurd hno href, fun _ hno => absurd hno ha.fixed.2, ?_, fun _ hno => absurd hno ha.fixed.2⟩
  intro _ _ hzero
  rw [Attributes.memberByteSize_object href ha.fixed.2, hzero, Nat.zero_mul] at hlt
  omega

/-- **Every member that is met is countable** if the path is right. -/
theorem countable_of_memberPath {o fuel outer rem : Nat} (hmeets : Meets types t offset a o) {path : MemberPath}
    (hpath : memberPath types fuel (some t) offset = some path) (hvalid : path.Valid types t)
    (hstart : offset = path.start + rem) (hlt : rem < path.reachedSize outer) : a.Countable o := by
  induction hmeets generalizing fuel outer rem path with
  | @here t offset a hfind =>
    cases fuel with
    | zero => cases hpath
    | succ fuel =>
      cases htraverse : traverseForOffset offset (types.members t) with
      | none =>
        rw [memberPath, htraverse] at hpath
        cases hpath
      | some r =>
        obtain ⟨-, hle, -⟩ := findMemberByOffset_some hfind
        rw [memberPath_succ htraverse (foundAttr_of_traverseForOffset hfind htraverse)] at hpath
        -- the last member gives the indices, and a member that is followed has to be composite
        have hlast : path = .member ⟨a, r.arrayIndices⟩ →
            (a.type ≠ .structured ∨ a.isReference) ∨ a.fixedDims = [] → a.Countable (offset - a.offset) := by
          rintro rfl hplain
          have hsum : offset = a.offset + displacement a.elementSize a.ownDims r.arrayIndices + rem := hstart
          have hrem : offset - a.offset = displacement a.elementSize a.ownDims r.arrayIndices + rem := by omega
          refine countable_of_traverseForOffset hfind htraverse hvalid.2.2 hrem hlt hvalid.2.1 ?_
          intro href _ htype
          refine hplain.resolve_left ?_
          rintro (hno | hno)
          · exact hno htype
          · exact href hno
        have hinside : (∃ rest, path = .inside ⟨a, r.arrayIndices⟩ rest) → a.Countable (offset - a.offset) := by
          rintro ⟨rest, rfl⟩
          exact countable_of_embedded hfind hvalid.2.1
        split_ifs at hpath with hplain hnil hhead
        · exact hlast (Option.some.inj hpath).symm (.inl hplain)
        · obtain ⟨rest, -, heq⟩ := Option.map_eq_some_iff.mp hpath
          exact hinside ⟨rest, heq.symm⟩
        · exact hlast (Option.some.inj hpath).symm (.inr (Attributes.fixedDims_eq_nil.mpr hhead))
        · obtain ⟨rest, -, heq⟩ := Option.map_eq_some_iff.mp hpath
          exact hinside ⟨rest, heq.symm⟩
  | @inside t t' offset a a' o' hfind hembedded hattr _ ih =>
    cases fuel with
    | zero => cases hpath
    | succ fuel =>
      have ha := countable_of_embedded hfind hembedded
      obtain ⟨-, hle, -⟩ := findMemberByOffset_some hfind
      obtain ⟨r, htraverse, hfound, hindices, ⟨left, hleft, hsmall⟩, hoffset⟩ := traverseForOffset_countable hfind ha
      obtain ⟨hmod, -⟩ := rem_embedded hembedded hindices hleft hsmall
      obtain ⟨hmember, -⟩ :=
        @memberPath_embedded types t offset a fuel hfind hembedded r htraverse hfound hoffset left hleft
      rw [hmember, hattr] at hpath
      obtain ⟨rest, hrest, rfl⟩ := Option.map_eq_some_iff.mp hpath
      obtain ⟨-, -, t'', hattr', hvalid'⟩ := hvalid
      obtain rfl : t' = t'' := Option.some.inj (hattr.symm.trans hattr')
      rw [hmod] at hrest
      have hsum : offset = a.offset + displacement a.elementSize a.ownDims r.arrayIndices + rest.start + rem := hstart
      have hnext : (offset - a.offset) % a.size = rest.start + rem := by omega
      have hlt' : rem < rest.reachedSize a.size := hlt
      exact ih hrest hvalid' hnext hlt'

end Way

/-! ## Result -/

/-- **An offset in a type is decomposed if and only if** the indices of every member that is met come out right. -/
theorem decomposes_iff (types : Types) (t : Nat) {size offset : Nat} (h : offset < size) :
    Decomposes types t size offset ↔ ∀ a o, Meets types t offset a o → a.Countable o := by
  constructor
  · rintro ⟨fuel, path, rem, hpath, hvalid, hstart, hlt, -⟩ a o hmeets
    exact countable_of_memberPath hmeets hpath hvalid hstart hlt
  · intro hcount
    obtain ⟨path, rem, hpath, hvalid, hstart, hlt, hcomposite⟩ :=
      memberPath_of_countable (Nat.lt_succ_self (types.depth t)) h hcount
    refine ⟨types.depth t + 1, path, rem, hpath, hvalid, hstart, hlt, ?_⟩
    intro info hinfo i
    obtain ⟨out, remaining, hout, hdescribes, hattributes⟩ := hcomposite (info.start + i * size)
    refine ⟨out, remaining, ?_, hdescribes, by omega⟩
    have hindex : (info.start + i * size + offset - info.start) / info.size * info.size = i * size := by
      rw [hinfo.size, Nat.add_assoc, Nat.add_sub_cancel_left, Nat.add_comm,
        Nat.add_mul_div_right _ _ (by omega), Nat.div_eq_of_lt h, Nat.zero_add]
    unfold getAttributesForAddress
    rw [if_neg (by have := hinfo.start; omega)]
    dsimp only
    rw [if_pos hinfo.structured, hindex, hinfo.attr]
    exact hout

/-- `struct Outer { int a; Inner items[4]; }` and `struct Inner { double q; int r; }`. -/
def outerInner : Types where
  members
    | 0 => [{ name := "a", type := .integer, size := 4 },
      { name := "items", type := .structured, size := 16, offset := 8, attr := some 1, dims := [4] }]
    | 1 => [{ name := "q", type := .double, size := 8 }, { name := "r", type := .integer, size := 4, offset := 8 }]
    | _ => []
  depth t := if t = 0 then 1 else 0
  embedded := by
    intro t a ha hembedded
    split at ha
    · rcases List.mem_pair.mp ha with rfl | rfl
      · exact absurd hembedded.1 (by decide)
      · exact ⟨1, rfl, by decide⟩
    · rcases List.mem_pair.mp ha with rfl | rfl <;> exact absurd hembedded.1 (by decide)
    · exact absurd ha List.not_mem_nil

/-- The offset 44 is in the member `q` of the element `items[2]`. -/
theorem decomposes_outerInner : Decomposes outerInner 0 72 44 := by
  refine (decomposes_iff outerInner 0 (by decide)).mpr ?_
  have hcount : ∀ a : Attributes, ∀ o, ¬ a.isStatic → ¬ a.isReference → ¬ a.fixedDims.length < a.numIndex → a.size ≠ 0 →
      a.Countable o := fun a o hobject href hlt hsize =>
    ⟨hobject, fun hno => absurd hno href, fun _ hno => absurd hno hlt, fun _ _ => hsize, fun _ hno => absurd hno hlt⟩
  intro a o hmeets
  cases hmeets with
  | here hfind =>
    obtain rfl := Option.some.inj hfind
    exact hcount _ _ (by decide) (by decide) (by decide) (by decide)
  | inside hfind _ hattr hnext =>
    obtain rfl := Option.some.inj hfind
    obtain rfl := Option.some.inj hattr
    cases hnext with
    | here hfind =>
      obtain rfl := Option.some.inj hfind
      exact hcount _ _ (by decide) (by decide) (by decide) (by decide)
    | inside hfind hembedded =>
      obtain rfl := Option.some.inj hfind
      exact absurd hembedded.1 (by decide)

/-- `struct Strings { char *s[3]; }` and `struct Node { Node *child[2]; }`. -/
def pointerArrays : Types where
  members
    | 0 => [{ name := "s", type := .character, size := 1, dims := [3, 0] }]
    | 1 => [{ name := "child", type := .structured, size := 16, attr := some 1, dims := [2, 0] }]
    | _ => []
  depth _ := 0
  embedded := by
    intro t a ha hembedded
    split at ha
    · rw [List.mem_singleton.mp ha] at hembedded
      exact absurd hembedded (by decide)
    · rw [List.mem_singleton.mp ha] at hembedded
      exact absurd hembedded (by decide)
    · exact absurd ha List.not_mem_nil

/-- The pointer at the offset 16 is `s[2]`, and what comes out is `s[1]`; an array of pointers to objects is taken for
    an array of objects. -/
theorem not_decomposes_pointerArrays :
    ¬ Decomposes pointerArrays 0 24 16 ∧ ¬ Decomposes pointerArrays 1 16 0 := by
  refine ⟨?_, ?_⟩
  · rintro ⟨fuel, path, rem, hpath, hvalid, hstart, hlt, -⟩
    have hcount := countable_of_memberPath (.here rfl) hpath hvalid hstart hlt
    exact absurd (hcount.pointers (by decide) (by decide)) (by decide)
  · rintro ⟨fuel, path, rem, hpath, hvalid, hstart, hlt, -⟩
    have hcount := countable_of_memberPath (.here rfl) hpath hvalid hstart hlt
    exact absurd (hcount.structured (by decide) (by decide) (by decide)) (by decide)

end Trick.Memory
