/-
  `resize_array`: an allocation with other dimensions.

  Data:           the maps of the memory manager, the bytes of the memory, and what gives out memory.
  Program:        `recursiveArrayCopy` copies element by element; `resizeArray` has the checks, the allocation, the
                  copy and the changes of the record, with the products of an `int`.
  Specification:  `Resized`: the elements in both extents keep their bytes, the others are as the new memory was
                  given out, and record and map describe the new array.
  Result:         `resizeArray_resizes`: so it is whenever memory is given out for an array whose bytes can be
                  counted; and a failure changes nothing.
-/
import Trick.Lib.ArrayCopy
import Trick.MemoryManager.AllocInfoMap

namespace Trick.Memory

open Trick.Lib (copyBytes copyElements commonPlaces rowMajor rowMajor_lt Indices copyElements_common)

/-! ## The program -/

/-- The memory manager, and the bytes of the memory. -/
structure MemoryState where
  mm : MemoryManager
  memory : Nat → UInt8

/-- **What gives out memory**: `calloc`, and the function that the ICG writes for a class, which constructs the
    objects. -/
structure Allocator where
  calloc : Nat → Nat → Option Nat
  allocateClass : Option Nat → Int → Option Nat
  constructed : Option Nat → Nat → UInt8

/-- The product of two numbers in an `int`. -/
def intMul (x y : Int) : Int := (x * y).bmod (2 ^ 32)

/-- `recursive_array_copy` -/
def recursiveArrayCopy (sBase dBase size : Nat) : List Int → List Int → Nat → Nat → (Nat → UInt8) → Nat → UInt8
  | s :: sCdims, d :: dCdims, sOff, dOff, m =>
    (List.range (min s d).toNat).foldl (fun m ii =>
      recursiveArrayCopy sBase dBase size sCdims dCdims (sOff * s.toNat + ii) (dOff * d.toNat + ii) m) m
  | _, _, sOff, dOff, m => copyBytes m (dBase + dOff * size) (sBase + sOff * size) size

/-- `array_copy` -/
def arrayCopy (sBase dBase : Nat) (sCdims dCdims : List Int) (size : Nat) (m : Nat → UInt8) : Nat → UInt8 :=
  recursiveArrayCopy sBase dBase size sCdims dCdims 0 0 m

/-- `pre_n_cdims` -/
def preNCdims (info : AllocInfo) : Nat := (info.index.filter (· ≠ 0)).length

/-- The elements are objects of a C++ class. -/
def ofClass (info : AllocInfo) (nCdims : Nat) : Prop :=
  info.type = .structured ∧ info.language = .cpp ∧ info.index.length = nCdims

instance (info : AllocInfo) (nCdims : Nat) : Decidable (ofClass info nCdims) := inferInstanceAs (Decidable (_ ∧ _))

/-- The bytes of the new memory, by their places in it. -/
def givenOut (alloc : Allocator) (info : AllocInfo) (nCdims : Nat) (x : Nat) : UInt8 :=
  if ofClass info nCdims then alloc.constructed info.attr x else 0

/-- The new memory; a number of elements that is negative is a very large `size_t`. -/
def allocate (alloc : Allocator) (info : AllocInfo) (nCdims : Nat) (newNElems : Int) : Option Nat :=
  if ofClass info nCdims then alloc.allocateClass info.attr newNElems
  else alloc.calloc (newNElems % 2 ^ 64).toNat info.size

/-- **`resize_array`**: the address that is returned, or no result, and the state after it. -/
def resizeArray (alloc : Allocator) (st : MemoryState) (address : Nat) (cdims : List Int) : Option Nat × MemoryState :=
  match getAllocInfoAt st.mm address with
  -- "Address passed to resize_array is NULL."
  | none => (none, st)
  | some pos =>
    let info := st.mm.allocInfo pos
    if info.stcl ≠ .trickLocal then (none, st)
    -- "resize_array doesn't support STL strings."
    else if info.type = .string then (none, st)
    else if cdims.length ≠ preNCdims info then (none, st)
    else
      let newNElems := cdims.foldl intMul 1
      -- "One or more of the constrained dimensions is zero."
      if newNElems = 0 then (none, st)
      else
        match allocate alloc info cdims.length newNElems with
        | none => (none, st)
        | some newAddress =>
          let memory := fun x =>
            if newAddress ≤ x ∧ x < newAddress + newNElems.toNat * info.size then
              givenOut alloc info cdims.length (x - newAddress)
            else st.memory x
          let memory := arrayCopy info.start newAddress (info.index.take cdims.length) cdims info.size memory
          let info := { info with
            start := newAddress
            lastByte := newAddress + intMul newNElems info.size - 1
            index := cdims ++ info.index.drop cdims.length
            num := newNElems }
          (some newAddress,
            { mm := { st.mm with
                allocInfoMap := Function.update (Function.update st.mm.allocInfoMap address none) newAddress (some pos)
                allocInfo := Function.update st.mm.allocInfo pos info }
              memory })

/-! ## What is wanted -/

/-- **A managed allocation**, with the dimensions `dims` of elements with `stars` stars. -/
structure Managed (st : MemoryState) (address pos : Nat) (dims : List Nat) (stars : Nat) : Prop where
  found : st.mm.allocInfoMap address = some pos
  index : (st.mm.allocInfo pos).index = dims.map (fun d : Nat => (d : Int)) ++ List.replicate stars 0
  positive : ∀ d ∈ dims, d ≠ 0
  size : 0 < (st.mm.allocInfo pos).size

/-- **Memory that is given out** is used by nothing else: no allocation starts there, and it does not overlap the one
    that there was. -/
structure Fresh (alloc : Allocator) (st : MemoryState) (pos : Nat) (dims : List Nat) : Prop where
  unmapped : ∀ nCdims n a, allocate alloc (st.mm.allocInfo pos) nCdims n = some a → st.mm.allocInfoMap a = none
  disjoint : ∀ nCdims (n : Nat) a, allocate alloc (st.mm.allocInfo pos) nCdims n = some a →
    a + n * (st.mm.allocInfo pos).size ≤ (st.mm.allocInfo pos).start ∨
      (st.mm.allocInfo pos).start + dims.prod * (st.mm.allocInfo pos).size ≤ a

/-- **The allocation has the new dimensions**; an element that is not in both extents is as in `fresh`. -/
structure Resized (st st' : MemoryState) (address pos : Nat) (dims newDims : List Nat) (stars newAddress : Nat)
    (fresh : Nat → UInt8) : Prop where
  kept : ∀ g, Indices dims g → Indices newDims g → ∀ b < (st.mm.allocInfo pos).size,
    st'.memory (newAddress + rowMajor 0 newDims g * (st.mm.allocInfo pos).size + b) =
      st.memory ((st.mm.allocInfo pos).start + rowMajor 0 dims g * (st.mm.allocInfo pos).size + b)
  fresh : ∀ g, ¬ Indices dims g → Indices newDims g → ∀ b < (st.mm.allocInfo pos).size,
    st'.memory (newAddress + rowMajor 0 newDims g * (st.mm.allocInfo pos).size + b) =
      fresh (rowMajor 0 newDims g * (st.mm.allocInfo pos).size + b)
  record : st'.mm.allocInfo pos = { st.mm.allocInfo pos with
    start := newAddress
    lastByte := newAddress + newDims.prod * (st.mm.allocInfo pos).size - 1
    index := newDims.map (fun d : Nat => (d : Int)) ++ List.replicate stars 0
    num := newDims.prod }
  others : ∀ q, q ≠ pos → st'.mm.allocInfo q = st.mm.allocInfo q
  atNew : st'.mm.allocInfoMap newAddress = some pos
  atOld : st'.mm.allocInfoMap address = none
  elsewhere : ∀ a, a ≠ address → a ≠ newAddress → st'.mm.allocInfoMap a = st.mm.allocInfoMap a
  names : st'.mm.variableMap = st.mm.variableMap

/-- **What a resizing is to do**: a failure changes nothing, and a success gives the allocation the new dimensions,
    with zeros in the elements that were not there. -/
def Resizes (alloc : Allocator) (st : MemoryState) (address pos : Nat) (dims : List Nat) (stars : Nat)
    (cdims : List Nat) (fresh : Nat → UInt8) : Prop :=
  match resizeArray alloc st address (cdims.map fun d : Nat => (d : Int)) with
  | (none, st') => st' = st
  | (some newAddress, st') => Resized st st' address pos dims cdims stars newAddress fresh

/-! ## The copy -/

/-- **The recursion** copies the elements in common. -/
theorem recursiveArrayCopy_eq (sBase dBase size : Nat) (ss ds : List Nat) (i j : Nat) (m : Nat → UInt8) :
    recursiveArrayCopy sBase dBase size (ss.map fun d : Nat => (d : Int)) (ds.map fun d : Nat => (d : Int)) i j m =
      copyElements sBase dBase size (commonPlaces ss ds i j) m := by
  induction ss generalizing ds i j m with
  | nil => rfl
  | cons s ss ih =>
    cases ds with
    | nil => rfl
    | cons d ds =>
      have hmin : (min (s : Int) (d : Int)).toNat = min s d := by omega
      rw [List.map_cons, List.map_cons, recursiveArrayCopy, hmin]
      simp only [ih, Int.toNat_natCast]
      unfold copyElements
      rw [commonPlaces, List.foldl_flatMap]

/-! ## The number of elements -/

theorem intMul_eq {x y : Int} (hx : 0 ≤ x * y) (h : x * y < 2 ^ 31) : intMul x y = x * y := by
  unfold intMul
  rw [Int.bmod_eq_of_le (by omega) (by omega)]

/-- With a zero, the number is zero. -/
theorem foldl_intMul_zero {l : List Int} {x : Int} (h : x = 0 ∨ 0 ∈ l) : l.foldl intMul x = 0 := by
  have hzero : ∀ {x y : Int}, x * y = 0 → intMul x y = 0 := by
    intro x y hxy
    unfold intMul
    rw [hxy]
    rfl
  induction l generalizing x with
  | nil =>
    rcases h with hx | hmem
    · exact hx
    · exact absurd hmem List.not_mem_nil
  | cons d l ih =>
    refine ih ?_
    rcases h with hx | hmem
    · exact .inl (hzero (by rw [hx, Int.zero_mul]))
    · rcases List.mem_cons.mp hmem with hd | hl
      · exact .inl (hzero (by rw [← hd, Int.mul_zero]))
      · exact .inr hl

/-- **The number of elements** is the product, if that can be counted. -/
theorem foldl_intMul {l : List Nat} (hpos : ∀ d ∈ l, d ≠ 0) {n : Nat} (h : n * l.prod < 2 ^ 31) :
    (l.map fun d : Nat => (d : Int)).foldl intMul n = ((n * l.prod : Nat) : Int) := by
  induction l generalizing n with
  | nil =>
    rw [List.prod_nil, Nat.mul_one]
    rfl
  | cons d l ih =>
    obtain ⟨-, hl⟩ := List.forall_mem_cons.mp hpos
    have hprod : l.prod ≠ 0 := List.prod_ne_zero fun hzero => hl 0 hzero rfl
    rw [List.prod_cons, ← Nat.mul_assoc] at h ⊢
    have hle : n * d ≤ n * d * l.prod := Nat.le_mul_of_pos_right _ (Nat.pos_of_ne_zero hprod)
    have hmul : intMul n d = ((n * d : Nat) : Int) := by
      rw [intMul_eq (by positivity) (by exact_mod_cast lt_of_le_of_lt hle h), Nat.cast_mul]
    rw [List.map_cons, List.foldl_cons, hmul]
    exact ih hl h

/-! ## Result -/

section Main

variable {alloc : Allocator} {st : MemoryState} {address pos : Nat} {dims newDims : List Nat} {stars : Nat}

/-- **A failure changes nothing**, whatever the dimensions. -/
theorem resizeArray_failed (alloc : Allocator) (st : MemoryState) (address : Nat) (cdims : List Int)
    (h : (resizeArray alloc st address cdims).1 = none) : (resizeArray alloc st address cdims).2 = st := by
  unfold resizeArray at h ⊢
  cases hfound : getAllocInfoAt st.mm address with
  | none => rfl
  | some pos =>
    rw [hfound] at h
    dsimp only at h ⊢
    split_ifs at h ⊢
    · rfl
    · rfl
    · rfl
    · rfl
    · cases hnew : allocate alloc (st.mm.allocInfo pos) cdims.length (cdims.foldl intMul 1) with
      | none => rfl
      | some newAddress =>
        rw [hnew] at h
        cases h

/-- The number of the dimensions that are not zero. -/
theorem Managed.preNCdims (h : Managed st address pos dims stars) : preNCdims (st.mm.allocInfo pos) = dims.length := by
  unfold Memory.preNCdims
  rw [h.index, List.filter_append, List.length_append]
  have hall : (dims.map fun d : Nat => (d : Int)).filter (· ≠ 0) = dims.map fun d : Nat => (d : Int) := by
    rw [List.filter_eq_self]
    intro d hd
    obtain ⟨n, hn, rfl⟩ := List.mem_map.mp hd
    exact decide_eq_true (Int.natCast_ne_zero.mpr (h.positive n hn))
  have hnone : (List.replicate stars (0 : Int)).filter (· ≠ 0) = [] := by
    rw [List.filter_eq_nil_iff]
    intro d hd
    rw [List.eq_of_mem_replicate hd]
    decide
  rw [hall, hnone, List.length_map]
  rfl

/-- **The memory after the copy.** -/
theorem memory_copied (hmanaged : Managed st address pos dims stars) (hlength : dims.length = newDims.length)
    {newAddress : Nat} {fresh : Nat → UInt8}
    (hdisjoint : newAddress + newDims.prod * (st.mm.allocInfo pos).size ≤ (st.mm.allocInfo pos).start ∨
      (st.mm.allocInfo pos).start + dims.prod * (st.mm.allocInfo pos).size ≤ newAddress) {g : List Nat}
    (hg : Indices newDims g) {b : Nat} (hb : b < (st.mm.allocInfo pos).size) {m : Nat → UInt8}
    (hm : m = arrayCopy (st.mm.allocInfo pos).start newAddress ((st.mm.allocInfo pos).index.take newDims.length)
      (newDims.map fun d : Nat => (d : Int)) (st.mm.allocInfo pos).size
      fun x => if newAddress ≤ x ∧ x < newAddress + newDims.prod * (st.mm.allocInfo pos).size
        then fresh (x - newAddress) else st.memory x) :
    (Indices dims g → m (newAddress + rowMajor 0 newDims g * (st.mm.allocInfo pos).size + b) =
        st.memory ((st.mm.allocInfo pos).start + rowMajor 0 dims g * (st.mm.allocInfo pos).size + b)) ∧
      (¬ Indices dims g → m (newAddress + rowMajor 0 newDims g * (st.mm.allocInfo pos).size + b) =
        fresh (rowMajor 0 newDims g * (st.mm.allocInfo pos).size + b)) := by
  have hold : (st.mm.allocInfo pos).index.take newDims.length = dims.map fun d : Nat => (d : Int) := by
    rw [hmanaged.index]
    exact List.take_left' (by rw [List.length_map, hlength])
  rw [hold] at hm
  unfold arrayCopy at hm
  rw [recursiveArrayCopy_eq] at hm
  rw [hm]
  have hcommon := @copyElements_common
    (fun x => if newAddress ≤ x ∧ x < newAddress + newDims.prod * (st.mm.allocInfo pos).size
      then fresh (x - newAddress) else st.memory x) _ _ _ _ _ hlength hdisjoint g hg b hb
  have hin : ∀ {sizes : List Nat}, Indices sizes g →
      rowMajor 0 sizes g * (st.mm.allocInfo pos).size + b < sizes.prod * (st.mm.allocInfo pos).size := by
    intro sizes h
    have hlt := rowMajor_lt h Nat.zero_lt_one
    have hmul := Nat.mul_le_mul_right (st.mm.allocInfo pos).size hlt
    rw [Nat.succ_mul, Nat.one_mul] at hmul
    omega
  refine ⟨?_, ?_⟩
  · intro hg'
    rw [hcommon.1 hg', if_neg]
    -- the old array is not in the new memory
    have hsrc := hin hg'
    omega
  · intro hg'
    have hdest := hin hg
    rw [hcommon.2 hg', if_pos (by omega)]
    congr 1
    omega

/-- A resizing does what it is to do, if the bytes of the new array can be counted. -/
theorem resizes_of_count (hmanaged : Managed st address pos dims stars) (hfresh : Fresh alloc st pos dims)
    (hcount : newDims.prod * (st.mm.allocInfo pos).size < 2 ^ 31) :
    Resizes alloc st address pos dims stars newDims (givenOut alloc (st.mm.allocInfo pos) newDims.length) := by
  have hfound : getAllocInfoAt st.mm address = some pos := hmanaged.found
  have hmapped : (newDims.map fun d : Nat => (d : Int)).length = newDims.length := List.length_map _
  unfold Resizes resizeArray
  rw [hfound]
  dsimp only
  rw [hmapped]
  by_cases hlocal : (st.mm.allocInfo pos).stcl ≠ .trickLocal
  · rw [if_pos hlocal]
  rw [if_neg hlocal]
  by_cases hstring : (st.mm.allocInfo pos).type = .string
  · rw [if_pos hstring]
  rw [if_neg hstring]
  by_cases hnumber : newDims.length ≠ preNCdims (st.mm.allocInfo pos)
  · rw [if_pos hnumber]
  rw [if_neg hnumber]
  have hlength : dims.length = newDims.length := by
    rw [← hmanaged.preNCdims, ← not_not.mp hnumber]
  by_cases hzero : 0 ∈ newDims
  · -- a dimension of zero is refused
    have hnone : (newDims.map fun d : Nat => (d : Int)).foldl intMul 1 = 0 :=
      foldl_intMul_zero (.inr (List.mem_map.mpr ⟨0, hzero, rfl⟩))
    rw [hnone, if_pos rfl]
  have hpos : ∀ d ∈ newDims, d ≠ 0 := fun d hd h => hzero (h ▸ hd)
  have hprod : newDims.prod ≠ 0 := List.prod_ne_zero hzero
  have helements : (newDims.map fun d : Nat => (d : Int)).foldl intMul 1 = (newDims.prod : Int) := by
    have hsmall : 1 * newDims.prod < 2 ^ 31 := by
      have hle := Nat.le_mul_of_pos_right newDims.prod hmanaged.size
      omega
    have hfold := foldl_intMul hpos hsmall
    rw [Nat.one_mul] at hfold
    exact hfold
  rw [helements, if_neg (Int.natCast_ne_zero.mpr hprod)]
  cases hnew : allocate alloc (st.mm.allocInfo pos) newDims.length newDims.prod with
  | none => rfl
  | some newAddress =>
    dsimp only
    have hunmapped := hfresh.unmapped _ _ _ hnew
    have hne : address ≠ newAddress := by
      rintro rfl
      rw [hmanaged.found] at hunmapped
      cases hunmapped
    have hmemory := fun g hg b hb => @memory_copied st address pos dims newDims stars hmanaged hlength newAddress
      (givenOut alloc (st.mm.allocInfo pos) newDims.length) (hfresh.disjoint _ _ _ hnew) g hg b hb _ rfl
    refine ⟨fun g hg hg' b hb => (hmemory g hg' b hb).1 hg, fun g hg hg' b hb => (hmemory g hg' b hb).2 hg, ?_, ?_, ?_,
      ?_, ?_, rfl⟩
    · have hbytes : intMul newDims.prod (st.mm.allocInfo pos).size =
          (newDims.prod : Int) * (st.mm.allocInfo pos).size :=
        intMul_eq (by positivity) (by exact_mod_cast hcount)
      have hdrop : (st.mm.allocInfo pos).index.drop newDims.length = List.replicate stars 0 := by
        rw [hmanaged.index]
        exact List.drop_left' (by rw [List.length_map, hlength])
      show Function.update st.mm.allocInfo pos _ pos = _
      rw [Function.update_self, hbytes, hdrop]
    · intro q hq
      exact Function.update_of_ne hq _ _
    · exact Function.update_self _ _ _
    · show Function.update (Function.update st.mm.allocInfoMap address none) newAddress (some pos) address = none
      rw [Function.update_of_ne hne, Function.update_self]
    · intro a ha ha'
      show Function.update (Function.update st.mm.allocInfoMap address none) newAddress (some pos) a = _
      rw [Function.update_of_ne ha', Function.update_of_ne ha]

/-- **A resizing does what it is to do**, with elements as they are given out where there were none: a failure changes
    nothing, and it succeeds as described whenever the bytes of the new array can be counted in an `int`. -/
theorem resizeArray_resizes (hmanaged : Managed st address pos dims stars) (hfresh : Fresh alloc st pos dims)
    (hcount : newDims.prod * (st.mm.allocInfo pos).size < 2 ^ 31) :
    (∀ cdims, (resizeArray alloc st address cdims).1 = none → (resizeArray alloc st address cdims).2 = st) ∧
      Resizes alloc st address pos dims stars newDims (givenOut alloc (st.mm.allocInfo pos) newDims.length) :=
  ⟨resizeArray_failed alloc st address, resizes_of_count hmanaged hfresh hcount⟩

end Main

/-- An allocator with one block at the address 256; the constructor of a class sets all bytes to one. -/
def oneBlock : Allocator where
  calloc n size := if n * size ≤ 64 then some 256 else none
  allocateClass _ n := if n ≤ 8 then some 256 else none
  constructed _ _ := 1

/-- `short a[2][3]` at the address 16, or an object of a class there. -/
def oneAllocation (info : AllocInfo) : MemoryState where
  mm :=
    { allocInfoMap := fun a => if a = 16 then some 0 else none
      variableMap := fun _ => none
      allocInfo := fun _ => info }
  memory x := UInt8.ofNat x

/-- The array of two by three becomes one of three by two. -/
theorem resizes_oneAllocation : Resizes oneBlock
    (oneAllocation { start := 16, lastByte := 27, size := 2, language := .c, type := .short, num := 6, index := [2, 3] })
    16 0 [2, 3] 0 [3, 2] fun _ => 0 := by
  have hresizes := @resizeArray_resizes oneBlock (oneAllocation
    { start := 16, lastByte := 27, size := 2, language := .c, type := .short, num := 6, index := [2, 3] })
    16 0 [2, 3] [3, 2] 0 ⟨rfl, rfl, by decide, by decide⟩ ?_ (by decide)
  · exact hresizes.2
  · have haddress : ∀ nCdims n a, allocate oneBlock
        { start := 16, lastByte := 27, size := 2, language := .c, type := .short, num := 6, index := [2, 3] }
        nCdims n = some a → a = 256 := by
      intro nCdims n a h
      unfold allocate at h
      rw [if_neg (by rintro ⟨h, -⟩; cases h)] at h
      have hsome : (if _ then some 256 else none) = some a := h
      split_ifs at hsome
      exact (Option.some.inj hsome).symm
    refine ⟨?_, ?_⟩
    · intro nCdims n a h
      rw [haddress nCdims n a h]
      rfl
    · intro nCdims n a h
      rw [haddress nCdims n a h]
      exact .inr (by decide)

/-- An array of one object of a class becomes one of two: the new object is constructed, and not zero. -/
theorem not_resizes_oneAllocation : ¬ Resizes oneBlock
    (oneAllocation { start := 16, lastByte := 17, size := 2, type := .structured, attr := some 0, num := 1, index := [1] })
    16 0 [1] 0 [2] fun _ => 0 := by
  intro h
  have hfresh := Resized.fresh h [1] ?_ ?_ 0 (by decide)
  · exact absurd hfresh (by decide)
  · rintro (_ | ⟨hlt, -⟩)
    exact absurd hlt (by decide)
  · exact .cons (by decide) .nil

end Trick.Memory
