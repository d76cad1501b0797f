/-
  The dependencies of an allocation: what a checkpoint of selected variables writes.

  Data:           the memory manager with the memory; an allocation is known by its key in `alloc_info_map`.
  Program:        `getAllocDepsInAllocation` goes depth first through the pointers of an allocation; the recursions over
                  the members of a type, over the elements of an array of objects and over an array of pointers are
                  those of the source, the last but one with its own element number.
  Specification:  `ExactDependencies`: the search comes to an end, with the allocations that are reachable by pointers
                  in members that can be written, each once.
  Result:         `getAllocDeps_exact`: so it is, on any graph of pointers, where no type comes back to itself through
                  a static member, and where the arrays of objects that are reached have one dimension, or others in
                  which the element numbers of the source are those of all elements.
-/
import Trick.Lib.DepthFirst
import Trick.Lib.RowMajor
import Trick.MemoryManager.ObjectMemory

namespace Trick.Memory

open Trick.Lib

/-! ## The memory manager -/

/-- **The memory manager** with the memory. -/
structure ManagerState where
  types : Types
  memory : ObjectMemory
  /-- In the order of `std::greater`. -/
  allocInfoMap : List (Nat × AllocInfo)
  sorted : allocInfoMap.Pairwise fun e e' => e'.1 < e.1
  variableMap : String → Option Nat
  named : ∀ name key, variableMap name = some key → key ∈ allocInfoMap.map Prod.fst

/-- **`get_alloc_info_of`**: `lower_bound` is the first key that is not greater than the address. -/
def getAllocInfoOf (s : ManagerState) (addr : Nat) : Option Nat :=
  match s.allocInfoMap.find? fun e => e.1 ≤ addr with
  | some (key, info) => if info.start ≤ addr ∧ (addr : Int) ≤ info.lastByte then some key else none
  | none => none

/-- The record of an allocation. -/
def ManagerState.allocInfo (s : ManagerState) (key : Nat) : Option AllocInfo :=
  (s.allocInfoMap.find? fun e => e.1 = key).map Prod.snd

/-! ## The program -/

/-- `void* pointer = *(void**)slot` -/
def ManagerState.pointer (s : ManagerState) (slot : Nat) : Nat := s.memory.value slot sizeofPointer

section Walks

variable (s : ManagerState) (visit : Nat → List Nat → Option (List Nat))

/-- What is done at a pointer; `visit` is `get_alloc_deps_in_allocation`. -/
def followPointer (slot : Nat) (dependencies : List Nat) : Option (List Nat) :=
  if s.pointer slot ≠ 0 then
    match getAllocInfoOf s (s.pointer slot) with
    | some key => visit key dependencies
    -- "refers to memory that the MemoryManager doesn't know about"
    | none => some dependencies
  else some dependencies

/-- **`get_alloc_deps_in_intrinsic`**, with the dimensions that remain. -/
def getAllocDepsInIntrinsic (address : Nat) : List Nat → Nat → List Nat → Option (List Nat)
  | [], _, dependencies => some dependencies
  | extent :: dims, offset, dependencies =>
    if extent = 0 then followPointer s visit (address + offset * sizeofPointer) dependencies
    else
      (List.range extent).foldlM (fun dependencies ii =>
        getAllocDepsInIntrinsic address dims (offset * extent + ii) dependencies) dependencies

/-- **`get_alloc_deps_in_arrayed_class`**, with the dimensions that remain; `inClass` is `get_alloc_deps_in_class` for
    the type of the elements. -/
def getAllocDepsInArrayedClass (inClass : Nat → List Nat → Option (List Nat)) (a : Attributes) (address : Nat) :
    Nat → List Nat → Nat → List Nat → Option (List Nat)
  | _, [], _, dependencies => some dependencies
  | currDim, extent :: dims, offset, dependencies =>
    if extent = 0 then followPointer s visit (address + offset * sizeofPointer) dependencies
    else
      (List.range extent).foldlM (fun dependencies ii =>
        if dims ≠ [] then
          getAllocDepsInArrayedClass inClass a address (currDim + 1) dims (offset * extent + ii) dependencies
        -- the number of the dimension is where its size should be
        else inClass (address + (offset * currDim + ii) * a.size) dependencies) dependencies

/-- What is done at a member, or at an allocation; `inClass` is `get_alloc_deps_in_class`, which has nothing to do
    without attributes. -/
def getAllocDepsInMember (inClass : Nat → Nat → List Nat → Option (List Nat)) (a : Attributes) (address : Nat)
    (dependencies : List Nat) : Option (List Nat) :=
  if a.type = .structured then
    let inClassOf := a.attr.elim (fun _ dependencies => some dependencies) inClass
    if a.dims ≠ [] then getAllocDepsInArrayedClass s visit inClassOf a address 0 a.dims 0 dependencies
    else inClassOf address dependencies
  else getAllocDepsInIntrinsic s visit address a.dims 0 dependencies

/-- **`get_alloc_deps_in_class`**; there is no result where the depth does not suffice. -/
def getAllocDepsInClass : Nat → Nat → Nat → List Nat → Option (List Nat)
  | 0, _, _, _ => none
  | depth + 1, t, address, dependencies =>
    (s.types.members t).foldlM (fun dependencies a =>
      if outputPermCheck a then
        getAllocDepsInMember s visit (getAllocDepsInClass depth) a (elementAddress a address) dependencies
      else some dependencies) dependencies

end Walks

/-- **`get_alloc_deps_in_allocation`**; there is no result where the fuel or the depth does not suffice. -/
def getAllocDepsInAllocation (s : ManagerState) (depth : Nat) : Nat → Nat → List Nat → Option (List Nat)
  | 0, _, _ => none
  | fuel + 1, key, dependencies =>
    -- "Dependencies of allocation … are already known."
    if key ∈ dependencies then some dependencies
    else
      (s.allocInfo key).elim (some (dependencies ++ [key])) fun info =>
        let visit := getAllocDepsInAllocation s depth fuel
        getAllocDepsInMember s visit (getAllocDepsInClass s visit depth) (makeReferenceAttr info) info.start
          (dependencies ++ [key])

/-- `get_alloc_deps_in_allocation`, of a name; the dependencies have been cleared. -/
def getAllocDeps (s : ManagerState) (depth fuel : Nat) (varName : String) : Option (List Nat) :=
  match s.variableMap varName with
  | some key => getAllocDepsInAllocation s depth fuel key []
  | none => some []

/-! ## What is wanted -/

/-- Where a member of an object is: what a reference refers to is where the pointer leads that it is made of. -/
def memberPlace (s : ManagerState) (a : Attributes) (address : Nat) : Nat :=
  if a.isReference then s.pointer (elementAddress a address) else elementAddress a address

/-- **The members that are reached** from one at an address, through objects and arrays of objects, and where they
    are. -/
inductive OutputMember (s : ManagerState) : Attributes → Nat → Attributes → Nat → Prop
  | here {a base} : OutputMember s a base a base
  | inside {a base k t b a' base'} : a.type = .structured → ¬ a.OfPointers → k < a.count → a.attr = some t →
      b ∈ s.types.members t → outputPermCheck b →
      OutputMember s b (memberPlace s b (base + k * a.size)) a' base' → OutputMember s a base a' base'

/-- **The pointers that are held** in a member, or in the objects of it. -/
def HoldsPointer (s : ManagerState) (a₀ : Attributes) (base₀ p : Nat) : Prop :=
  ∃ a base, OutputMember s a₀ base₀ a base ∧ a.OfPointers ∧ ∃ k < a.count, p = s.pointer (base + k * sizeofPointer)

/-- **An allocation points to another one.** -/
def PointsTo (s : ManagerState) (key key' : Nat) : Prop :=
  ∃ info p, s.allocInfo key = some info ∧ HoldsPointer s (makeReferenceAttr info) info.start p ∧ p ≠ 0 ∧
    getAllocInfoOf s p = some key'

/-- **The dependencies are exact**: with enough depth and fuel there is one result, the allocations that are reachable
    from that of the name, each once. -/
def ExactDependencies (s : ManagerState) (varName : String) : Prop :=
  ∃ dependencies depth₀ fuel₀,
    (∀ depth fuel, depth₀ ≤ depth → fuel₀ ≤ fuel → getAllocDeps s depth fuel varName = some dependencies) ∧
      ∀ key, s.variableMap varName = some key → dependencies.Nodup ∧
        ∀ k, k ∈ dependencies ↔ Relation.ReflTransGen (PointsTo s) key k

/-- The element numbers of the source are those of all elements: there is one element in the dimensions before the
    last, or the size of the last is the number of those before it. -/
def Attributes.Straight (a : Attributes) : Prop :=
  a.dims.dropLast.prod = 1 ∨ a.dims.getLast? = some (a.dims.length - 1)

/-- **No type comes back to itself**, through a static member either, and references are not written. -/
structure Types.Finite (types : Types) (depth : Nat → Nat) : Prop where
  nested : ∀ t, ∀ a ∈ types.members t, outputPermCheck a → a.type = .structured → ¬ a.OfPointers →
    ∀ t', a.attr = some t' → depth t' < depth t
  references : ∀ t, ∀ a ∈ types.members t, a.isReference → ¬ outputPermCheck a

/-! ## The pointers in the order of the search -/

/-- The allocation that a pointer leads to. -/
def pointees (s : ManagerState) (slot : Nat) : List Nat :=
  if s.pointer slot ≠ 0 then (getAllocInfoOf s (s.pointer slot)).toList else []

/-- The slots of an array of pointers. -/
def pointerSlots (address : Nat) : List Nat → Nat → List Nat
  | [], _ => []
  | extent :: dims, offset =>
    if extent = 0 then [address + offset * sizeofPointer]
    else (List.range extent).flatMap fun ii => pointerSlots address dims (offset * extent + ii)

/-- The elements of an array of objects, by the numbers that the source has for them. -/
def arrayElements : Nat → List Nat → Nat → List Nat
  | _, [], _ => []
  | currDim, extent :: dims, offset =>
    (List.range extent).flatMap fun ii =>
      if dims ≠ [] then arrayElements (currDim + 1) dims (offset * extent + ii) else [offset * currDim + ii]

/-- The elements of a member that is an object, or an array of objects. -/
def memberElements (a : Attributes) : List Nat := if a.dims ≠ [] then arrayElements 0 a.dims 0 else [0]

/-- What the pointers in a member lead to; `inClass` is for the objects of a type. -/
def memberPointees (s : ManagerState) (inClass : Nat → Nat → List Nat) (a : Attributes) (address : Nat) : List Nat :=
  if a.type = .structured ∧ ¬ a.OfPointers then
    (memberElements a).flatMap fun k => a.attr.elim [] fun t => inClass t (address + k * a.size)
  else (pointerSlots address a.dims 0).flatMap (pointees s)

/-- What the pointers in an object lead to. -/
def classPointees (s : ManagerState) : Nat → Nat → Nat → List Nat
  | 0, _, _ => []
  | depth + 1, t, address =>
    (s.types.members t).flatMap fun a =>
      if outputPermCheck a then memberPointees s (classPointees s depth) a (elementAddress a address) else []

/-- What the pointers in an allocation lead to. -/
def allocPointees (s : ManagerState) (depth key : Nat) : List Nat :=
  (s.allocInfo key).elim [] fun info => memberPointees s (classPointees s depth) (makeReferenceAttr info) info.start

section Search

variable {s : ManagerState} {visit : Nat → List Nat → Option (List Nat)}

/-- The allocations are visited one by one. -/
def visitAll (visit : Nat → List Nat → Option (List Nat)) (keys dependencies : List Nat) : Option (List Nat) :=
  keys.foldlM (fun dependencies key => visit key dependencies) dependencies

theorem visitAll_flatMap {α : Type} (g : α → List Nat) (l : List α) (dependencies : List Nat) :
    visitAll visit (l.flatMap g) dependencies =
      l.foldlM (fun dependencies a => visitAll visit (g a) dependencies) dependencies :=
  foldlM_flatMap _ g l dependencies

theorem visitAll_nil (dependencies : List Nat) : visitAll visit [] dependencies = some dependencies := rfl

theorem followPointer_eq (slot : Nat) (dependencies : List Nat) :
    followPointer s visit slot dependencies = visitAll visit (pointees s slot) dependencies := by
  unfold followPointer pointees
  by_cases hnull : s.pointer slot ≠ 0
  · rw [if_pos hnull, if_pos hnull]
    cases getAllocInfoOf s (s.pointer slot) with
    | none => rfl
    | some key =>
      show visit key dependencies = [key].foldlM (fun dependencies key => visit key dependencies) dependencies
      rw [List.foldlM_cons]
      exact (bind_pure _).symm
  · rw [if_neg hnull, if_neg hnull]
    rfl

theorem getAllocDepsInIntrinsic_eq (address : Nat) (dims : List Nat) (offset : Nat) (dependencies : List Nat) :
    getAllocDepsInIntrinsic s visit address dims offset dependencies =
      visitAll visit ((pointerSlots address dims offset).flatMap (pointees s)) dependencies := by
  induction dims generalizing offset dependencies with
  | nil => rfl
  | cons extent dims ih =>
    rw [getAllocDepsInIntrinsic, pointerSlots]
    by_cases hzero : extent = 0
    · rw [if_pos hzero, if_pos hzero, followPointer_eq, List.flatMap_singleton]
    · rw [if_neg hzero, if_neg hzero, List.flatMap_assoc, visitAll_flatMap]
      exact foldlM_congr (fun dependencies ii _ => ih _ dependencies) dependencies

/-- **An array of pointers** to objects is gone through like any other. -/
theorem getAllocDepsInArrayedClass_pointers {inClass : Nat → List Nat → Option (List Nat)} {a : Attributes}
    (address : Nat) {dims : List Nat} (hpointers : ∃ d ∈ dims, d = 0) (currDim offset : Nat)
    (dependencies : List Nat) :
    getAllocDepsInArrayedClass s visit inClass a address currDim dims offset dependencies =
      visitAll visit ((pointerSlots address dims offset).flatMap (pointees s)) dependencies := by
  induction dims generalizing currDim offset dependencies with
  | nil =>
    obtain ⟨d, hd, -⟩ := hpointers
    exact absurd hd List.not_mem_nil
  | cons extent dims ih =>
    rw [getAllocDepsInArrayedClass, pointerSlots]
    by_cases hzero : extent = 0
    · rw [if_pos hzero, if_pos hzero, followPointer_eq, List.flatMap_singleton]
    · have hrest : ∃ d ∈ dims, d = 0 := by
        obtain ⟨d, hd, hd0⟩ := hpointers
        rcases List.mem_cons.mp hd with rfl | hd
        · exact absurd hd0 hzero
        · exact ⟨d, hd, hd0⟩
      have hdims : dims ≠ [] := by
        rintro rfl
        obtain ⟨d, hd, -⟩ := hrest
        exact absurd hd List.not_mem_nil
      rw [if_neg hzero, if_neg hzero, List.flatMap_assoc, visitAll_flatMap]
      refine foldlM_congr (fun dependencies ii _ => ?_) dependencies
      rw [if_pos hdims]
      exact ih hrest _ _ dependencies

/-- **An array of objects.** -/
theorem getAllocDepsInArrayedClass_objects {inClass : Nat → List Nat → Option (List Nat)} {a : Attributes}
    (address : Nat) {dims : List Nat} (hobjects : ∀ d ∈ dims, d ≠ 0) (currDim offset : Nat) (dependencies : List Nat) :
    getAllocDepsInArrayedClass s visit inClass a address currDim dims offset dependencies =
      (arrayElements currDim dims offset).foldlM (fun dependencies k => inClass (address + k * a.size) dependencies)
        dependencies := by
  induction dims generalizing currDim offset dependencies with
  | nil => rfl
  | cons extent dims ih =>
    obtain ⟨hextent, hrest⟩ := List.forall_mem_cons.mp hobjects
    rw [getAllocDepsInArrayedClass, arrayElements, if_neg hextent, foldlM_flatMap]
    refine foldlM_congr (fun dependencies ii _ => ?_) dependencies
    by_cases hdims : dims ≠ []
    · rw [if_pos hdims, if_pos hdims]
      exact ih hrest _ _ dependencies
    · rw [if_neg hdims, if_neg hdims, List.foldlM_cons]
      exact (bind_pure _).symm

/-- **What is done at a member** is a visit of what its pointers lead to. -/
theorem getAllocDepsInMember_eq {inClass : Nat → Nat → List Nat → Option (List Nat)} {inClass' : Nat → Nat → List Nat}
    {a : Attributes}
    (h : a.type = .structured → ¬ a.OfPointers → ∀ t, a.attr = some t → ∀ address dependencies,
      inClass t address dependencies = visitAll visit (inClass' t address) dependencies)
    (address : Nat) (dependencies : List Nat) :
    getAllocDepsInMember s visit inClass a address dependencies =
      visitAll visit (memberPointees s inClass' a address) dependencies := by
  unfold getAllocDepsInMember memberPointees
  by_cases htype : a.type = .structured
  · rw [if_pos htype]
    by_cases hpointers : a.OfPointers
    · have hdims : a.dims ≠ [] := by
        intro hnil
        obtain ⟨d, hd, -⟩ := hpointers
        rw [hnil] at hd
        exact absurd hd List.not_mem_nil
      rw [if_pos hdims, if_neg fun hboth => hboth.2 hpointers]
      exact getAllocDepsInArrayedClass_pointers address hpointers 0 0 dependencies
    · have hclass : ∀ place deps,
          a.attr.elim (fun _ dependencies => some dependencies) inClass place deps =
            visitAll visit (a.attr.elim [] fun t => inClass' t place) deps := by
        intro place deps
        cases hattr : a.attr with
        | none => rfl
        | some t => exact h htype hpointers t hattr place deps
      by_cases hdims : a.dims ≠ []
      · have hobjects : ∀ d ∈ a.dims, d ≠ 0 := fun d hd hzero => hpointers ⟨d, hd, hzero⟩
        rw [if_pos hdims, if_pos ⟨htype, hpointers⟩, memberElements, if_pos hdims, visitAll_flatMap,
          getAllocDepsInArrayedClass_objects address hobjects]
        exact foldlM_congr (fun deps k _ => hclass _ deps) dependencies
      · rw [if_neg hdims, if_pos ⟨htype, hpointers⟩, memberElements, if_neg hdims, List.flatMap_singleton, Nat.zero_mul,
          Nat.add_zero]
        exact hclass address dependencies
  · rw [if_neg htype, if_neg fun hboth => htype hboth.1]
    exact getAllocDepsInIntrinsic_eq address a.dims 0 dependencies

end Search

section Depth

variable {s : ManagerState} {depthOf : Nat → Nat} (hfinite : s.types.Finite depthOf)
include hfinite

/-- **What is done in an object**, with depth enough. -/
theorem getAllocDepsInClass_eq {visit : Nat → List Nat → Option (List Nat)} {depth t : Nat} (hdepth : depthOf t < depth)
    (address : Nat) (dependencies : List Nat) :
    getAllocDepsInClass s visit depth t address dependencies =
      visitAll visit (classPointees s depth t address) dependencies := by
  induction depth generalizing t address dependencies with
  | zero => exact absurd hdepth (Nat.not_lt_zero _)
  | succ depth ih =>
    rw [getAllocDepsInClass, classPointees, visitAll_flatMap]
    refine foldlM_congr (fun deps a ha => ?_) dependencies
    by_cases hperm : outputPermCheck a
    · rw [if_pos hperm, if_pos hperm]
      refine getAllocDepsInMember_eq (fun htype hobjects t' hattr place deps' => ?_) _ deps
      have hlt := hfinite.nested t a ha hperm htype hobjects t' hattr
      exact ih (by omega) place deps'
    · rw [if_neg hperm, if_neg hperm]
      rfl

/-- More depth does not change anything. -/
theorem classPointees_eq {depth more t : Nat} (hdepth : depthOf t < depth) (hmore : depthOf t < more) (address : Nat) :
    classPointees s depth t address = classPointees s more t address := by
  induction depth generalizing more t address with
  | zero => exact absurd hdepth (Nat.not_lt_zero _)
  | succ depth ih =>
    obtain ⟨more, rfl⟩ : ∃ n, more = n + 1 := ⟨more - 1, by omega⟩
    rw [classPointees, classPointees]
    refine List.flatMap_congr fun a ha => ?_
    by_cases hperm : outputPermCheck a
    · rw [if_pos hperm, if_pos hperm]
      unfold memberPointees
      by_cases hobjects : a.type = .structured ∧ ¬ a.OfPointers
      · rw [if_pos hobjects, if_pos hobjects]
        refine List.flatMap_congr fun k _ => ?_
        cases hattr : a.attr with
        | none => rfl
        | some t' =>
          have hlt := hfinite.nested t a ha hperm hobjects.1 hobjects.2 t' hattr
          exact ih (by omega) (by omega) _
      · rw [if_neg hobjects, if_neg hobjects]
    · rw [if_neg hperm, if_neg hperm]

end Depth

/-! ## All pointers -/

/-- A number in one of `extent` blocks of `n`, after `offset` rows of blocks. -/
theorem exists_block {offset extent n k : Nat} :
    (∃ ii < extent, (offset * extent + ii) * n ≤ k ∧ k < (offset * extent + ii + 1) * n) ↔
      offset * (extent * n) ≤ k ∧ k < (offset + 1) * (extent * n) := by
  constructor
  · rintro ⟨ii, hii, hle, hlt⟩
    constructor
    · calc offset * (extent * n) = offset * extent * n := (Nat.mul_assoc ..).symm
        _ ≤ (offset * extent + ii) * n := Nat.mul_le_mul_right n (Nat.le_add_right ..)
        _ ≤ k := hle
    · calc k < (offset * extent + ii + 1) * n := hlt
        _ ≤ (offset * extent + extent) * n := Nat.mul_le_mul_right n (by omega)
        _ = (offset + 1) * (extent * n) := by ring
  · rintro ⟨hle, hlt⟩
    have hn : 0 < n := Nat.pos_of_ne_zero fun hzero => by
      rw [hzero, Nat.mul_zero, Nat.mul_zero] at hlt
      exact Nat.not_lt_zero k hlt
    rw [← Nat.mul_assoc] at hle hlt
    have hrow : offset * extent ≤ k / n := (Nat.le_div_iff_mul_le hn).mpr hle
    have hnext : k / n < (offset + 1) * extent := (Nat.div_lt_iff_lt_mul hn).mpr hlt
    rw [Nat.succ_mul] at hnext
    refine ⟨k / n - offset * extent, by omega, ?_, ?_⟩
    · rw [Nat.add_sub_cancel' hrow]
      exact Nat.div_mul_le_self k n
    · rw [Nat.add_sub_cancel' hrow]
      exact (Nat.div_lt_iff_lt_mul hn).mp (Nat.lt_succ_self (k / n))

/-- **The slots** of an array of pointers. -/
theorem mem_pointerSlots {address slot : Nat} (dims : List Nat) (offset : Nat) :
    slot ∈ pointerSlots address dims offset ↔ (∃ d ∈ dims, d = 0) ∧ ∃ k, (offset * (dims.takeWhile (· ≠ 0)).prod ≤ k ∧
      k < (offset + 1) * (dims.takeWhile (· ≠ 0)).prod) ∧ slot = address + k * sizeofPointer := by
  induction dims generalizing offset with
  | nil =>
    refine ⟨fun h => absurd h List.not_mem_nil, ?_⟩
    rintro ⟨⟨d, hd, -⟩, -⟩
    exact absurd hd List.not_mem_nil
  | cons extent dims ih =>
    rw [pointerSlots]
    by_cases hzero : extent = 0
    · rw [if_pos hzero, List.mem_singleton, List.takeWhile_cons, hzero]
      simp only [ne_eq, not_true_eq_false, decide_false, Bool.false_eq_true, if_false, List.prod_nil, Nat.mul_one]
      constructor
      · intro h
        exact ⟨⟨0, List.mem_cons_self, rfl⟩, offset, ⟨Nat.le_refl _, Nat.lt_succ_self _⟩, h⟩
      · rintro ⟨-, k, ⟨hle, hlt⟩, h⟩
        obtain rfl : k = offset := Nat.le_antisymm (Nat.le_of_lt_succ hlt) hle
        exact h
    · rw [if_neg hzero, List.takeWhile_cons, if_pos (decide_eq_true hzero), List.prod_cons, List.mem_flatMap]
      constructor
      · rintro ⟨ii, hii, hslot⟩
        obtain ⟨⟨d, hd, hd0⟩, k, hk, h⟩ := (ih _).mp hslot
        exact ⟨⟨d, List.mem_cons_of_mem _ hd, hd0⟩, k, exists_block.mp ⟨ii, List.mem_range.mp hii, hk⟩, h⟩
      · rintro ⟨⟨d, hd, hd0⟩, k, hk, h⟩
        obtain ⟨ii, hii, hblock⟩ := exists_block.mpr hk
        refine ⟨ii, List.mem_range.mpr hii, (ih _).mpr ⟨?_, k, hblock, h⟩⟩
        rcases List.mem_cons.mp hd with rfl | hd
        · exact absurd hd0 hzero
        · exact ⟨d, hd, hd0⟩

/-- **The elements that the source goes to**: `o` counts those of the dimensions before the last one. -/
theorem mem_arrayElements {k : Nat} (dims : List Nat) (last currDim offset : Nat) :
    k ∈ arrayElements currDim (dims ++ [last]) offset ↔ ∃ o ii, (offset * dims.prod ≤ o ∧ o < (offset + 1) * dims.prod) ∧
      ii < last ∧ k = o * (currDim + dims.length) + ii := by
  induction dims generalizing currDim offset with
  | nil =>
    simp only [List.nil_append, arrayElements, ne_eq, not_true_eq_false, if_false, List.mem_flatMap, List.mem_range,
      List.mem_singleton, List.prod_nil, Nat.mul_one, List.length_nil, Nat.add_zero]
    constructor
    · rintro ⟨ii, hii, h⟩
      exact ⟨offset, ii, ⟨Nat.le_refl _, Nat.lt_succ_self _⟩, hii, h⟩
    · rintro ⟨o, ii, ⟨hle, hlt⟩, hii, h⟩
      obtain rfl : o = offset := Nat.le_antisymm (Nat.le_of_lt_succ hlt) hle
      exact ⟨ii, hii, h⟩
  | cons extent dims ih =>
    have hdims : dims ++ [last] ≠ [] := List.append_ne_nil_of_right_ne_nil _ (List.cons_ne_nil _ _)
    have hlength : ∀ n, n + 1 + dims.length = n + (extent :: dims).length := by
      intro n
      rw [List.length_cons]
      omega
    rw [List.cons_append, arrayElements, List.prod_cons, List.mem_flatMap]
    simp only [if_pos hdims, ih, hlength]
    constructor
    · rintro ⟨i, hi, o, ii, ho, hii, h⟩
      exact ⟨o, ii, exists_block.mp ⟨i, List.mem_range.mp hi, ho⟩, hii, h⟩
    · rintro ⟨o, ii, ho, hii, h⟩
      obtain ⟨i, hi, hblock⟩ := exists_block.mpr ho
      exact ⟨i, List.mem_range.mpr hi, o, ii, hblock, hii, h⟩

/-- **In a straight array they are all elements.** -/
theorem mem_memberElements {a : Attributes} (hstraight : a.Straight) (hobjects : ¬ a.OfPointers) {k : Nat} :
    k ∈ memberElements a ↔ k < a.count := by
  have hcount : a.count = a.dims.prod := by
    have hall : ∀ d ∈ a.dims, decide (d ≠ 0) = true := fun d hd => decide_eq_true fun hzero => hobjects ⟨d, hd, hzero⟩
    rw [Attributes.count, List.takeWhile_eq_self_iff.mpr hall]
  rw [hcount, memberElements]
  rcases List.eq_nil_or_concat a.dims with hnil | ⟨dims, last, hdims⟩
  · rw [if_neg (not_not.mpr hnil), hnil, List.mem_singleton, List.prod_nil, Nat.lt_one_iff]
  · rw [List.concat_eq_append] at hdims
    have hne : a.dims ≠ [] := by
      rw [hdims]
      exact List.append_ne_nil_of_right_ne_nil _ (List.cons_ne_nil _ _)
    have hmem : last ∈ a.dims := hdims ▸ List.mem_append_right _ List.mem_cons_self
    have hlast : last ≠ 0 := fun hzero => hobjects ⟨last, hmem, hzero⟩
    rw [Attributes.Straight, hdims, List.dropLast_concat, List.getLast?_concat, List.length_append,
      List.length_singleton, Nat.add_sub_cancel] at hstraight
    rw [if_pos hne, hdims, mem_arrayElements, List.prod_append, List.prod_singleton, Nat.zero_add, Nat.zero_mul,
      Nat.one_mul]
    rcases hstraight with hone | hsome
    · rw [hone, Nat.one_mul]
      constructor
      · rintro ⟨o, ii, ⟨-, ho⟩, hii, h⟩
        obtain rfl : o = 0 := Nat.lt_one_iff.mp ho
        rw [h, Nat.zero_mul, Nat.zero_add]
        exact hii
      · intro hk
        exact ⟨0, k, ⟨Nat.le_refl _, Nat.zero_lt_one⟩, hk, by rw [Nat.zero_mul, Nat.zero_add]⟩
    · obtain rfl : last = dims.length := Option.some.inj hsome
      constructor
      · rintro ⟨o, ii, ⟨-, ho⟩, hii, h⟩
        rw [Nat.zero_add] at h
        calc k = o * dims.length + ii := h
          _ < (o + 1) * dims.length := by rw [Nat.succ_mul]; omega
          _ ≤ dims.prod * dims.length := Nat.mul_le_mul_right _ ho
      · intro hk
        have hpos : 0 < dims.length := Nat.pos_of_ne_zero hlast
        refine ⟨k / dims.length, k % dims.length, ⟨Nat.zero_le _, (Nat.div_lt_iff_lt_mul hpos).mpr hk⟩,
          Nat.mod_lt k hpos, ?_⟩
        rw [Nat.zero_add]
        exact (Nat.div_add_mod' k dims.length).symm

/-! ## Where the pointers lead -/

/-- A pointer in a member leads to an allocation. -/
def Leads (s : ManagerState) (a : Attributes) (base key : Nat) : Prop :=
  ∃ p, HoldsPointer s a base p ∧ p ≠ 0 ∧ getAllocInfoOf s p = some key

/-- All arrays of objects in a member are straight. -/
def AllStraight (s : ManagerState) (a₀ : Attributes) (base₀ : Nat) : Prop :=
  ∀ a base, OutputMember s a₀ base₀ a base → a.type = .structured → ¬ a.OfPointers → a.Straight

theorem mem_pointees {s : ManagerState} {slot key : Nat} :
    key ∈ pointees s slot ↔ s.pointer slot ≠ 0 ∧ getAllocInfoOf s (s.pointer slot) = some key := by
  unfold pointees
  by_cases hnull : s.pointer slot ≠ 0
  · rw [if_pos hnull, Option.mem_toList]
    exact ⟨fun h => ⟨hnull, h⟩, And.right⟩
  · rw [if_neg hnull]
    exact ⟨fun h => absurd h List.not_mem_nil, fun h => absurd h.1 hnull⟩

/-- A member without objects holds the pointers that it consists of. -/
theorem holdsPointer_pointers {s : ManagerState} {a : Attributes} {base p : Nat}
    (h : ¬ (a.type = .structured ∧ ¬ a.OfPointers)) :
    HoldsPointer s a base p ↔ a.OfPointers ∧ ∃ k < a.count, p = s.pointer (base + k * sizeofPointer) := by
  constructor
  · rintro ⟨a', base', hmember, hpointers, hp⟩
    cases hmember with
    | here => exact ⟨hpointers, hp⟩
    | inside htype hobjects => exact absurd ⟨htype, hobjects⟩ h
  · rintro ⟨hpointers, hp⟩
    exact ⟨a, base, .here, hpointers, hp⟩

/-- A member that is made of objects holds the pointers in the members of those. -/
theorem holdsPointer_objects {s : ManagerState} {a : Attributes} {base p : Nat} (htype : a.type = .structured)
    (hobjects : ¬ a.OfPointers) :
    HoldsPointer s a base p ↔ ∃ k < a.count, ∃ t, a.attr = some t ∧ ∃ b ∈ s.types.members t, outputPermCheck b ∧
      HoldsPointer s b (memberPlace s b (base + k * a.size)) p := by
  constructor
  · rintro ⟨a', base', hmember, hpointers, hp⟩
    cases hmember with
    | here => exact absurd hpointers hobjects
    | inside _ _ hk hattr hb hperm hmember => exact ⟨_, hk, _, hattr, _, hb, hperm, a', base', hmember, hpointers, hp⟩
  · rintro ⟨k, hk, t, hattr, b, hb, hperm, a', base', hmember, hpointers, hp⟩
    exact ⟨a', base', .inside htype hobjects hk hattr hb hperm hmember, hpointers, hp⟩

/-- **What is found at a member**, if what is found in an object is right. -/
theorem mem_memberPointees {s : ManagerState} {inClass : Nat → Nat → List Nat} {a : Attributes} {base key : Nat}
    (hstraight : AllStraight s a base)
    (h : a.type = .structured → ¬ a.OfPointers → ∀ t, a.attr = some t → ∀ k < a.count,
      (key ∈ inClass t (base + k * a.size) ↔ ∃ b ∈ s.types.members t, outputPermCheck b ∧
        Leads s b (memberPlace s b (base + k * a.size)) key)) :
    key ∈ memberPointees s inClass a base ↔ Leads s a base key := by
  unfold memberPointees
  by_cases hcase : a.type = .structured ∧ ¬ a.OfPointers
  · obtain ⟨htype, hobjects⟩ := hcase
    rw [if_pos ⟨htype, hobjects⟩, List.mem_flatMap]
    constructor
    · rintro ⟨k, hk, hkey⟩
      have hk' : k < a.count := (mem_memberElements (hstraight a base .here htype hobjects) hobjects).mp hk
      cases hattr : a.attr with
      | none =>
        rw [hattr] at hkey
        exact absurd hkey List.not_mem_nil
      | some t =>
        rw [hattr] at hkey
        obtain ⟨b, hb, hperm, p, hp, hnull, hfound⟩ := (h htype hobjects t hattr k hk').mp hkey
        exact ⟨p, (holdsPointer_objects htype hobjects).mpr ⟨k, hk', t, hattr, b, hb, hperm, hp⟩, hnull, hfound⟩
    · rintro ⟨p, hp, hnull, hfound⟩
      obtain ⟨k, hk, t, hattr, b, hb, hperm, hp⟩ := (holdsPointer_objects htype hobjects).mp hp
      refine ⟨k, (mem_memberElements (hstraight a base .here htype hobjects) hobjects).mpr hk, ?_⟩
      rw [hattr]
      exact (h htype hobjects t hattr k hk).mpr ⟨b, hb, hperm, p, hp, hnull, hfound⟩
  · rw [if_neg hcase, List.mem_flatMap]
    constructor
    · rintro ⟨slot, hslot, hkey⟩
      obtain ⟨hpointers, k, ⟨-, hk⟩, rfl⟩ := (mem_pointerSlots a.dims 0).mp hslot
      obtain ⟨hnull, hfound⟩ := mem_pointees.mp hkey
      rw [Nat.zero_add, Nat.one_mul] at hk
      exact ⟨_, (holdsPointer_pointers hcase).mpr ⟨hpointers, k, hk, rfl⟩, hnull, hfound⟩
    · rintro ⟨p, hp, hnull, hfound⟩
      obtain ⟨hpointers, k, hk, rfl⟩ := (holdsPointer_pointers hcase).mp hp
      refine ⟨base + k * sizeofPointer, (mem_pointerSlots a.dims 0).mpr ⟨hpointers, k, ⟨?_, ?_⟩, rfl⟩,
        mem_pointees.mpr ⟨hnull, hfound⟩⟩
      · rw [Nat.zero_mul]
        exact Nat.zero_le k
      · rw [Nat.zero_add, Nat.one_mul]
        exact hk

section Exact

variable {s : ManagerState} {depthOf : Nat → Nat} (hfinite : s.types.Finite depthOf)
include hfinite

/-- A member that can be written is at its element address. -/
theorem memberPlace_eq {t : Nat} {a : Attributes} (ha : a ∈ s.types.members t) (hperm : outputPermCheck a)
    (address : Nat) : memberPlace s a address = elementAddress a address :=
  if_neg fun href => hfinite.references t a ha href hperm

/-- **What is found in an object.** -/
theorem mem_classPointees {depth t key address : Nat} (hdepth : depthOf t < depth)
    (hstraight : ∀ b ∈ s.types.members t, outputPermCheck b → AllStraight s b (memberPlace s b address)) :
    key ∈ classPointees s depth t address ↔
      ∃ b ∈ s.types.members t, outputPermCheck b ∧ Leads s b (memberPlace s b address) key := by
  induction depth generalizing t address with
  | zero => exact absurd hdepth (Nat.not_lt_zero _)
  | succ depth ih =>
    have hmember : ∀ b ∈ s.types.members t, outputPermCheck b →
        (key ∈ memberPointees s (classPointees s depth) b (elementAddress b address) ↔
          Leads s b (memberPlace s b address) key) := by
      intro b hb hperm
      have hplace := memberPlace_eq hfinite hb hperm address
      rw [← hplace]
      refine mem_memberPointees (hstraight b hb hperm) ?_
      intro htype hobjects t' hattr k hk
      have hlt := hfinite.nested t b hb hperm htype hobjects t' hattr
      refine ih (by omega) ?_
      intro c hc hpermc a' base' hreached
      exact hstraight b hb hperm a' base' (.inside htype hobjects hk hattr hc hpermc hreached)
    rw [classPointees, List.mem_flatMap]
    refine exists_congr fun b => and_congr_right fun hb => ?_
    by_cases hperm : outputPermCheck b
    · rw [if_pos hperm, hmember b hb hperm]
      exact ⟨fun h => ⟨hperm, h⟩, And.right⟩
    · rw [if_neg hperm]
      exact ⟨fun h => absurd h List.not_mem_nil, fun h => absurd h.1 hperm⟩

/-- There is depth enough for the objects of all allocations. -/
def EnoughDepth (s : ManagerState) (depthOf : Nat → Nat) (depth : Nat) : Prop :=
  ∀ key info t, s.allocInfo key = some info → info.attr = some t → depthOf t < depth

omit hfinite in
theorem exists_enoughDepth : ∃ depth, EnoughDepth s depthOf depth := by
  refine ⟨(s.allocInfoMap.map fun e => e.2.attr.elim 0 fun t => depthOf t + 1).sum, ?_⟩
  intro key info t hinfo ht
  obtain ⟨e, he, rfl⟩ := Option.map_eq_some_iff.mp hinfo
  have hmem : depthOf t + 1 ∈ s.allocInfoMap.map fun e => e.2.attr.elim 0 fun t => depthOf t + 1 := by
    refine List.mem_map.mpr ⟨e, List.mem_of_find?_eq_some he, ?_⟩
    rw [ht]
    rfl
  exact List.single_le_sum (fun _ _ => Nat.zero_le _) _ hmem

/-- **The search is one depth first**, with depth enough. -/
theorem getAllocDepsInAllocation_eq {depth : Nat} (hdepth : EnoughDepth s depthOf depth) (fuel key : Nat)
    (dependencies : List Nat) :
    getAllocDepsInAllocation s depth fuel key dependencies = visit (allocPointees s depth) fuel key dependencies := by
  induction fuel generalizing key dependencies with
  | zero => rfl
  | succ fuel ih =>
    rw [getAllocDepsInAllocation, visit]
    by_cases hknown : key ∈ dependencies
    · rw [if_pos hknown, if_pos hknown]
    · rw [if_neg hknown, if_neg hknown, allocPointees]
      cases hinfo : s.allocInfo key with
      | none => rfl
      | some info =>
        have hvisit : getAllocDepsInAllocation s depth fuel = visit (allocPointees s depth) fuel :=
          funext fun key => funext fun dependencies => ih key dependencies
        show getAllocDepsInMember s (getAllocDepsInAllocation s depth fuel) _ (makeReferenceAttr info) info.start _ = _
        rw [hvisit]
        refine getAllocDepsInMember_eq (fun _ _ t ht address dependencies => ?_) info.start (dependencies ++ [key])
        exact getAllocDepsInClass_eq hfinite (hdepth key info t hinfo ht) address dependencies

/-- More depth does not change where the pointers lead. -/
theorem allocPointees_eq {depth more : Nat} (hdepth : EnoughDepth s depthOf depth) (hle : depth ≤ more) :
    allocPointees s more = allocPointees s depth := by
  funext key
  rw [allocPointees, allocPointees]
  cases hinfo : s.allocInfo key with
  | none => rfl
  | some info =>
    show memberPointees _ _ _ _ = memberPointees _ _ _ _
    unfold memberPointees
    by_cases hobjects : (makeReferenceAttr info).type = .structured ∧ ¬ (makeReferenceAttr info).OfPointers
    · rw [if_pos hobjects, if_pos hobjects]
      refine List.flatMap_congr fun k _ => ?_
      cases hattr : (makeReferenceAttr info).attr with
      | none => rfl
      | some t =>
        have hlt := hdepth key info t hinfo hattr
        exact classPointees_eq hfinite (Nat.lt_of_lt_of_le hlt hle) hlt _
    · rw [if_neg hobjects, if_neg hobjects]

/-- **The pointers of an allocation** whose arrays are straight. -/
theorem mem_allocPointees {depth key key' : Nat} (hdepth : EnoughDepth s depthOf depth)
    (hstraight : ∀ info, s.allocInfo key = some info → AllStraight s (makeReferenceAttr info) info.start) :
    key' ∈ allocPointees s depth key ↔ PointsTo s key key' := by
  rw [allocPointees]
  cases hinfo : s.allocInfo key with
  | none =>
    refine ⟨fun h => absurd h List.not_mem_nil, ?_⟩
    rintro ⟨info, p, hsome, -⟩
    rw [hinfo] at hsome
    cases hsome
  | some info =>
    have hmember : key' ∈ memberPointees s (classPointees s depth) (makeReferenceAttr info) info.start ↔
        Leads s (makeReferenceAttr info) info.start key' := by
      refine mem_memberPointees (hstraight info hinfo) ?_
      intro htype hobjects t ht k hk
      refine mem_classPointees hfinite (hdepth key info t hinfo ht) ?_
      intro b hb hperm a' base' hreached
      exact hstraight info hinfo a' base' (.inside htype hobjects hk ht hb hperm hreached)
    show key' ∈ memberPointees s (classPointees s depth) (makeReferenceAttr info) info.start ↔ _
    rw [hmember]
    constructor
    · rintro ⟨p, hp, hnull, hfound⟩
      exact ⟨info, p, hinfo, hp, hnull, hfound⟩
    · rintro ⟨info', p, hsome, hp, hnull, hfound⟩
      rw [hinfo] at hsome
      obtain rfl : info = info' := Option.some.inj hsome
      exact ⟨p, hp, hnull, hfound⟩

end Exact

/-! ## The search comes to an end -/

/-- An allocation that is found is in the map. -/
theorem mem_keys_of_getAllocInfoOf {s : ManagerState} {addr key : Nat} (h : getAllocInfoOf s addr = some key) :
    key ∈ s.allocInfoMap.map Prod.fst := by
  unfold getAllocInfoOf at h
  cases hfind : s.allocInfoMap.find? fun e => e.1 ≤ addr with
  | none =>
    rw [hfind] at h
    cases h
  | some e =>
    obtain ⟨key', info⟩ := e
    rw [hfind] at h
    dsimp only at h
    split at h
    · obtain rfl : key' = key := Option.some.inj h
      exact List.mem_map_of_mem (List.mem_of_find?_eq_some hfind)
    · cases h

theorem mem_keys_memberPointees {s : ManagerState} {inClass : Nat → Nat → List Nat}
    (h : ∀ t address, ∀ key ∈ inClass t address, key ∈ s.allocInfoMap.map Prod.fst) (a : Attributes) (base : Nat) :
    ∀ key ∈ memberPointees s inClass a base, key ∈ s.allocInfoMap.map Prod.fst := by
  intro key hkey
  unfold memberPointees at hkey
  split at hkey
  · obtain ⟨k, -, hkey⟩ := List.mem_flatMap.mp hkey
    cases hattr : a.attr with
    | none =>
      rw [hattr] at hkey
      exact absurd hkey List.not_mem_nil
    | some t =>
      rw [hattr] at hkey
      exact h t _ key hkey
  · obtain ⟨slot, -, hkey⟩ := List.mem_flatMap.mp hkey
    exact mem_keys_of_getAllocInfoOf (mem_pointees.mp hkey).2

theorem mem_keys_classPointees (s : ManagerState) (depth t address : Nat) :
    ∀ key ∈ classPointees s depth t address, key ∈ s.allocInfoMap.map Prod.fst := by
  induction depth generalizing t address with
  | zero => exact fun key hkey => absurd hkey List.not_mem_nil
  | succ depth ih =>
    intro key hkey
    rw [classPointees, List.mem_flatMap] at hkey
    obtain ⟨a, -, hkey⟩ := hkey
    split at hkey
    · exact mem_keys_memberPointees ih a _ key hkey
    · exact absurd hkey List.not_mem_nil

theorem mem_keys_allocPointees (s : ManagerState) (depth key : Nat) :
    ∀ key' ∈ allocPointees s depth key, key' ∈ s.allocInfoMap.map Prod.fst := by
  intro key' hkey
  rw [allocPointees] at hkey
  cases hinfo : s.allocInfo key with
  | none =>
    rw [hinfo] at hkey
    exact absurd hkey List.not_mem_nil
  | some info =>
    rw [hinfo] at hkey
    exact mem_keys_memberPointees (mem_keys_classPointees s depth) _ _ key' hkey

/-! ## Result -/

/-- Arrays of one dimension are straight. -/
theorem allStraight_of_oneDimension {s : ManagerState} (hmembers : ∀ t, ∀ a ∈ s.types.members t, a.dims.length ≤ 1)
    {a : Attributes} (h : a.dims.length ≤ 1) (base : Nat) : AllStraight s a base := by
  intro a' base' hreached
  have hdims : a'.dims.length ≤ 1 := by
    induction hreached with
    | here => exact h
    | inside _ _ _ _ hb _ _ ih => exact ih (hmembers _ _ hb)
  have hnil : a'.dims.dropLast = [] := by
    rw [List.dropLast_eq_take]
    exact List.take_eq_nil_iff.mpr (Or.inl (by omega))
  intro _ _
  left
  rw [hnil]
  rfl

/-- **The dependencies of a variable are exact**, if no type comes back to itself, and the arrays of objects in the
    allocations that are reachable are straight. -/
theorem getAllocDeps_exact (s : ManagerState) (varName : String) (depthOf : Nat → Nat)
    (hfinite : s.types.Finite depthOf)
    (hstraight : ∀ key, s.variableMap varName = some key → ∀ k, Relation.ReflTransGen (PointsTo s) key k →
      ∀ info, s.allocInfo k = some info → AllStraight s (makeReferenceAttr info) info.start) :
    ExactDependencies s varName := by
  cases hname : s.variableMap varName with
  | none =>
    refine ⟨[], 0, 0, fun depth fuel _ _ => ?_, fun key hkey => ?_⟩
    · rw [getAllocDeps, hname]
    · rw [hname] at hkey
      cases hkey
  | some key =>
    obtain ⟨depth₀, hdepth⟩ := @exists_enoughDepth s depthOf
    have hall : ∀ a ∈ s.allocInfoMap.map Prod.fst, ∀ b ∈ allocPointees s depth₀ a, b ∈ s.allocInfoMap.map Prod.fst :=
      fun a _ => mem_keys_allocPointees s depth₀ a
    obtain ⟨dependencies, hdeps⟩ := exists_visit hall (s.named varName key hname) List.nodup_nil
      (fun _ hx => absurd hx List.not_mem_nil) (Nat.lt_succ_self _)
    refine ⟨dependencies, depth₀, (s.allocInfoMap.map Prod.fst).length + 1, fun depth fuel hd hf => ?_, ?_⟩
    · have hdepth' : EnoughDepth s depthOf depth :=
        fun k info t hinfo ht => Nat.lt_of_lt_of_le (hdepth k info t hinfo ht) hd
      rw [getAllocDeps, hname]
      show getAllocDepsInAllocation s depth fuel key [] = _
      rw [getAllocDepsInAllocation_eq hfinite hdepth', allocPointees_eq hfinite hdepth hd]
      exact visit_mono hdeps hf
    · intro key' hkey'
      obtain rfl : key = key' := Option.some.inj (hname.symm.trans hkey')
      obtain ⟨hnodup, hmem⟩ := visit_nil hdeps
      refine ⟨hnodup, fun k => (hmem k).trans ⟨?_, ?_⟩⟩
      · intro hreach
        induction hreach with
        | refl => exact .refl
        | tail _ hstep ih =>
          exact ih.tail ((mem_allocPointees hfinite hdepth (hstraight key hname _ ih)).mp hstep)
      · intro hreach
        induction hreach with
        | refl => exact .refl
        | tail hreach hstep ih =>
          exact ih.tail ((mem_allocPointees hfinite hdepth (hstraight key hname _ hreach)).mpr hstep)

/-- `struct Node { Node * next; Part parts[2]; }` and `struct Part { double * value; }`, and two nodes that point to
    each other. -/
def twoNodes : ManagerState where
  types :=
    { members
        | 0 => [{ name := "next", type := .structured, size := 24, attr := some 0, dims := [0] },
                { name := "parts", type := .structured, size := 8, offset := 8, attr := some 1, dims := [2] }]
        | 1 => [{ name := "value", type := .double, size := 8, dims := [0] }]
        | _ => []
      depth t := 1 - t
      embedded := by
        intro t a ha hembedded
        split at ha
        · rcases List.mem_cons.mp ha with rfl | ha
          · exact absurd rfl (hembedded.2.2.2 0 List.mem_cons_self)
          · rw [List.mem_singleton.mp ha]
            exact ⟨1, rfl, by decide⟩
        · rw [List.mem_singleton.mp ha] at hembedded
          exact absurd hembedded.1 (by decide)
        · exact absurd ha List.not_mem_nil }
  memory :=
    { byte := fun x => if x = 64 then 128 else if x = 128 then 64 else 0
      apart := apart_of_no_strings }
  allocInfoMap :=
    [(128, { start := 128, lastByte := 151, size := 24, type := .structured, attr := some 0, num := 1 }),
     (64, { start := 64, lastByte := 87, name := some "head", size := 24, type := .structured, attr := some 0, num := 1 })]
  sorted := by decide
  variableMap name := if name = "head" then some 64 else none
  named := by
    intro name key h
    split at h
    · rw [← Option.some.inj h]
      decide
    · cases h

/-- A cycle of pointers. -/
theorem getAllocDeps_exact_twoNodes : ExactDependencies twoNodes "head" := by
  have hmembers : ∀ t, ∀ a ∈ twoNodes.types.members t, a.dims.length ≤ 1 ∧ ¬ a.isReference ∧
      (a.type = .structured → ¬ a.OfPointers → ∀ t', a.attr = some t' → 1 - t' < 1 - t) := by
    intro t a ha
    dsimp only [twoNodes] at ha
    split at ha
    · rcases List.mem_cons.mp ha with rfl | ha
      · exact ⟨by decide, by decide, fun _ h => absurd ⟨0, List.mem_cons_self, rfl⟩ h⟩
      · rw [List.mem_singleton.mp ha]
        refine ⟨by decide, by decide, fun _ _ t' ht' => ?_⟩
        obtain rfl : 1 = t' := Option.some.inj ht'
        decide
    · rw [List.mem_singleton.mp ha]
      exact ⟨by decide, by decide, fun h => absurd h (by decide)⟩
    · exact absurd ha List.not_mem_nil
  refine getAllocDeps_exact twoNodes "head" (fun t => 1 - t) ⟨?_, ?_⟩ ?_
  · exact fun t a ha _ => (hmembers t a ha).2.2
  · exact fun t a ha href => absurd href (hmembers t a ha).2.1
  · intro key _ k _ info hinfo
    refine allStraight_of_oneDimension (fun t a ha => (hmembers t a ha).1) ?_ info.start
    obtain ⟨e, he, rfl⟩ := Option.map_eq_some_iff.mp hinfo
    rcases List.mem_cons.mp (List.mem_of_find?_eq_some he) with rfl | he
    · exact Nat.zero_le 1
    · rw [List.mem_singleton.mp he]
      exact Nat.zero_le 1

end Trick.Memory
