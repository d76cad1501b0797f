/-
  `is_nil_valued`: what a reduced checkpoint leaves out.

  Data:           the memory, the attributes of what is at an address, and the element that is asked about.
  Program:        `nilObject` is the test of one element, with the stride that the source has for its type;
                  `nilDims` is the recursion over the dimensions, and `assignRvalue` takes any result but zero as true.
  Specification:  `Sound`: the test has a result; what is left out is nil, and what is not nil, or cannot be tested,
                  is written.
  Result:         `isNilValued_sound_iff`: so it is exactly if there is a test for the type, and, for strings, which
                  are tested at intervals of a pointer's size, the first one that is tested is not empty, or is the
                  only one.
-/
import Trick.Lib.RowMajor
import Trick.MemoryManager.ObjectMemory

namespace Trick.Memory

open Trick.Lib (flatMap_places)

/-! ## The program -/

/-- `return(1)` or, at the end, `return(0)`. -/
def nilResult (p : Prop) [Decidable p] : Option Int := some (if p then 1 else 0)

/-- **The test of a single object**, the element number `offset` from the address; there is no result where a string
    is read from an address at which there is none. -/
def nilObject (m : ObjectMemory) (a : Attributes) (address offset : Nat) : Option Int :=
  match a.type with
  | .character | .unsignedCharacter => nilResult (m.value (address + offset * 1) 1 = 0)
  | .boolean => nilResult (m.value (address + offset * 1) 1 = 0)
  | .wchar => nilResult (m.value (address + offset * 4) 4 = 0)
  | .short | .unsignedShort => nilResult (m.value (address + offset * 2) 2 = 0)
  | .integer | .unsignedInteger => nilResult (m.value (address + offset * 4) 4 = 0)
  | .enumerated =>
    if a.size = 4 then nilResult (m.value (address + offset * 4) 4 = 0)
    else if a.size = 2 then nilResult (m.value (address + offset * 2) 2 = 0)
    else if a.size = 1 then nilResult (m.value (address + offset * 1) 1 = 0)
    else some (-1)
  | .long | .unsignedLong => nilResult (m.value (address + offset * 8) 8 = 0)
  | .float => nilResult (m.FloatZero (address + offset * 4) 4)
  | .double => nilResult (m.FloatZero (address + offset * 8) 8)
  | .longLong | .unsignedLongLong => nilResult (m.value (address + offset * 8) 8 = 0)
  | .bitfield | .unsignedBitfield =>
    if a.size = 4 then nilResult (m.value (address + offset * a.size) 4 = 0)
    else if a.size = 2 then nilResult (m.value (address + offset * a.size) 2 = 0)
    else if a.size = 1 then nilResult (m.value (address + offset * a.size) 1 = 0)
    else some (-1)
  | .filePtr => some 0
  -- the stride of the source is `sizeof(void*)`
  | .string => (m.string (address + offset * sizeofPointer)).bind fun s => nilResult (s = [])
  | .wstring => (m.wstring (address + offset * sizeofString)).bind fun s => nilResult (s = [])
  -- "Can't test properly, always return 0 to indicate the STL is not empty."
  | .stl => some 0
  | .void | .voidPtr | .structured | .opaqueType => some (-1)

/-- "if (!(zerotest == 1)) return(zerotest)", and at the end `return(1)`. -/
def firstNot (results : List (Option Int)) : Option Int := (results.find? (· ≠ some 1)).getD (some 1)

/-- The recursion over the dimensions that remain. -/
def nilDims (m : ObjectMemory) (a : Attributes) (address : Nat) : List Nat → Nat → Option Int
  | [], offset => nilObject m a address offset
  | size :: dims, offset =>
    -- "If the array is unconstrained (i.e., it's a pointer) …"
    if size = 0 then nilResult (m.value (address + offset * sizeofPointer) sizeofPointer = 0)
    else firstNot ((List.range size).map fun ii => nilDims m a address dims (offset * size + ii))

/-- **`is_nil_valued`** -/
def isNilValued (m : ObjectMemory) (address : Nat) (a : Attributes) (currDim offset : Nat) : Option Int :=
  if currDim ≤ a.numIndex then nilDims m a address (a.dims.drop currDim) offset else some (-1)

/-- **`assign_rvalue`**: whether the assignment is written. -/
def assignRvalue (reducedCheckpoint : Bool) (m : ObjectMemory) (address : Nat) (a : Attributes) (currDim offset : Nat) :
    Option Bool :=
  if ¬ outputPermCheck a then some false
  else if reducedCheckpoint then (isNilValued m address a currDim offset).map fun result => decide (result = 0)
  else some true

/-! ## What is wanted -/

/-- The dimensions of the elements that are asked about. -/
def elementDims (a : Attributes) (currDim : Nat) : List Nat := (a.dims.drop currDim).takeWhile (· ≠ 0)

/-- The elements are pointers. -/
def Pointers (a : Attributes) (currDim : Nat) : Prop := ∃ d ∈ a.dims.drop currDim, d = 0

instance (a : Attributes) (currDim : Nat) : Decidable (Pointers a currDim) :=
  inferInstanceAs (Decidable (∃ d ∈ _, _))

/-- **The elements** that an offset stands for, by their numbers. -/
def elements (a : Attributes) (currDim offset : Nat) : List Nat :=
  List.range' (offset * (elementDims a currDim).prod) (elementDims a currDim).prod

/-- All of them are nil. -/
def AllNil (m : ObjectMemory) (address : Nat) (a : Attributes) (currDim offset : Nat) : Prop :=
  ∀ k ∈ elements a currDim offset, NilElement m a (Pointers a currDim) address k

/-- **The nil test is sound**: what is left out is nil, and what is not nil or cannot be tested is written. -/
structure Sound (m : ObjectMemory) (address : Nat) (a : Attributes) (currDim offset : Nat) : Prop where
  nil : isNilValued m address a currDim offset = some 1 → AllNil m address a currDim offset
  written : ∃ r, isNilValued m address a currDim offset = some r ∧
    (¬ AllNil m address a currDim offset ∨ r = -1 →
      ∀ reduced, assignRvalue reduced m address a currDim offset = some true)

/-- The elements are objects of the type. -/
structure Holds (m : ObjectMemory) (address : Nat) (a : Attributes) (currDim offset : Nat) : Prop where
  string : a.type = .string → ∀ k ∈ elements a currDim offset, (m.string (address + k * sizeofString)).isSome
  wstring : a.type = .wstring → ∀ k ∈ elements a currDim offset, (m.wstring (address + k * sizeofString)).isSome

/-- There is a test for the type. -/
def Attributes.HasTest (a : Attributes) : Prop :=
  match a.type with
  | .enumerated | .bitfield | .unsignedBitfield => a.size = 4 ∨ a.size = 2 ∨ a.size = 1
  | .void | .voidPtr | .structured | .opaqueType => False
  | _ => True

/-- **The first string that is tested** is one, and it is not empty, or it is the only one, and so is the first of
    the elements empty. -/
def StringTested (m : ObjectMemory) (address : Nat) (a : Attributes) (currDim offset : Nat) : Prop :=
  ∃ s, m.string (address + offset * (elementDims a currDim).prod * sizeofPointer) = some s ∧
    (s ≠ [] ∨ (elementDims a currDim).prod = 1 ∧
      m.string (address + offset * (elementDims a currDim).prod * sizeofString) = some [])

/-- **What the test can tell.** -/
structure Testable (m : ObjectMemory) (address : Nat) (a : Attributes) (currDim offset : Nat) : Prop where
  depth : currDim ≤ a.numIndex
  test : ¬ Pointers a currDim → a.HasTest
  string : ¬ Pointers a currDim → a.type = .string → StringTested m address a currDim offset

/-! ## The recursion is a loop over the elements -/

section FirstNot

variable {α : Type*}

theorem firstNot_cons (x : Option Int) (l : List (Option Int)) :
    firstNot (x :: l) = if x = some 1 then firstNot l else x := by
  unfold firstNot
  by_cases hx : x = some 1
  · rw [if_pos hx, hx]
    rfl
  · rw [if_neg hx, List.find?_cons, decide_eq_true hx]
    rfl

theorem firstNot_singleton (x : Option Int) : firstNot [x] = x := by
  rw [firstNot_cons]
  split
  · rename_i hx
    exact hx.symm
  · rfl

theorem firstNot_append (l l' : List (Option Int)) :
    firstNot (l ++ l') = if firstNot l = some 1 then firstNot l' else firstNot l := by
  induction l with
  | nil => rfl
  | cons x l ih =>
    rw [List.cons_append, firstNot_cons, firstNot_cons, ih]
    by_cases hx : x = some 1
    · rw [if_pos hx, if_pos hx]
    · rw [if_neg hx, if_neg hx, if_neg hx]

/-- A loop over loops. -/
theorem firstNot_flatMap (l : List α) (f : α → List (Option Int)) :
    firstNot (l.map fun i => firstNot (f i)) = firstNot (l.flatMap f) := by
  induction l with
  | nil => rfl
  | cons x l ih => rw [List.map_cons, firstNot_cons, List.flatMap_cons, firstNot_append, ih]

/-- **What a loop tells**: some element is not nil, or all of them have the property. -/
theorem firstNot_spec {l : List α} {f : α → Option Int} {p : α → Prop}
    (h : ∀ k ∈ l, f k = some 0 ∨ f k = some 1 ∧ p k) :
    firstNot (l.map f) = some 0 ∨ firstNot (l.map f) = some 1 ∧ ∀ k ∈ l, p k := by
  induction l with
  | nil => exact .inr ⟨rfl, fun k hk => absurd hk List.not_mem_nil⟩
  | cons k l ih =>
    obtain ⟨hk, hl⟩ := List.forall_mem_cons.mp h
    rw [List.map_cons, firstNot_cons]
    rcases hk with hzero | ⟨hone, hp⟩
    · rw [if_neg (by rw [hzero]; decide)]
      exact .inl hzero
    · rw [if_pos hone]
      rcases ih hl with hfound | ⟨hall, hrest⟩
      · exact .inl hfound
      · exact .inr ⟨hall, List.forall_mem_cons.mpr ⟨hp, hrest⟩⟩

end FirstNot

section Test

variable {m : ObjectMemory} {address currDim offset : Nat} {a : Attributes}

/-- The test of an element: an object, or a pointer. -/
def elementTest (m : ObjectMemory) (a : Attributes) (pointer : Prop) [Decidable pointer] (address k : Nat) :
    Option Int :=
  if pointer then nilResult (m.value (address + k * sizeofPointer) sizeofPointer = 0) else nilObject m a address k

theorem nilDims_eq (dims : List Nat) (offset : Nat) : nilDims m a address dims offset =
    firstNot ((List.range' (offset * (dims.takeWhile (· ≠ 0)).prod) (dims.takeWhile (· ≠ 0)).prod).map
      (elementTest m a (∃ d ∈ dims, d = 0) address)) := by
  induction dims generalizing offset with
  | nil =>
    show _ = firstNot ((List.range' (offset * 1) 1).map _)
    rw [Nat.mul_one, List.range'_one, List.map_singleton, firstNot_singleton]
    unfold elementTest
    rw [if_neg fun ⟨d, hd, _⟩ => absurd hd List.not_mem_nil]
    rfl
  | cons size dims ih =>
    by_cases hsize : size = 0
    · -- a pointer
      rw [nilDims, if_pos hsize, List.takeWhile_cons, hsize]
      show _ = firstNot ((List.range' (offset * 1) 1).map _)
      rw [Nat.mul_one, List.range'_one, List.map_singleton, firstNot_singleton]
      unfold elementTest
      rw [if_pos ⟨0, List.mem_cons_self, rfl⟩]
    · have hsame : (∃ d ∈ size :: dims, d = 0) = ∃ d ∈ dims, d = 0 := by
        refine propext ⟨?_, fun ⟨d, hd, hzero⟩ => ⟨d, List.mem_cons_of_mem _ hd, hzero⟩⟩
        rintro ⟨d, hd, hzero⟩
        rcases List.mem_cons.mp hd with rfl | hd
        · exact absurd hzero hsize
        · exact ⟨d, hd, hzero⟩
      have htest : elementTest m a (∃ d ∈ size :: dims, d = 0) address = elementTest m a (∃ d ∈ dims, d = 0) address := by
        funext k
        unfold elementTest
        simp only [hsame]
      rw [nilDims, if_neg hsize, List.takeWhile_cons, if_pos (decide_eq_true hsize), List.prod_cons, htest]
      simp only [ih]
      rw [firstNot_flatMap, ← List.map_flatMap, ← Nat.mul_assoc, ← flatMap_places]
      simp only [Nat.add_mul]

/-- **The whole test**, over the elements in their order. -/
theorem isNilValued_eq (h : currDim ≤ a.numIndex) : isNilValued m address a currDim offset =
    firstNot ((elements a currDim offset).map (elementTest m a (Pointers a currDim) address)) := by
  unfold isNilValued
  rw [if_pos h, nilDims_eq]
  rfl

/-- There are elements. -/
theorem elements_eq (a : Attributes) (currDim offset : Nat) : elements a currDim offset =
    offset * (elementDims a currDim).prod ::
      List.range' (offset * (elementDims a currDim).prod + 1) ((elementDims a currDim).prod - 1) := by
  have hne : (elementDims a currDim).prod ≠ 0 := by
    refine List.prod_ne_zero fun h => ?_
    have hzero := List.mem_takeWhile_imp h
    exact absurd hzero (by decide)
  unfold elements
  obtain ⟨n, hn⟩ := Nat.exists_eq_succ_of_ne_zero hne
  rw [hn]
  rfl

theorem nilResult_spec {p q : Prop} [Decidable p] (h : p → q) :
    nilResult p = some 0 ∨ nilResult p = some 1 ∧ q := by
  unfold nilResult
  by_cases hp : p
  · rw [if_pos hp]
    exact .inr ⟨rfl, h hp⟩
  · rw [if_neg hp]
    exact .inl rfl

/-- A storage unit that is zero has no field that is not. -/
theorem fieldValue_of_value (h : m.value address a.size = 0) : fieldValue m a address = 0 := by
  unfold fieldValue
  rw [h, Nat.zero_div, Nat.zero_mod]

/-- The test of a bit-field, by the size of its storage unit. -/
theorem storageUnit_spec (h : a.size = 4 ∨ a.size = 2 ∨ a.size = 1) :
    (if a.size = 4 then nilResult (m.value address 4 = 0) else if a.size = 2 then nilResult (m.value address 2 = 0)
      else if a.size = 1 then nilResult (m.value address 1 = 0) else some (-1)) = some 0 ∨
    (if a.size = 4 then nilResult (m.value address 4 = 0) else if a.size = 2 then nilResult (m.value address 2 = 0)
      else if a.size = 1 then nilResult (m.value address 1 = 0) else some (-1)) = some 1 ∧
      fieldValue m a address = 0 := by
  have hzero : m.value address a.size = 0 → fieldValue m a address = 0 := fieldValue_of_value
  rcases h with h | h | h
  · rw [if_pos h]
    exact nilResult_spec fun hvalue => hzero (by rw [h]; exact hvalue)
  · rw [if_neg (by omega), if_pos h]
    exact nilResult_spec fun hvalue => hzero (by rw [h]; exact hvalue)
  · rw [if_neg (by omega), if_neg (by omega), if_pos h]
    exact nilResult_spec fun hvalue => hzero (by rw [h]; exact hvalue)

/-- **The test of an object** that has a test, if it is no string: one means nil, and otherwise it is zero. -/
theorem nilObject_spec {k : Nat} (htest : a.HasTest) (hstring : a.type ≠ .string)
    (hwstring : a.type = .wstring → (m.wstring (address + k * sizeofString)).isSome) :
    nilObject m a address k = some 0 ∨
      nilObject m a address k = some 1 ∧ NilObject m a (address + k * a.stride) := by
  have hfield := @storageUnit_spec m (address + k * a.size) a
  unfold Attributes.HasTest at htest
  unfold nilObject NilObject Attributes.stride
  cases htype : a.type <;> rw [htype] at htest <;> dsimp only at htest ⊢
  case string => exact absurd htype hstring
  case wstring =>
    obtain ⟨s, hs⟩ := Option.isSome_iff_exists.mp (hwstring htype)
    rw [hs]
    exact nilResult_spec (congrArg some)
  case enumerated =>
    rcases htest with h | h | h <;> rw [h] <;> exact nilResult_spec id
  case bitfield => exact hfield htest
  case unsignedBitfield => exact hfield htest
  all_goals first
    | exact nilResult_spec id
    | exact .inl rfl

/-- An object without a test. -/
theorem nilObject_error {k : Nat} (htest : ¬ a.HasTest) : nilObject m a address k = some (-1) := by
  unfold Attributes.HasTest at htest
  unfold nilObject
  cases htype : a.type <;> rw [htype] at htest <;> dsimp only at htest ⊢
  case enumerated =>
    obtain ⟨h4, h2, h1⟩ : a.size ≠ 4 ∧ a.size ≠ 2 ∧ a.size ≠ 1 := by omega
    rw [if_neg h4, if_neg h2, if_neg h1]
  case bitfield =>
    obtain ⟨h4, h2, h1⟩ : a.size ≠ 4 ∧ a.size ≠ 2 ∧ a.size ≠ 1 := by omega
    rw [if_neg h4, if_neg h2, if_neg h1]
  case unsignedBitfield =>
    obtain ⟨h4, h2, h1⟩ : a.size ≠ 4 ∧ a.size ≠ 2 ∧ a.size ≠ 1 := by omega
    rw [if_neg h4, if_neg h2, if_neg h1]
  all_goals first
    | rfl
    | exact absurd trivial htest

/-- The test of an element that is a pointer, or has a test and is no string. -/
theorem elementTest_spec (hholds : Holds m address a currDim offset) (htest : ¬ Pointers a currDim → a.HasTest)
    (hstring : ¬ Pointers a currDim → a.type ≠ .string) :
    ∀ k ∈ elements a currDim offset, elementTest m a (Pointers a currDim) address k = some 0 ∨
      elementTest m a (Pointers a currDim) address k = some 1 ∧ NilElement m a (Pointers a currDim) address k := by
  intro k hk
  unfold elementTest NilElement
  by_cases hpointer : Pointers a currDim
  · rw [if_pos hpointer, if_pos hpointer]
    exact nilResult_spec id
  · rw [if_neg hpointer, if_neg hpointer]
    exact nilObject_spec (htest hpointer) (hstring hpointer) fun htype => hholds.wstring htype k hk

/-! ## What follows from the result -/

/-- **A test that tells** whether all is nil is sound. -/
theorem sound_of_result (hio : outputPermCheck a)
    (h : isNilValued m address a currDim offset = some 0 ∨
      isNilValued m address a currDim offset = some 1 ∧ AllNil m address a currDim offset) :
    Sound m address a currDim offset := by
  rcases h with hzero | ⟨hone, hall⟩
  · refine ⟨fun hno => ?_, 0, hzero, fun _ reduced => ?_⟩
    · rw [hzero] at hno
      exact absurd (Option.some.inj hno) (by decide)
    · unfold assignRvalue
      rw [if_neg (not_not.mpr hio), hzero]
      cases reduced <;> rfl
  · refine ⟨fun _ => hall, 1, hone, ?_⟩
    rintro (hno | hno)
    · exact absurd hall hno
    · exact absurd hno (by decide)

/-- **An error** is taken as true. -/
theorem not_sound_of_error (hio : outputPermCheck a) (h : isNilValued m address a currDim offset = some (-1)) :
    ¬ Sound m address a currDim offset := by
  intro hsound
  obtain ⟨r, hr, hwritten⟩ := hsound.written
  rw [h] at hr
  have hassign := hwritten (.inr (Option.some.inj hr).symm) true
  unfold assignRvalue at hassign
  rw [if_neg (not_not.mpr hio), h] at hassign
  exact absurd hassign (by decide)

theorem nilObject_string (htype : a.type = .string) (k : Nat) : nilObject m a address k =
    (m.string (address + k * sizeofPointer)).bind fun s => nilResult (s = []) := by
  unfold nilObject
  rw [htype]

/-- **Strings**: no string starts at the place of the second test if one starts at that of the first. -/
theorem nilDims_string (hpointer : ¬ Pointers a currDim) (htype : a.type = .string) (hdepth : currDim ≤ a.numIndex) :
    isNilValued m address a currDim offset =
      (m.string (address + offset * (elementDims a currDim).prod * sizeofPointer)).bind fun s =>
        if s = [] then if (elementDims a currDim).prod = 1 then some 1 else none else some 0 := by
  have helement : ∀ k, elementTest m a (Pointers a currDim) address k =
      (m.string (address + k * sizeofPointer)).bind fun s => nilResult (s = []) := by
    intro k
    unfold elementTest
    rw [if_neg hpointer, nilObject_string htype]
  rw [isNilValued_eq hdepth, elements_eq, List.map_cons, firstNot_cons, helement]
  cases hs : m.string (address + offset * (elementDims a currDim).prod * sizeofPointer) with
  | none => rfl
  | some s =>
    show (if nilResult (s = []) = some 1 then _ else nilResult (s = [])) = if s = [] then _ else some 0
    unfold nilResult
    by_cases hempty : s = []
    · rw [if_pos hempty, if_pos hempty, if_pos rfl]
      by_cases hone : (elementDims a currDim).prod = 1
      · rw [if_pos hone, hone]
        rfl
      · rw [if_neg hone]
        have hmore : ∃ n, (elementDims a currDim).prod - 1 = n + 1 := by
          have hlength := congrArg List.length (elements_eq a currDim offset)
          unfold elements at hlength
          rw [List.length_range', List.length_cons, List.length_range'] at hlength
          exact ⟨(elementDims a currDim).prod - 2, by omega⟩
        obtain ⟨n, hn⟩ := hmore
        have hnone : m.string (address + (offset * (elementDims a currDim).prod + 1) * sizeofPointer) = none := by
          by_contra hsome
          have hfirst : (m.string (address + offset * (elementDims a currDim).prod * sizeofPointer)).isSome := by
            rw [hs]
            rfl
          have hapart := m.apart _ _ hfirst (Option.isSome_iff_ne_none.mpr hsome) (by
            rw [Nat.add_mul]
            unfold sizeofPointer
            omega)
          unfold sizeofPointer sizeofString at hapart
          omega
        rw [hn, List.range'_succ, List.map_cons, firstNot_cons, helement, hnone]
        rfl
    · rw [if_neg hempty, if_neg hempty, if_neg (by decide)]

/-! ## Result -/

/-- **The nil test is sound if and only if** the number of the dimension is one of the member, there is a test for the
    type, and, of strings, the first that is tested is not empty, or is the only one and tells of the element. -/
theorem isNilValued_sound_iff (hio : outputPermCheck a) (hholds : Holds m address a currDim offset) :
    Sound m address a currDim offset ↔ Testable m address a currDim offset := by
  constructor
  · intro hsound
    have hdepth : currDim ≤ a.numIndex := by
      by_contra hdepth
      exact not_sound_of_error hio (if_neg hdepth) hsound
    refine ⟨hdepth, ?_, ?_⟩
    · intro hpointer
      by_contra htest
      refine not_sound_of_error hio ?_ hsound
      rw [isNilValued_eq hdepth, elements_eq, List.map_cons, firstNot_cons]
      unfold elementTest
      rw [if_neg hpointer, nilObject_error htest, if_neg (by decide)]
    · intro hpointer htype
      have hresult := @nilDims_string m address currDim offset a hpointer htype hdepth
      obtain ⟨r, hr, -⟩ := hsound.written
      rw [hresult] at hr
      obtain ⟨s, hs, hr⟩ := Option.bind_eq_some_iff.mp hr
      refine ⟨s, hs, ?_⟩
      by_cases hempty : s = []
      · rw [if_pos hempty] at hr
        by_cases hone : (elementDims a currDim).prod = 1
        · -- the only string: what is left out has to be empty
          have hnil := hsound.nil (by rw [hresult, hs, Option.bind_some, if_pos hempty, if_pos hone])
          have hfirst := hnil (offset * (elementDims a currDim).prod) (by
            rw [elements_eq]
            exact List.mem_cons_self)
          unfold NilElement NilObject Attributes.stride at hfirst
          rw [if_neg hpointer, htype] at hfirst
          exact .inr ⟨hone, hfirst⟩
        · rw [if_neg hone] at hr
          cases hr
      · exact .inl hempty
  · intro htestable
    refine sound_of_result hio ?_
    by_cases hstring : ¬ Pointers a currDim ∧ a.type = .string
    · obtain ⟨hpointer, htype⟩ := hstring
      obtain ⟨s, hs, hfirst⟩ := htestable.string hpointer htype
      rw [nilDims_string hpointer htype htestable.depth, hs, Option.bind_some]
      by_cases hempty : s = []
      · obtain ⟨hone, helement⟩ := hfirst.resolve_left (not_not.mpr hempty)
        rw [if_pos hempty, if_pos hone]
        refine .inr ⟨rfl, ?_⟩
        intro k hk
        rw [elements_eq, hone] at hk
        obtain rfl := List.mem_singleton.mp hk
        unfold NilElement NilObject Attributes.stride
        rw [if_neg hpointer, htype]
        rw [hone] at helement
        exact helement
      · rw [if_neg hempty]
        exact .inl rfl
    · rw [isNilValued_eq htestable.depth]
      exact firstNot_spec (elementTest_spec hholds htestable.test fun hpointer htype => hstring ⟨hpointer, htype⟩)

end Test

/-- A memory of zeros. -/
def zeroMemory : ObjectMemory where
  byte _ := 0
  apart := apart_of_no_strings

/-- An array of numbers that are all zero. -/
theorem sound_zeroMemory : Sound zeroMemory 64 { name := "x", type := .double, size := 8, dims := [2, 3] } 0 0 := by
  refine (isNilValued_sound_iff (by decide) ⟨?_, ?_⟩).mpr ⟨by decide, fun _ => trivial, ?_⟩
  · intro htype
    cases htype
  · intro htype
    cases htype
  · intro _ htype
    cases htype

/-- `std::string s[2] = { "", "a" };` at the address 64, and `enum E : long { … } e = 1;` at 128. -/
def twoStrings : ObjectMemory where
  byte a := if a = 128 then 1 else 0
  string a := if a = 64 then some [] else if a = 96 then some [97] else none
  apart a b ha hb hlt := by
    have hplaces : ∀ c : Nat, (if c = 64 then some [] else if c = 96 then some [97] else none :
        Option (List UInt8)).isSome → c = 64 ∨ c = 96 := by
      intro c hc
      split_ifs at hc with h64 h96
      · exact .inl h64
      · exact .inr h96
      · cases hc
    have ha' := hplaces a ha
    have hb' := hplaces b hb
    unfold sizeofString
    omega

/-- The second string is not tested, but something at eight bytes after the first; and an enumeration of eight bytes,
    which cannot be tested, is left out. -/
theorem not_sound_twoStrings :
    ¬ Sound twoStrings 64 { name := "s", type := .string, size := 32, dims := [2] } 0 0 ∧
      ¬ Sound twoStrings 128 { name := "e", type := .enumerated, size := 8 } 0 0 := by
  refine ⟨?_, not_sound_of_error (by decide) (by decide)⟩
  intro hsound
  obtain ⟨r, hr, -⟩ := hsound.written
  rw [nilDims_string (by decide) rfl (by decide)] at hr
  cases hr

end Trick.Memory
