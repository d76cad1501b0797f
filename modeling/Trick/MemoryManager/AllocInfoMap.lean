/-
  The two maps of the memory manager, and the renaming of an allocation.

  Data:           both maps lead to records of allocations, which are found by a pointer.
  Program:        `setNameAt` changes the record before it asks whether the name is taken, and enters the new name
                  beside the one that there was.
  Specification:  `Atomic`: a renaming that fails changes no name, and one that succeeds leaves the allocation
                  under its new name only.
  Result:         `setNameAt_atomic_iff`: so it is exactly if there is no allocation at the address, or it has that
                  name already, or the name is free and no name leads to the allocation.
-/
import Mathlib.Logic.Function.Basic
import Trick.MemoryManager.Attributes

namespace Trick.Memory

/-! ## The maps -/

/-- **The memory manager**: the maps from addresses and from names to records. -/
structure MemoryManager where
  allocInfoMap : Nat → Option Nat
  variableMap : String → Option Nat
  allocInfo : Nat → AllocInfo

/-- `get_alloc_info_at` -/
def getAllocInfoAt (mm : MemoryManager) (addr : Nat) : Option Nat := mm.allocInfoMap addr

/-- **`set_name_at`**: the number that is returned, and the maps after it. -/
def setNameAt (mm : MemoryManager) (addr : Nat) (name : String) : Int × MemoryManager :=
  match mm.allocInfoMap addr with
  | some pos =>
    let mm := { mm with
      allocInfo := Function.update mm.allocInfo pos { mm.allocInfo pos with name := some name } }
    match mm.variableMap name with
    -- "Call to set_name_at() failed because a variable named … already exists."
    | some _ => (-1, mm)
    | none => (0, { mm with variableMap := Function.update mm.variableMap name (some pos) })
  | none => (-1, mm)

/-! ## What is wanted -/

/-- Nothing that names an allocation has changed. -/
def SameNames (mm mm' : MemoryManager) : Prop :=
  mm'.variableMap = mm.variableMap ∧ ∀ p, (mm'.allocInfo p).name = (mm.allocInfo p).name

/-- **The allocation has the new name**, and is found by no other; the other names are as they were. -/
def Renamed (mm mm' : MemoryManager) (addr : Nat) (name : String) : Prop :=
  ∃ pos, mm.allocInfoMap addr = some pos ∧ (mm'.allocInfo pos).name = some name ∧
    (∀ n, mm'.variableMap n = some pos ↔ n = name) ∧
    ∀ p, p ≠ pos → (mm'.allocInfo p).name = (mm.allocInfo p).name ∧
      ∀ n, mm'.variableMap n = some p ↔ mm.variableMap n = some p

/-- **A renaming is atomic**: it fails and changes no name, or it succeeds. -/
def Atomic (mm : MemoryManager) (addr : Nat) (name : String) : Prop :=
  (setNameAt mm addr name).1 ≠ 0 ∧ SameNames mm (setNameAt mm addr name).2 ∨
    (setNameAt mm addr name).1 = 0 ∧ Renamed mm (setNameAt mm addr name).2 addr name

/-! ## The three ways through the function -/

section Cases

variable {mm : MemoryManager} {addr : Nat} {name : String} {pos : Nat}

/-- The record of a name. -/
def named (mm : MemoryManager) (pos : Nat) (name : String) : Nat → AllocInfo :=
  Function.update mm.allocInfo pos { mm.allocInfo pos with name := some name }

theorem name_named (mm : MemoryManager) (pos : Nat) (name : String) : (named mm pos name pos).name = some name := by
  unfold named
  rw [Function.update_self]

theorem named_other {p : Nat} (h : p ≠ pos) : named mm pos name p = mm.allocInfo p := Function.update_of_ne h _ _

theorem setNameAt_unmanaged (h : mm.allocInfoMap addr = none) : setNameAt mm addr name = (-1, mm) := by
  unfold setNameAt
  rw [h]

theorem setNameAt_taken (h : mm.allocInfoMap addr = some pos) {q : Nat} (hname : mm.variableMap name = some q) :
    setNameAt mm addr name = (-1, { mm with allocInfo := named mm pos name }) := by
  unfold setNameAt
  rw [h]
  dsimp only
  rw [hname]
  rfl

theorem setNameAt_free (h : mm.allocInfoMap addr = some pos) (hname : mm.variableMap name = none) :
    setNameAt mm addr name = (0, { mm with
      allocInfo := named mm pos name, variableMap := Function.update mm.variableMap name (some pos) }) := by
  unfold setNameAt
  rw [h]
  dsimp only
  rw [hname]
  rfl

/-- A name that is taken: only the name of the record can have changed. -/
theorem sameNames_named : SameNames mm { mm with allocInfo := named mm pos name } ↔
    (mm.allocInfo pos).name = some name := by
  constructor
  · rintro ⟨-, hnames⟩
    rw [← hnames pos]
    exact name_named mm pos name
  · intro hsame
    refine ⟨rfl, ?_⟩
    intro p
    by_cases hp : p = pos
    · rw [hp, hsame]
      exact name_named mm pos name
    · exact congrArg AllocInfo.name (named_other hp)

/-- A name that is free: only the names that there were can be too many. -/
theorem renamed_update (h : mm.allocInfoMap addr = some pos) (hname : mm.variableMap name = none) :
    Renamed mm { mm with
      allocInfo := named mm pos name, variableMap := Function.update mm.variableMap name (some pos) } addr name ↔
      ∀ n, mm.variableMap n ≠ some pos := by
  constructor
  · rintro ⟨pos', hpos', -, honly, -⟩ n hn
    obtain rfl : pos = pos' := Option.some.inj (h.symm.trans hpos')
    have hne : n ≠ name := by
      rintro rfl
      rw [hname] at hn
      cases hn
    refine hne ((honly n).mp ?_)
    show Function.update mm.variableMap name (some pos) n = some pos
    rw [Function.update_of_ne hne]
    exact hn
  · intro hnone
    refine ⟨pos, h, name_named mm pos name, ?_, ?_⟩
    · intro n
      by_cases hn : n = name
      · rw [hn]
        exact ⟨fun _ => rfl, fun _ => Function.update_self name (some pos) mm.variableMap⟩
      · refine ⟨fun hfound => ?_, fun hsame => absurd hsame hn⟩
        exact absurd ((Function.update_of_ne hn (some pos) mm.variableMap).symm.trans hfound) (hnone n)
    · intro p hp
      refine ⟨congrArg AllocInfo.name (named_other hp), ?_⟩
      intro n
      show Function.update mm.variableMap name (some pos) n = some p ↔ _
      by_cases hn : n = name
      · rw [hn, Function.update_self, hname]
        exact ⟨fun hsome => absurd (Option.some.inj hsome).symm hp, nofun⟩
      · rw [Function.update_of_ne hn]

end Cases

/-! ## Result -/

/-- **A renaming is atomic if and only if** there is no allocation at the address, or the name is taken and the
    allocation has it already, or the name is free and no name leads to the allocation. -/
theorem setNameAt_atomic_iff (mm : MemoryManager) (addr : Nat) (name : String) :
    Atomic mm addr name ↔ ∀ pos, mm.allocInfoMap addr = some pos →
      (mm.variableMap name ≠ none → (mm.allocInfo pos).name = some name) ∧
        (mm.variableMap name = none → ∀ n, mm.variableMap n ≠ some pos) := by
  unfold Atomic
  cases hpos : mm.allocInfoMap addr with
  | none =>
    rw [setNameAt_unmanaged hpos]
    refine ⟨?_, fun _ => .inl ⟨?_, rfl, fun _ => rfl⟩⟩
    · intro _ pos h
      cases h
    · show (-1 : Int) ≠ 0
      decide
  | some pos =>
    cases hname : mm.variableMap name with
    | some q =>
      rw [setNameAt_taken hpos hname, sameNames_named]
      constructor
      · rintro (⟨-, hsame⟩ | ⟨hzero, -⟩) pos' h
        · rw [← Option.some.inj h]
          exact ⟨fun _ => hsame, nofun⟩
        · cases hzero
      · intro h
        refine .inl ⟨?_, (h pos rfl).1 nofun⟩
        show (-1 : Int) ≠ 0
        decide
    | none =>
      rw [setNameAt_free hpos hname, renamed_update hpos hname]
      constructor
      · rintro (⟨hfail, -⟩ | ⟨-, hnone⟩) pos' h
        · exact absurd rfl hfail
        · rw [← Option.some.inj h]
          exact ⟨fun hno => absurd rfl hno, fun _ => hnone⟩
      · intro h
        exact .inr ⟨rfl, (h pos rfl).2 rfl⟩

/-- Two allocations, with the names `a` and `b`. -/
def twoAllocations : MemoryManager where
  allocInfoMap addr := if addr = 16 then some 0 else if addr = 32 then some 1 else none
  variableMap name := if name = "a" then some 0 else if name = "b" then some 1 else none
  allocInfo p :=
    { start := 16 + 16 * p, lastByte := 23 + 16 * p, name := some (if p = 0 then "a" else "b"), size := 8,
      type := .double, num := 1 }

/-- A name that is taken is given to the record all the same, and an allocation that had a name is then found by
    both. -/
theorem not_atomic_twoAllocations : ¬ Atomic twoAllocations 16 "b" ∧ ¬ Atomic twoAllocations 16 "c" := by
  refine ⟨?_, ?_⟩
  · rintro (⟨-, hsame⟩ | ⟨hzero, -⟩)
    · exact absurd (hsame.2 0) (by decide)
    · exact absurd hzero (by decide)
  · rintro (⟨hfail, -⟩ | ⟨-, pos, hpos, -, honly, -⟩)
    · exact absurd (show (setNameAt twoAllocations 16 "c").1 = 0 by decide) hfail
    · obtain rfl : 0 = pos := Option.some.inj hpos
      exact absurd ((honly "a").mp (by decide)) (by decide)

end Trick.Memory
