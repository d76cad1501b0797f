/-
  Merging strictly increasing lists by their heads.

  1. **Data.**  `R : List (List α)` are the lists as far as they have not been read.  `current top l` is the head
     of a list, or `top` if the list is exhausted; `soonest top R` is the least of the heads.

  2. **One step** (`advance`): every list whose head is the earliest element loses it.

  3. **Results.**  The earliest element is the least element of all lists (`soonest_le`, `soonest_mem`); a step
     leaves exactly the later ones (`advance_eq`, `exists_mem_advance`, `forall_mem_advance`); all heads agree
     where every list has the earliest element (`agree_iff`).

  Nothing here names a program.
-/
import Mathlib
import Trick.Lib.Earliest

namespace Trick.Lib

variable {α : Type*} [LinearOrder α]

/-- The head of a list, or `top`. -/
def current (top : α) (l : List α) : α := l.head?.getD top

/-- **The least of the heads.** -/
def soonest (top : α) (R : List (List α)) : α := earliest top (R.map (current top))

/-- **One step**: the lists that begin with the earliest element go on. -/
def advance (top : α) (R : List (List α)) : List (List α) :=
  R.map fun l => if l.head? = some (soonest top R) then l.tail else l

/-- Strictly increasing lists with elements up to `top`. -/
def Increasing (top : α) (R : List (List α)) : Prop :=
  ∀ l ∈ R, l.Pairwise (· < ·) ∧ ∀ t ∈ l, t ≤ top

/-- How many elements are left. -/
def total (R : List (List α)) : Nat := (R.map List.length).sum

/-! ## The earliest element -/

variable {top : α} {R : List (List α)} {l : List α} {t : α}

theorem soonest_le_current (hl : l ∈ R) : soonest top R ≤ current top l :=
  earliest_le_of_mem (List.mem_map_of_mem hl)

theorem current_le (hl : l.Pairwise (· < ·)) (ht : t ∈ l) : current top l ≤ t := by
  cases l with
  | nil => exact absurd ht List.not_mem_nil
  | cons a l =>
    rcases List.mem_cons.mp ht with rfl | ht
    · exact le_refl _
    · exact le_of_lt ((List.pairwise_cons.mp hl).1 t ht)

/-- **Nothing is before the earliest element.** -/
theorem soonest_le (hR : Increasing top R) (hl : l ∈ R) (ht : t ∈ l) : soonest top R ≤ t :=
  (soonest_le_current hl).trans (current_le (hR l hl).1 ht)

/-- The earliest element is `top` or a head. -/
theorem soonest_eq (top : α) (R : List (List α)) :
    soonest top R = top ∨ ∃ l ∈ R, l.head? = some (soonest top R) := by
  by_cases htop : soonest top R = top
  · exact Or.inl htop
  · obtain ⟨l, hl, hcurr⟩ := List.mem_map.mp (earliest_mem htop)
    change current top l = soonest top R at hcurr
    refine Or.inr ⟨l, hl, ?_⟩
    cases l with
    | nil => exact absurd hcurr.symm htop
    | cons a l => exact congrArg some hcurr

/-- **The earliest element is in a list**, unless all lists are exhausted. -/
theorem soonest_head (hR : Increasing top R) (hsome : ∃ l ∈ R, l ≠ []) : ∃ l ∈ R, l.head? = some (soonest top R) := by
  rcases soonest_eq top R with htop | hhead
  · obtain ⟨l, hl, hne⟩ := hsome
    obtain ⟨a, l, rfl⟩ := List.exists_cons_of_ne_nil hne
    have hle : soonest top R ≤ a := soonest_le hR hl List.mem_cons_self
    have hge : a ≤ soonest top R := by
      rw [htop]
      exact (hR _ hl).2 a List.mem_cons_self
    exact ⟨a :: l, hl, congrArg some (le_antisymm hge hle)⟩
  · exact hhead

theorem soonest_mem (hR : Increasing top R) (hsome : ∃ l ∈ R, l ≠ []) : ∃ l ∈ R, soonest top R ∈ l := by
  obtain ⟨l, hl, hhead⟩ := soonest_head hR hsome
  exact ⟨l, hl, List.mem_of_head? hhead⟩

theorem soonest_of_empty (hall : ∀ l ∈ R, l = []) : soonest top R = top := by
  rcases soonest_eq top R with htop | ⟨l, hl, hhead⟩
  · exact htop
  · rw [hall l hl] at hhead
    exact absurd hhead.symm (Option.some_ne_none _)

theorem current_le_top (hR : Increasing top R) (hl : l ∈ R) : current top l ≤ top := by
  cases l with
  | nil => exact le_refl top
  | cons a l => exact (hR _ hl).2 a List.mem_cons_self

/-- The earliest element is a head, if an exhausted list has the head `top`. -/
theorem exists_current (hR : Increasing top R) (hne : R ≠ []) : ∃ l ∈ R, current top l = soonest top R := by
  rcases soonest_eq top R with htop | ⟨l, hl, hhead⟩
  · obtain ⟨l, hl⟩ := List.exists_mem_of_ne_nil R hne
    exact ⟨l, hl, le_antisymm ((current_le_top hR hl).trans htop.ge) (soonest_le_current hl)⟩
  · refine ⟨l, hl, ?_⟩
    unfold current
    rw [hhead]
    rfl

/-- **Where all heads agree**, every list has the earliest element, or there is no time left but `top`. -/
theorem agree_iff (hR : Increasing top R) :
    (∀ l ∈ R, current top l = soonest top R) ↔ soonest top R = top ∨ ∀ l ∈ R, soonest top R ∈ l := by
  constructor
  · intro hagree
    by_cases htop : soonest top R = top
    · exact Or.inl htop
    · refine Or.inr fun l hl => ?_
      cases l with
      | nil => exact absurd (hagree [] hl).symm htop
      | cons a l =>
        have ha : a = soonest top R := hagree _ hl
        exact ha ▸ List.mem_cons_self
  · rintro (htop | hall) l hl
    · exact le_antisymm ((current_le_top hR hl).trans htop.ge) (soonest_le_current hl)
    · exact le_antisymm (current_le (hR l hl).1 (hall l hl)) (soonest_le_current hl)

/-! ## One step -/

/-- **A step leaves the later elements.** -/
theorem advance_eq (hR : Increasing top R) : advance top R = R.map fun l => l.filter (soonest top R < ·) := by
  refine List.map_congr_left fun l hl => ?_
  cases l with
  | nil => rfl
  | cons a l =>
    obtain ⟨hsorted, -⟩ := hR _ hl
    obtain ⟨hfirst, -⟩ := List.pairwise_cons.mp hsorted
    have hle : soonest top R ≤ a := soonest_le hR hl List.mem_cons_self
    have hrest : ∀ t ∈ l, soonest top R < t := fun t ht => lt_of_le_of_lt hle (hfirst t ht)
    have hfilter : l.filter (soonest top R < ·) = l := List.filter_eq_self.mpr fun t ht => decide_eq_true (hrest t ht)
    by_cases ha : a = soonest top R
    · rw [if_pos (show (a :: l).head? = some (soonest top R) from congrArg some ha),
        List.filter_cons_of_neg (by rw [decide_eq_true_eq, ha]; exact lt_irrefl _), hfilter]
      rfl
    · have hlt : soonest top R < a := lt_of_le_of_ne hle fun h => ha h.symm
      have hne : ¬ (a :: l).head? = some (soonest top R) := fun h => ha (Option.some.inj h)
      have hkeep : (a :: l).filter (soonest top R < ·) = a :: l.filter (soonest top R < ·) :=
        List.filter_cons_of_pos (decide_eq_true hlt)
      rw [if_neg hne, hkeep, hfilter]

theorem increasing_advance (hR : Increasing top R) : Increasing top (advance top R) := by
  rw [advance_eq hR]
  intro l hl
  obtain ⟨l', hl', rfl⟩ := List.mem_map.mp hl
  obtain ⟨hsorted, hle⟩ := hR l' hl'
  exact ⟨hsorted.filter _, fun t ht => hle t (List.mem_of_mem_filter ht)⟩

theorem exists_mem_advance (hR : Increasing top R) :
    (∃ l ∈ advance top R, t ∈ l) ↔ soonest top R < t ∧ ∃ l ∈ R, t ∈ l := by
  rw [advance_eq hR]
  constructor
  · rintro ⟨l, hl, ht⟩
    obtain ⟨l', hl', rfl⟩ := List.mem_map.mp hl
    obtain ⟨hmem, hlt⟩ := List.mem_filter.mp ht
    exact ⟨of_decide_eq_true hlt, l', hl', hmem⟩
  · rintro ⟨hlt, l, hl, ht⟩
    exact ⟨_, List.mem_map_of_mem hl, List.mem_filter.mpr ⟨ht, decide_eq_true hlt⟩⟩

theorem forall_mem_advance (hR : Increasing top R) (hlt : soonest top R < t) :
    (∀ l ∈ advance top R, t ∈ l) ↔ ∀ l ∈ R, t ∈ l := by
  rw [advance_eq hR, List.forall_mem_map]
  refine forall₂_congr fun l _ => ?_
  rw [List.mem_filter, decide_eq_true_eq]
  exact and_iff_left hlt

/-- **A step takes an element away.** -/
theorem total_advance (hR : Increasing top R) (hsome : ∃ l ∈ R, l ≠ []) : total (advance top R) < total R := by
  obtain ⟨l, hl, hhead⟩ := soonest_head hR hsome
  unfold total advance
  rw [List.map_map]
  refine List.sum_lt_sum _ _ (fun l' _ => ?_) ⟨l, hl, ?_⟩
  · show (if _ then l'.tail else l').length ≤ l'.length
    split
    · exact List.length_tail ▸ Nat.sub_le _ 1
    · exact Nat.le_refl _
  · show (if _ then l.tail else l).length < l.length
    rw [if_pos hhead]
    cases l with
    | nil => exact absurd hhead.symm (Option.some_ne_none _)
    | cons a l => exact Nat.lt_succ_self _

omit [LinearOrder α] in
theorem total_eq_zero : total R = 0 ↔ ∀ l ∈ R, l = [] := by
  unfold total
  rw [List.sum_eq_zero_iff, List.forall_mem_map]
  exact forall₂_congr fun l _ => List.length_eq_zero_iff

end Trick.Lib
