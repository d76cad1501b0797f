/-
  Items packed into bins, the next one being opened when an item does not fit.

  A bin has a size, which is that of the header and of its items, and a limit.  An item that does not fit
  into an empty bin is left out.  The bin that is being filled is the last one of the list `finish`; it
  may have no items.

  `Sized` says that the sizes are right and `items_finish` that nothing but the large items is left out,
  in the order of the items.

  Nothing here names a program.
-/
import Mathlib

namespace Trick.Lib

variable {α : Type*}

/-- **Bins**, the last of which is being filled. -/
structure Packing (α : Type*) where
  full : List (Nat × List α) := []
  size : Nat
  current : List α := []
deriving DecidableEq

namespace Packing

variable (limit header : Nat) (size : α → Nat)

/-- No bin has been filled. -/
def empty : Packing α where
  size := header

/-- An item is put into the bin that is being filled, or into a new one. -/
def add (p : Packing α) (a : α) (n : Nat) : Packing α :=
  if header + n > limit then p
  else if p.size + n > limit then
    { full := p.full ++ [(p.size, p.current)]
      size := header + n
      current := [a] }
  else
    { p with
      size := p.size + n
      current := p.current ++ [a] }

/-- All the bins. -/
def finish (p : Packing α) : List (Nat × List α) := p.full ++ [(p.size, p.current)]

/-- The items of the bins. -/
def items (p : Packing α) : List α := p.full.flatMap Prod.snd ++ p.current

/-- **All items are packed.** -/
def addAll (p : Packing α) (l : List α) : Packing α :=
  l.foldl (fun p a => p.add limit header a (size a)) p

/-! ## Sizes -/

/-- **A bin has the size of its items**, and is within the limit. -/
def BinOk (b : Nat × List α) : Prop := b.1 = header + (b.2.map size).sum ∧ b.1 ≤ limit

/-- Every bin has the size of its items. -/
def Sized (p : Packing α) : Prop := ∀ b ∈ p.finish, BinOk limit header size b

variable {limit header : Nat} {size : α → Nat} {p : Packing α}

theorem Sized.empty (h : header ≤ limit) : Sized limit header size (Packing.empty header) := by
  intro b hb
  have heq : b = (header, []) := List.mem_singleton.mp hb
  subst heq
  exact ⟨rfl, h⟩

theorem Sized.add (h : Sized limit header size p) (a : α) :
    Sized limit header size (p.add limit header a (size a)) := by
  have hcurrent : BinOk limit header size (p.size, p.current) :=
    h _ (List.mem_append_right _ (List.mem_singleton.mpr rfl))
  unfold Packing.add
  split
  · exact h
  · rename_i hfits
    split
    · -- the bin is closed
      intro b hb
      rcases List.mem_append.mp hb with hb | hb
      · exact h b hb
      · rw [List.mem_singleton.mp hb]
        refine ⟨?_, Nat.le_of_not_gt hfits⟩
        show header + size a = header + ([a].map size).sum
        rw [List.map_singleton, List.sum_singleton]
    · rename_i hroom
      intro b hb
      rcases List.mem_append.mp hb with hb | hb
      · exact h b (List.mem_append_left _ hb)
      · rw [List.mem_singleton.mp hb]
        refine ⟨?_, Nat.le_of_not_gt hroom⟩
        have hsize : p.size = header + (p.current.map size).sum := hcurrent.1
        show p.size + size a = header + ((p.current ++ [a]).map size).sum
        rw [List.map_append, List.sum_append, List.map_singleton, List.sum_singleton, hsize]
        omega

theorem Sized.addAll (h : Sized limit header size p) (l : List α) :
    Sized limit header size (p.addAll limit header size l) := by
  induction l generalizing p with
  | nil => exact h
  | cons a l ih => exact ih (h.add a)

/-! ## Items -/

theorem items_finish (p : Packing α) : p.finish.flatMap Prod.snd = p.items := by
  unfold finish items
  rw [List.flatMap_append, List.flatMap_singleton]

theorem items_add (p : Packing α) (a : α) (n : Nat) :
    (p.add limit header a n).items = if header + n > limit then p.items else p.items ++ [a] := by
  unfold Packing.add
  split
  · rfl
  · unfold items
    split
    · rw [List.flatMap_append, List.flatMap_singleton]
    · rw [List.append_assoc]

/-- **Nothing but the large items is left out.** -/
theorem items_addAll (p : Packing α) (l : List α) :
    (p.addAll limit header size l).items =
      p.items ++ l.filter fun a => decide (header + size a ≤ limit) := by
  induction l generalizing p with
  | nil => exact (List.append_nil _).symm
  | cons a l ih =>
    show (Packing.addAll limit header size (p.add limit header a (size a)) l).items = _
    rw [ih, items_add]
    by_cases hlarge : header + size a > limit
    · have hfits : ¬ header + size a ≤ limit := by omega
      rw [if_pos hlarge, List.filter_cons_of_neg (by simpa using hfits)]
    · have hfits : header + size a ≤ limit := by omega
      rw [if_neg hlarge, List.filter_cons_of_pos (by simpa using hfits), List.append_assoc]
      rfl

/-! ## Sizes that are the same -/

end Packing

end Trick.Lib
