/-
  A list in which the entry at one place has been changed.

  `List.modify i f` changes the entry at place `i`.  What is in the new list was in the old one, or is the
  changed entry (`mem_modify`), and every other entry is still there (`mem_modify_of_ne`).

  Nothing here names a program.
-/
import Mathlib

namespace Trick.Lib

variable {α : Type*} {f : α → α} {l : List α} {a : α} {i j : Nat}

@[simp] theorem getElem?_modify_self : (l.modify i f)[i]? = l[i]?.map f := by
  rw [List.getElem?_modify]
  simp

theorem getElem?_modify_of_ne (h : i ≠ j) : (l.modify i f)[j]? = l[j]? := by
  rw [List.getElem?_modify]
  simp [h]

/-- An entry of the new list. -/
theorem mem_modify (h : a ∈ l.modify i f) : a ∈ l ∨ ∃ b, l[i]? = some b ∧ a = f b := by
  obtain ⟨j, hj⟩ := List.mem_iff_getElem?.mp h
  by_cases hij : i = j
  · subst hij
    rw [getElem?_modify_self, Option.map_eq_some_iff] at hj
    obtain ⟨b, hb, rfl⟩ := hj
    exact Or.inr ⟨b, hb, rfl⟩
  · rw [getElem?_modify_of_ne hij] at hj
    exact Or.inl (List.mem_of_getElem? hj)

/-- The changed entry. -/
theorem modify_self_mem (h : l[i]? = some a) : f a ∈ l.modify i f := by
  apply List.mem_of_getElem?
  rw [getElem?_modify_self, h]
  rfl

/-- Every other entry. -/
theorem mem_modify_of_ne (hij : i ≠ j) (h : l[j]? = some a) : a ∈ l.modify i f := by
  apply List.mem_of_getElem?
  rw [getElem?_modify_of_ne hij, h]

/-- The sum over the new list. -/
theorem sum_modify (g : α → Nat) (h : l[i]? = some a) :
    ((l.modify i f).map g).sum + g a = (l.map g).sum + g (f a) := by
  induction l generalizing i with
  | nil => cases h
  | cons b l ih =>
    cases i with
    | zero =>
      cases h
      rw [List.modify_zero_cons, List.map_cons, List.map_cons, List.sum_cons, List.sum_cons]
      omega
    | succ i =>
      have ih := ih h
      rw [List.modify_succ_cons, List.map_cons, List.map_cons, List.sum_cons, List.sum_cons]
      omega

/-- Two entries of a sum. -/
theorem add_le_sum {b : α} (g : α → Nat) (hij : i ≠ j) (hi : l[i]? = some a) (hj : l[j]? = some b) :
    g a + g b ≤ (l.map g).sum := by
  induction l generalizing i j with
  | nil => cases hi
  | cons c l ih =>
    rw [List.map_cons, List.sum_cons]
    cases i with
    | zero =>
      cases j with
      | zero => exact absurd rfl hij
      | succ j =>
        cases hi
        have hj : l[j]? = some b := hj
        have hle : g b ≤ (l.map g).sum :=
          List.le_sum_of_mem (List.mem_map_of_mem (List.mem_of_getElem? hj))
        omega
    | succ i =>
      cases j with
      | zero =>
        cases hj
        have hi : l[i]? = some a := hi
        have hle : g a ≤ (l.map g).sum :=
          List.le_sum_of_mem (List.mem_map_of_mem (List.mem_of_getElem? hi))
        omega
      | succ j =>
        have ih := ih (fun h => hij (congrArg Nat.succ h)) hi hj
        omega

theorem modify_eq_self (h : l[i]? = none) : l.modify i f = l := by
  apply List.ext_getElem?
  intro j
  by_cases hij : i = j
  · subst hij
    rw [getElem?_modify_self, h]
    rfl
  · rw [getElem?_modify_of_ne hij]

end Trick.Lib
