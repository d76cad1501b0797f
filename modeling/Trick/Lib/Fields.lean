/-
  The fields of a list: what stands between the separators, where several separators in a row, or some at
  the beginning or the end, count as one.

  Nothing here names a program.
-/
import Mathlib

namespace Trick.Lib

variable {α : Type*}

/-- **The fields**, none of which is empty. -/
def fields (p : α → Bool) (l : List α) : List (List α) := (l.splitOnP p).filter fun f => !f.isEmpty

/-- A separator at the beginning. -/
theorem fields_cons_sep {p : α → Bool} {a : α} (h : p a = true) (l : List α) :
    fields p (a :: l) = fields p l := by
  unfold fields
  rw [List.splitOnP_cons_eq_if_modifyHead, if_pos h]
  rfl

/-- The separators at the beginning do not matter. -/
theorem fields_dropWhile (p : α → Bool) (l : List α) : fields p (l.dropWhile p) = fields p l := by
  induction l with
  | nil => rfl
  | cons a l ih =>
    by_cases h : p a = true
    · rw [List.dropWhile_cons_of_pos h, ih, fields_cons_sep h]
    · rw [List.dropWhile_cons_of_neg h]

/-- One field up to the end. -/
theorem fields_of_forall {p : α → Bool} {w : List α} (hne : w ≠ []) (h : ∀ x ∈ w, p x = false) :
    fields p w = [w] := by
  unfold fields
  rw [List.splitOnP_eq_singleton h]
  exact List.filter_eq_self.mpr fun f hf => by simpa [List.mem_singleton.mp hf] using hne

/-- **One field and what is behind it.** -/
theorem fields_append_sep {p : α → Bool} {w : List α} (hne : w ≠ []) (h : ∀ x ∈ w, p x = false) {a : α}
    (ha : p a = true) (l : List α) : fields p (w ++ a :: l) = w :: fields p l := by
  unfold fields
  rw [List.splitOnP_append_cons_of_forall_mem h a ha]
  exact List.filter_cons_of_pos (by simpa using hne)

/-- The first field is what stands before the first separator. -/
theorem fields_cons {p : α → Bool} {a : α} (ha : p a = false) (l : List α) :
    fields p (a :: l) =
      ((a :: l).takeWhile fun x => !p x) :: fields p (((a :: l).dropWhile fun x => !p x).drop 1) := by
  have hword : ∀ x ∈ (a :: l).takeWhile fun x => !p x, p x = false := by
    intro x hx
    have hx := List.mem_takeWhile_imp hx
    rwa [Bool.not_eq_true'] at hx
  have hne : ((a :: l).takeWhile fun x => !p x) ≠ [] := by
    rw [List.takeWhile_cons_of_pos (by rw [ha]; rfl)]
    exact List.cons_ne_nil _ _
  have hsplit := List.takeWhile_append_dropWhile (p := fun x => !p x) (l := a :: l)
  cases hrest : (a :: l).dropWhile fun x => !p x with
  | nil =>
    rw [hrest, List.append_nil] at hsplit
    conv_lhs => rw [← hsplit]
    rw [fields_of_forall hne hword]
    rfl
  | cons b rest =>
    have hb : p b = true := by
      have hhead := List.head?_dropWhile_not (fun x => !p x) (a :: l)
      rw [hrest] at hhead
      simpa using hhead
    rw [hrest] at hsplit
    conv_lhs => rw [← hsplit]
    rw [fields_append_sep hne hword hb]
    rfl

end Trick.Lib
