/-
  The loop that looks for the least entry of a list.

  `earliest top l` starts from `top` and takes every entry that is smaller than what it holds.
  Schedulers use it for the next time at which anything is due, with the largest time as `top`.

  Nothing here names a program.
-/
import Mathlib

namespace Trick.Lib

variable {κ : Type*} [LinearOrder κ]

/-- **The least of `top` and the entries of the list.** -/
def earliest (top : κ) (l : List κ) : κ :=
  l.foldl (fun m x => if x < m then x else m) top

@[simp] theorem earliest_nil (top : κ) : earliest top [] = top := rfl

theorem earliest_cons (top x : κ) (l : List κ) :
    earliest top (x :: l) = earliest (if x < top then x else top) l := rfl

/-- What the loop finds is later than `a` exactly if everything it looks at is. -/
theorem lt_earliest_iff {a top : κ} {l : List κ} :
    a < earliest top l ↔ a < top ∧ ∀ x ∈ l, a < x := by
  induction l generalizing top with
  | nil => simp
  | cons y l ih =>
    rw [earliest_cons, ih, List.forall_mem_cons, ← and_assoc]
    refine and_congr_left fun _ => ?_
    split
    · rename_i hy
      exact ⟨fun h => ⟨lt_trans h hy, h⟩, fun h => h.2⟩
    · rename_i hy
      exact ⟨fun h => ⟨h, lt_of_lt_of_le h (not_lt.mp hy)⟩, fun h => h.1⟩

theorem earliest_le_of_mem {x top : κ} {l : List κ} (hx : x ∈ l) : earliest top l ≤ x := by
  by_contra hlt
  exact lt_irrefl x ((lt_earliest_iff.mp (not_le.mp hlt)).2 x hx)

theorem earliest_le_top (top : κ) (l : List κ) : earliest top l ≤ top := by
  by_contra hlt
  exact lt_irrefl top (lt_earliest_iff.mp (not_le.mp hlt)).1

/-- What the loop finds is an entry, unless nothing is earlier than `top`. -/
theorem earliest_mem {top : κ} {l : List κ} (h : earliest top l ≠ top) : earliest top l ∈ l := by
  induction l generalizing top with
  | nil => exact absurd rfl h
  | cons y l ih =>
    rw [earliest_cons] at h ⊢
    by_cases hself : earliest (if y < top then y else top) l = if y < top then y else top
    · rw [hself] at h ⊢
      split at h
      · rename_i hy
        rw [if_pos hy]
        exact List.mem_cons_self ..
      · exact absurd rfl h
    · exact List.mem_cons_of_mem _ (ih hself)

/-- What the loop finds is the only lower bound that is an entry, or `top`. -/
theorem eq_earliest {m top : κ} {l : List κ} (htop : m ≤ top) (hle : ∀ x ∈ l, m ≤ x)
    (hmem : m = top ∨ m ∈ l) : m = earliest top l := by
  apply le_antisymm
  · by_contra hlt
    have hself : earliest top l = top ∨ earliest top l ∈ l := or_iff_not_imp_left.mpr earliest_mem
    rcases hself with heq | hx
    · rw [heq] at hlt
      exact hlt htop
    · exact hlt (hle _ hx)
  · rcases hmem with rfl | hx
    · exact earliest_le_top _ _
    · exact earliest_le_of_mem hx

/-- One more entry. -/
theorem earliest_concat (top x : κ) (l : List κ) :
    earliest top (l ++ [x]) = if x < earliest top l then x else earliest top l := by
  unfold earliest
  rw [List.foldl_append]
  rfl

end Trick.Lib
