/-
  Splits of a list at an element with a property: the first such element, and the last one.

  Nothing here names a program.
-/
import Mathlib

namespace Trick.Lib

variable {α : Type*} {p : α → Prop}

/-- **The first element** with a property. -/
theorem exists_first_split {l : List α} (h : ∃ x ∈ l, p x) :
    ∃ pre x post, l = pre ++ x :: post ∧ (∀ y ∈ pre, ¬ p y) ∧ p x := by
  induction l with
  | nil =>
    obtain ⟨x, hx, -⟩ := h
    exact absurd hx List.not_mem_nil
  | cons y l ih =>
    by_cases hy : p y
    · exact ⟨[], y, l, rfl, fun z hz => absurd hz List.not_mem_nil, hy⟩
    · have hrest : ∃ x ∈ l, p x := by
        obtain ⟨x, hx, hpx⟩ := h
        rcases List.mem_cons.mp hx with rfl | hx
        · exact absurd hpx hy
        · exact ⟨x, hx, hpx⟩
      obtain ⟨pre, x, post, rfl, hpre, hpx⟩ := ih hrest
      exact ⟨y :: pre, x, post, rfl, List.forall_mem_cons.mpr ⟨hy, hpre⟩, hpx⟩

end Trick.Lib
