/-
  Lists of intervals that tile a longer one.

  `Tiles x y l` says that the intervals of `l` follow one another from `x` to `y`: the first begins at
  `x`, each begins where the one before it ends, and the last ends at `y`.  A log that grows at its
  end keeps tiling when the new interval begins where the log ends (`Tiles.snoc`).

  Nothing here names a program.
-/
import Mathlib

namespace Trick.Lib

variable {κ : Type*}

/-- **The intervals of the list follow one another from `x` to `y`.** -/
def Tiles (x y : κ) : List (κ × κ) → Prop
  | [] => x = y
  | i :: l => i.1 = x ∧ Tiles i.2 y l

instance Tiles.decidable [DecidableEq κ] (x y : κ) : ∀ l, Decidable (Tiles x y l)
  | [] => inferInstanceAs (Decidable (x = y))
  | i :: l =>
    have : Decidable (Tiles i.2 y l) := Tiles.decidable i.2 y l
    inferInstanceAs (Decidable (i.1 = x ∧ Tiles i.2 y l))

/-- Two tilings that meet. -/
theorem Tiles.append {x y z : κ} {l l' : List (κ × κ)} (h : Tiles x y l) (h' : Tiles y z l') :
    Tiles x z (l ++ l') := by
  induction l generalizing x with
  | nil =>
    cases h
    exact h'
  | cons i l ih =>
    obtain ⟨hi, hl⟩ := h
    exact ⟨hi, ih hl⟩

/-- **One more interval**, from where the tiling ends. -/
theorem Tiles.snoc {x y z : κ} {l : List (κ × κ)} (h : Tiles x y l) : Tiles x z (l ++ [(y, z)]) :=
  h.append ⟨rfl, rfl⟩

/-- Where a tiling ends is determined by the list. -/
theorem Tiles.unique {x y y' : κ} {l : List (κ × κ)} (h : Tiles x y l) (h' : Tiles x y' l) :
    y = y' := by
  induction l generalizing x with
  | nil =>
    have hx : x = y := h
    have hx' : x = y' := h'
    exact hx.symm.trans hx'
  | cons i l ih => exact ih h.2 h'.2

/-- What follows in a tiling begins where the first part ends. -/
theorem Tiles.start_eq {x y z : κ} {l l' : List (κ × κ)} {i : κ × κ} (h : Tiles x y l)
    (h' : Tiles x z (l ++ i :: l')) : i.1 = y := by
  induction l generalizing x with
  | nil =>
    have hx : x = y := h
    exact h'.1.trans hx
  | cons j l ih => exact ih h.2 h'.2

end Trick.Lib
