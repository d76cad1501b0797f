/-
  Words that agree in their first bits.

  `SamePrefix n a b`: the `n` most significant bits of two words of the same width are the same.  A program
  decides it with a mask, all ones shifted to the left by what the prefix leaves (`masked_eq_iff`).

  Nothing here names a program.
-/
import Mathlib

namespace Trick.Lib

variable {w : Nat}

/-- **The first `n` bits agree.** -/
def SamePrefix (n : Nat) (a b : BitVec w) : Prop := ∀ i < n, a.getMsbD i = b.getMsbD i

instance (n : Nat) (a b : BitVec w) : Decidable (SamePrefix n a b) :=
  inferInstanceAs (Decidable (∀ i < n, a.getMsbD i = b.getMsbD i))

/-- All ones in the first `n` bits. -/
def prefixMask (w n : Nat) : BitVec w := BitVec.allOnes w <<< (w - n)

/-- The whole word. -/
theorem samePrefix_width {a b : BitVec w} : SamePrefix w a b ↔ a = b := by
  constructor
  · intro h
    apply BitVec.eq_of_getMsbD_eq
    intro i hi
    exact h i hi
  · rintro rfl i -
    rfl

theorem getMsbD_prefixMask {n i : Nat} (hn : n ≤ w) : (prefixMask w n).getMsbD i = decide (i < n) := by
  unfold prefixMask
  rw [BitVec.getMsbD_shiftLeft, BitVec.getMsbD_allOnes, decide_eq_decide]
  omega

/-- **The mask decides it.** -/
theorem masked_eq_iff {n : Nat} (hn : n ≤ w) (a b : BitVec w) :
    a &&& prefixMask w n = b &&& prefixMask w n ↔ SamePrefix n a b := by
  have hbit : ∀ (x : BitVec w) (i : Nat), (x &&& prefixMask w n).getMsbD i = (x.getMsbD i && decide (i < n)) := by
    intro x i
    rw [BitVec.getMsbD_and, getMsbD_prefixMask hn]
  constructor
  · intro h i hi
    have heq := congrArg (BitVec.getMsbD · i) h
    simp only [hbit, decide_eq_true hi, Bool.and_true] at heq
    exact heq
  · intro h
    apply BitVec.eq_of_getMsbD_eq
    intro i _
    rw [hbit, hbit]
    -- behind the prefix both sides are zero
    by_cases hi : i < n
    · rw [h i hi]
    · rw [decide_eq_false hi, Bool.and_false, Bool.and_false]

end Trick.Lib
