/-
  Calls in a cycle: a first tic, a period and a last tic.

  `IsNext c never n t` says that `n` is the first due tic from `t` on, or the value `never` when
  there is none left.  A scheduler that keeps only `n` and moves it by one period at each call stays
  with that meaning (`IsNext.again`), tics at which nothing is due may be skipped (`IsNext.mono`),
  and the job is due at `t` exactly when `n = t` (`IsNext.due_iff`).

  Nothing here names a program.
-/
import Mathlib

namespace Trick.Lib

/-- **A cycle.** -/
structure Cycle where
  first : Int
  period : Int
  last : Int

namespace Cycle

/-- Due at `t`: a whole number of periods after the first tic, and not after the last one. -/
def Due (c : Cycle) (t : Int) : Prop := c.first ≤ t ∧ c.period ∣ t - c.first ∧ t ≤ c.last

instance (c : Cycle) (t : Int) : Decidable (c.Due t) := inferInstanceAs (Decidable (_ ∧ _ ∧ _))

/-- No due tic lies between two that are one period apart. -/
theorem Due.next_le {c : Cycle} {n d : Int} (hn : c.Due n) (hd : c.Due d) (h : n < d) :
    n + c.period ≤ d := by
  obtain ⟨_, hn', _⟩ := hn
  obtain ⟨_, hd', _⟩ := hd
  have hdiv : c.period ∣ d - n := by
    have := Int.dvd_sub hd' hn'
    have he : d - c.first - (n - c.first) = d - n := by omega
    rwa [he] at this
  have := Int.le_of_dvd (by omega) hdiv
  omega

/-- **`n` is the next due tic from `t` on**, `never` if there is none. -/
def IsNext (c : Cycle) (never n t : Int) : Prop :=
  (n = never ∧ ∀ d, c.Due d → d < t) ∨ (c.Due n ∧ t ≤ n ∧ ∀ d, c.Due d → t ≤ d → n ≤ d)

variable {c : Cycle} {never n t t' : Int}

theorem isNext_first (hfirst : c.first ≤ c.last) (ht : t ≤ c.first) :
    c.IsNext never c.first t := by
  right
  refine ⟨⟨le_refl _, ?_, hfirst⟩, ht, fun d hd _ => hd.1⟩
  rw [Int.sub_self]
  exact Int.dvd_zero _

/-- Tics before the next due one may be skipped. -/
theorem IsNext.mono (h : c.IsNext never n t) (hle : t ≤ t') (hn : t' ≤ n) :
    c.IsNext never n t' := by
  rcases h with ⟨he, hnone⟩ | ⟨hdue, _, hleast⟩
  · exact Or.inl ⟨he, fun d hd => lt_of_lt_of_le (hnone d hd) hle⟩
  · exact Or.inr ⟨hdue, hn, fun d hd hd' => hleast d hd (le_trans hle hd')⟩

/-- Nothing is due in what is skipped. -/
theorem IsNext.not_due (h : c.IsNext never n t) (hle : t ≤ t') (hn : t' < n) : ¬ c.Due t' := by
  intro hd
  rcases h with ⟨_, hnone⟩ | ⟨_, _, hleast⟩
  · have := hnone t' hd; omega
  · have := hleast t' hd hle; omega

/-- **Due now means that the next due tic is now.** -/
theorem IsNext.due_iff (h : c.IsNext never n t) (ht : t < never) : c.Due t ↔ n = t := by
  constructor
  · intro hd
    rcases h with ⟨_, hnone⟩ | ⟨_, hle, hleast⟩
    · have := hnone t hd; omega
    · have := hleast t hd (le_refl _); omega
  · rintro rfl
    rcases h with ⟨he, _⟩ | ⟨hdue, _⟩
    · omega
    · exact hdue

theorem IsNext.le (h : c.IsNext never n t) (ht : t ≤ never) : t ≤ n := by
  rcases h with ⟨he, _⟩ | ⟨_, hle, _⟩
  · omega
  · exact hle

/-- A tic at which the job is not due is passed. -/
theorem IsNext.pass (h : c.IsNext never n t) (ht : t < never) (hne : n ≠ t) :
    c.IsNext never n (t + 1) := by
  have := h.le (le_of_lt ht)
  exact h.mono (by omega) (by omega)

/-- **The move by one period** at a call. -/
theorem IsNext.again (h : c.IsNext never t t) (ht : t < never) (hp : 1 ≤ c.period) :
    c.IsNext never (if t + c.period > c.last then never else t + c.period) (t + 1) := by
  have hdue := (h.due_iff ht).mpr rfl
  split
  · rename_i hlast
    refine Or.inl ⟨rfl, fun d hd => ?_⟩
    by_contra hge
    have := hdue.next_le hd (by omega)
    have := hd.2.2
    omega
  · rename_i hlast
    refine Or.inr ⟨⟨?_, ?_, by omega⟩, by omega, fun d hd hd' => hdue.next_le hd (by omega)⟩
    · have := hdue.1; omega
    · have he : t + c.period - c.first = (t - c.first) + c.period := by omega
      rw [he]
      exact Int.dvd_add hdue.2.1 (Int.dvd_refl _)

end Cycle

end Trick.Lib
