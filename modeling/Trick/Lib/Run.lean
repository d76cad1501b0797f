/-
  Runs of a deterministic transition system that is driven by a list of inputs.

  A system is a `step : σ → ι → σ`; a run feeds the inputs one after another.  `Guarded ok` says
  that every input meets the condition `ok` in the state in which it arrives, so that a theorem
  about guarded runs is a theorem about every state such a run reaches (a prefix of a guarded run
  is guarded).  Two rules are used by the developments over this file:

  * `Guarded.invariant` — what one guarded step preserves, a guarded run preserves;
  * `exists_halted` — when a measure drops at every step out of a state that is not halted, some
    number of steps halts.

  Nothing here names a program.
-/
import Mathlib

namespace Trick.Lib

variable {σ ι : Type*}

/-- **A run**: the inputs are consumed from left to right. -/
def run (step : σ → ι → σ) (s : σ) (is : List ι) : σ :=
  is.foldl step s

@[simp] theorem run_nil (step : σ → ι → σ) (s : σ) : run step s [] = s := rfl

@[simp] theorem run_cons (step : σ → ι → σ) (s : σ) (i : ι) (is : List ι) :
    run step s (i :: is) = run step (step s i) is := rfl

theorem run_append (step : σ → ι → σ) (s : σ) (is js : List ι) :
    run step s (is ++ js) = run step (run step s is) js := by
  unfold run
  rw [List.foldl_append]

/-- **A guarded run**: every input meets `ok` in the state in which it is consumed. -/
def Guarded (ok : σ → ι → Prop) (step : σ → ι → σ) : σ → List ι → Prop
  | _, [] => True
  | s, i :: is => ok s i ∧ Guarded ok step (step s i) is

instance Guarded.decidable {ok : σ → ι → Prop} [∀ s i, Decidable (ok s i)] {step : σ → ι → σ} :
    ∀ (s : σ) (is : List ι), Decidable (Guarded ok step s is)
  | _, [] => isTrue trivial
  | s, i :: is =>
    have : Decidable (Guarded ok step (step s i) is) := Guarded.decidable (step s i) is
    inferInstanceAs (Decidable (ok s i ∧ Guarded ok step (step s i) is))

theorem guarded_append {ok : σ → ι → Prop} {step : σ → ι → σ} :
    ∀ (is : List ι) (s : σ) (js : List ι),
      Guarded ok step s (is ++ js) ↔ Guarded ok step s is ∧ Guarded ok step (run step s is) js
  | [], s, js => by simp [Guarded]
  | i :: is, s, js => by
    have ih : Guarded ok step (step s i) (is ++ js) ↔ Guarded ok step (step s i) is ∧
        Guarded ok step (run step (step s i) is) js := guarded_append is (step s i) js
    show ok s i ∧ Guarded ok step (step s i) (is ++ js) ↔ _
    rw [ih, run_cons]
    show _ ↔ (ok s i ∧ Guarded ok step (step s i) is) ∧ _
    exact and_assoc.symm

/-- **Invariant rule.**  A property that one step preserves whenever its input meets `ok` holds
    in the state that a guarded run ends in. -/
theorem Guarded.invariant {ok : σ → ι → Prop} {step : σ → ι → σ} {Inv : σ → Prop}
    (hstep : ∀ s i, Inv s → ok s i → Inv (step s i)) :
    ∀ (is : List ι) (s : σ), Inv s → Guarded ok step s is → Inv (run step s is)
  | [], _, hs, _ => hs
  | i :: is, s, hs, hg => Guarded.invariant hstep is (step s i) (hstep s i hs hg.1) hg.2

/-- The invariant rule for a run that is guarded twice. -/
theorem Guarded.invariant_and {ok ok' : σ → ι → Prop} {step : σ → ι → σ} {Inv : σ → Prop}
    (hstep : ∀ s i, Inv s → ok s i → ok' s i → Inv (step s i)) :
    ∀ (is : List ι) (s : σ), Inv s → Guarded ok step s is → Guarded ok' step s is →
      Inv (run step s is)
  | [], _, hs, _, _ => hs
  | i :: is, s, hs, hg, hg' =>
    Guarded.invariant_and hstep is (step s i) (hstep s i hs hg.1 hg'.1) hg.2 hg'.2

/-- **Log rule.**  What holds of every entry of a log and the entries before it, when one more is written. -/
theorem forall_split_concat {P : List ι → ι → Prop} {log : List ι} {entry : ι}
    (h : ∀ earlier e later, log = earlier ++ e :: later → P earlier e) (hentry : P log entry) :
    ∀ earlier e later, log ++ [entry] = earlier ++ e :: later → P earlier e := by
  intro earlier e later heq
  rcases List.eq_nil_or_concat later with rfl | ⟨later', last, rfl⟩
  · obtain ⟨rfl, hlast⟩ := List.append_inj' heq rfl
    cases hlast
    exact hentry
  · -- an older entry
    have hassoc : earlier ++ e :: (later' ++ [last]) = (earlier ++ e :: later') ++ [last] := by simp
    rw [List.concat_eq_append, hassoc] at heq
    exact h earlier e later' (List.append_inj' heq rfl).1

/-- **Halting rule.**  `r` is well founded, `Inv` is kept by the step on the input `i`, and out of
    every state that is not halted the step goes down in `r`: then repeating `i` halts. -/
theorem exists_halted {step : σ → ι → σ} {i : ι} {Inv Halted : σ → Prop} {r : σ → σ → Prop}
    (hwf : WellFounded r) (hinv : ∀ s, Inv s → ¬ Halted s → Inv (step s i))
    (hdown : ∀ s, Inv s → ¬ Halted s → r (step s i) s) (s : σ) (hs : Inv s) :
    ∃ n, Halted (run step s (List.replicate n i)) ∧ Inv (run step s (List.replicate n i)) := by
  induction s using hwf.induction with
  | _ s ih =>
    by_cases hh : Halted s
    · exact ⟨0, hh, hs⟩
    · obtain ⟨n, hn⟩ := ih (step s i) (hdown s hs hh) (hinv s hs hh)
      exact ⟨n + 1, hn⟩

end Trick.Lib
