/-
  `set_num_runs` with fewer runs, and the end of a file.

  The loop of `set_num_runs` deletes runs from the end of the queue, one for each run that is too many.
  Those are the runs with the highest ids as long as the queue is in the order of the ids and all of them
  are still in it; a run that is to be tried again stands at the end whatever its id is.

  1. **Specification.**  `Right s n`: the runs below `n` stay in the queue, no slave refers to a run that is
     deleted, and the two numbers are what they should be; and after the end of a file at run `n` the master
     does not come back to that run.

  2. **Main result** (`right_iff`): that is so exactly when the runs from `n` on are those at the end of the
     queue, no slave refers to one of them, and the results, the busy slaves and the runs left in the queue
     add up to the runs below `n`.  `not_right` is a run of the master in which the first two fail.
-/
import Trick.MonteCarlo.Queue

namespace Trick.Monte.MonteCarlo

open Trick.Lib

/-! ## Specification -/

/-- The runs in range with an id below `n`. -/
def runsBelow (s : MonteCarlo) (n : Nat) : Nat := ((List.range n).filter fun r => s.inRange r).length

/-- The queue that is left for `n` runs, with the runs that are new. -/
def kept (s : MonteCarlo) (n : Nat) : List RunId :=
  (s.runs.filter fun r => r < n) ++ List.range' s.numRuns (n - s.numRuns)

/-- The slaves that are counted as running a run. -/
def busy (s : MonteCarlo) : Nat := (s.slaves.filter fun sl => sl.Active).length

/-- The number of runs that the loop deletes. -/
def surplus (s : MonteCarlo) (n : Nat) : Nat := min (s.numRuns - n) s.runs.length

/-- The runs that the loop deletes. -/
def deleted (s : MonteCarlo) (n : Nat) : List RunId := s.runs.drop (s.runs.length - s.surplus n)

/-- **What `set_num_runs` should make of the master.** -/
structure Reduced (s t : MonteCarlo) (n : Nat) : Prop where
  queue : t.runs = s.kept n
  deleted : ∀ r ∈ s.deleted n, ∀ sl ∈ s.slaves, sl.currentRun ≠ some r
  numRuns : t.numRuns = n
  actual : t.actualNumRuns = s.runsBelow n

/-- A file comes to its end when the run is prepared for the first time. -/
def EndsAt (s : MonteCarlo) (r : RunId) : Prop :=
  (s.run r).numTries = 0 ∧ (drawVariables s.monteVariables).2.2 = true

/-- **The number of runs is reduced to `n` as it should be**, on command and at the end of a file. -/
structure Right (s : MonteCarlo) (n : Nat) : Prop where
  commanded : s.Reduced (s.setNumRuns n) n
  atEof : s.EndsAt n → s.Reduced (s.prepareRun n).1 n
  notAgain : s.EndsAt n → (s.prepareRun n).1.getNextDispatch.2 ≠ some n

/-- **The condition.** -/
structure Reducible (s : MonteCarlo) (n : Nat) : Prop where
  queued : s.numRuns - n ≤ s.runs.length
  front : ∀ r ∈ s.runs.take (s.runs.length - (s.numRuns - n)), r < n
  back : ∀ r ∈ s.runs.drop (s.runs.length - (s.numRuns - n)), n ≤ r
  unreferred : ∀ r ∈ s.runs, n ≤ r → ∀ sl ∈ s.slaves, sl.currentRun ≠ some r
  balance : s.numResults + s.busy + ((s.kept n).filter fun r => s.inRange r).length = s.runsBelow n

variable {s t : MonteCarlo} {n r : Nat}

/-! ## The queue -/

/-- The front of a list is what is left of it when a property cuts the list there. -/
theorem take_eq_filter_iff {α : Type*} (p : α → Bool) (l : List α) (k : Nat) :
    l.take k = l.filter p ↔ (∀ x ∈ l.take k, p x = true) ∧ ∀ x ∈ l.drop k, p x = false := by
  have hsplit : l.filter p = (l.take k).filter p ++ (l.drop k).filter p := by
    rw [← List.filter_append, List.take_append_drop]
  constructor
  · intro h
    have hfront : ∀ x ∈ l.take k, p x = true := by
      intro x hx
      rw [h] at hx
      exact (List.mem_filter.mp hx).2
    refine ⟨hfront, ?_⟩
    rw [List.filter_eq_self.mpr hfront] at hsplit
    have hnil : (l.drop k).filter p = [] := List.append_right_eq_self.mp (hsplit.symm.trans h.symm)
    intro x hx
    exact Bool.eq_false_iff.mpr (List.filter_eq_nil_iff.mp hnil x hx)
  · rintro ⟨hfront, hback⟩
    rw [hsplit, List.filter_eq_self.mpr hfront,
      List.filter_eq_nil_iff.mpr fun x hx => Bool.eq_false_iff.mp (hback x hx), List.append_nil]

theorem setNumRuns_runs (s : MonteCarlo) (n : Nat) :
    (s.setNumRuns n).runs =
      s.runs.take (s.runs.length - s.surplus n) ++ List.range' s.numRuns (n - s.numRuns) := rfl

theorem setNumRuns_numRuns (s : MonteCarlo) (n : Nat) :
    (s.setNumRuns n).numRuns = s.numRuns - s.surplus n + (n - s.numRuns) := rfl

theorem setNumRuns_actualNumRuns (s : MonteCarlo) (n : Nat) :
    (s.setNumRuns n).actualNumRuns =
      s.numResults + ((s.setNumRuns n).runs.filter fun r => s.inRange r).length + s.busy := rfl

/-- There are enough runs to delete. -/
theorem numRuns_iff (s : MonteCarlo) (n : Nat) :
    (s.setNumRuns n).numRuns = n ↔ s.numRuns - n ≤ s.runs.length := by
  rw [setNumRuns_numRuns]
  unfold surplus
  omega

/-- **The queue that is left**, when there are enough runs to delete. -/
theorem queue_iff (h : s.numRuns - n ≤ s.runs.length) :
    (s.setNumRuns n).runs = s.kept n ↔
      (∀ r ∈ s.runs.take (s.runs.length - (s.numRuns - n)), r < n) ∧
        ∀ r ∈ s.runs.drop (s.runs.length - (s.numRuns - n)), n ≤ r := by
  have hsurplus : s.surplus n = s.numRuns - n := Nat.min_eq_left h
  rw [setNumRuns_runs, hsurplus]
  unfold kept
  rw [List.append_left_inj, take_eq_filter_iff]
  simp only [decide_eq_true_eq, decide_eq_false_iff_not, Nat.not_lt]

theorem mem_deleted_iff (h : s.Reducible n) : r ∈ s.deleted n ↔ r ∈ s.runs ∧ n ≤ r := by
  have hsurplus : s.surplus n = s.numRuns - n := Nat.min_eq_left h.queued
  unfold deleted
  rw [hsurplus]
  constructor
  · intro hr
    exact ⟨List.mem_of_mem_drop hr, h.back r hr⟩
  · rintro ⟨hr, hle⟩
    rw [← List.take_append_drop (s.runs.length - (s.numRuns - n)) s.runs, List.mem_append] at hr
    rcases hr with hr | hr
    · exact absurd (h.front r hr) (Nat.not_lt.mpr hle)
    · exact hr

/-- **On command.** -/
theorem reduced_setNumRuns_iff (s : MonteCarlo) (n : Nat) :
    s.Reduced (s.setNumRuns n) n ↔ s.Reducible n := by
  constructor
  · intro h
    have hqueued := (numRuns_iff s n).mp h.numRuns
    obtain ⟨hfront, hback⟩ := (queue_iff hqueued).mp h.queue
    refine ⟨hqueued, hfront, hback, ?_, ?_⟩
    · intro r hr hle
      refine h.deleted r ?_
      have hsurplus : s.surplus n = s.numRuns - n := Nat.min_eq_left hqueued
      unfold MonteCarlo.deleted
      rw [hsurplus]
      rw [← List.take_append_drop (s.runs.length - (s.numRuns - n)) s.runs, List.mem_append] at hr
      exact hr.resolve_left fun hr => absurd (hfront r hr) (Nat.not_lt.mpr hle)
    · have hactual := h.actual
      rw [setNumRuns_actualNumRuns, h.queue] at hactual
      omega
  · intro h
    have hqueue := (queue_iff h.queued).mpr ⟨h.front, h.back⟩
    refine ⟨hqueue, ?_, (numRuns_iff s n).mpr h.queued, ?_⟩
    · intro r hr
      obtain ⟨hr, hle⟩ := (mem_deleted_iff h).mp hr
      exact h.unreferred r hr hle
    · have hbalance := h.balance
      rw [setNumRuns_actualNumRuns, hqueue]
      omega

/-! ## The end of a file -/

/-- **At the end of a file** the queue and the numbers are those of the command. -/
theorem prepareRun_ended (h : s.EndsAt n) :
    (s.prepareRun n).1.runs = (s.setNumRuns n).runs ∧ (s.prepareRun n).1.numRuns = (s.setNumRuns n).numRuns ∧
      (s.prepareRun n).1.actualNumRuns = (s.setNumRuns n).actualNumRuns := by
  obtain ⟨htries, hended⟩ := h
  unfold prepareRun
  rw [if_pos htries]
  cases hdraw : drawVariables s.monteVariables with
  | mk vs rest =>
    obtain ⟨texts, ended⟩ := rest
    rw [hdraw] at hended
    simp only at hended
    subst hended
    exact ⟨rfl, rfl, rfl⟩

/-- No run from `n` on is in the queue, and none will be created. -/
def OnlyBelow (t : MonteCarlo) (n : Nat) : Prop := (∀ r ∈ t.runs, r < n) ∧ t.numRuns ≤ n

theorem OnlyBelow.setNumRuns (h : t.OnlyBelow n) (hr : r < n) : (t.setNumRuns r).OnlyBelow n := by
  obtain ⟨hruns, hnum⟩ := h
  constructor
  · intro x hx
    rw [setNumRuns_runs, List.mem_append] at hx
    rcases hx with hx | hx
    · exact hruns x (List.mem_of_mem_take hx)
    · have hle : t.numRuns + (r - t.numRuns) ≤ n := by
        have hnum : t.numRuns ≤ n := hnum
        omega
      exact Nat.lt_of_lt_of_le (List.mem_range'_1.mp hx).2 hle
  · rw [setNumRuns_numRuns]
    omega

theorem OnlyBelow.prepareRun (h : t.OnlyBelow n) (hr : r < n) : (t.prepareRun r).1.OnlyBelow n := by
  have hdequeue : ∀ x ∈ dequeue r t.runs, x < n :=
    fun x hx => h.1 x ((dequeue_sublist r t.runs).mem hx)
  by_cases hended : t.EndsAt r
  · obtain ⟨hruns, hnum, -⟩ := prepareRun_ended hended
    have hset := h.setNumRuns hr
    exact ⟨fun x hx => hset.1 x (hruns ▸ hx), hnum ▸ hset.2⟩
  · unfold MonteCarlo.prepareRun
    by_cases htries : (t.run r).numTries = 0
    · rw [if_pos htries]
      cases hdraw : drawVariables t.monteVariables with
      | mk vs rest =>
        obtain ⟨texts, ended⟩ := rest
        cases ended with
        | true => exact absurd ⟨htries, by rw [hdraw]⟩ hended
        | false =>
          exact ⟨hdequeue, h.2⟩
    · rw [if_neg htries]
      exact ⟨hdequeue, h.2⟩

/-- **The dispatch loop** gives out a run that is in the queue. -/
theorem OnlyBelow.getNextDispatchLoop (fuel : Nat) (h : t.OnlyBelow n) :
    (getNextDispatchLoop fuel t).2 ≠ some n := by
  induction fuel generalizing t with
  | zero =>
    intro heq
    cases heq
  | succ fuel ih =>
    unfold MonteCarlo.getNextDispatchLoop
    cases hruns : t.runs with
    | nil =>
      intro heq
      cases heq
    | cons x rest =>
      have hx : x < n := h.1 x (hruns ▸ List.mem_cons_self)
      show (if t.inRange x then (t, some x) else _).2 ≠ some n
      split
      · intro heq
        exact absurd (Option.some.inj heq) (Nat.ne_of_lt hx)
      · exact ih (h.prepareRun hx)

/-- **When the number of runs is reduced as it should be.** -/
theorem right_iff (s : MonteCarlo) (n : Nat) : s.Right n ↔ s.Reducible n := by
  constructor
  · intro h
    exact (reduced_setNumRuns_iff s n).mp h.commanded
  · intro h
    have hset := (reduced_setNumRuns_iff s n).mpr h
    refine ⟨hset, ?_, ?_⟩
    · intro hended
      obtain ⟨hruns, hnum, hactual⟩ := prepareRun_ended hended
      exact ⟨hruns.trans hset.queue, hset.deleted, hnum.trans hset.numRuns, hactual.trans hset.actual⟩
    · intro hended
      obtain ⟨hruns, hnum, -⟩ := prepareRun_ended hended
      have hbelow : (s.prepareRun n).1.OnlyBelow n := by
        refine ⟨?_, Nat.le_of_eq (hnum.trans hset.numRuns)⟩
        intro x hx
        rw [hruns, hset.queue] at hx
        rcases List.mem_append.mp hx with hx | hx
        · exact of_decide_eq_true (List.mem_filter.mp hx).2
        · -- a new run, so there were fewer than `n`
          obtain ⟨hge, hlt⟩ := List.mem_range'_1.mp hx
          rcases Nat.le_total n s.numRuns with hle | hle
          · rw [Nat.sub_eq_zero_of_le hle] at hlt
            exact absurd hlt (Nat.not_lt.mpr hge)
          · rwa [Nat.add_sub_cancel' hle] at hlt
      exact hbelow.getNextDispatchLoop _

/-! ## A run that waits to be tried again -/

/-- A variable from a file with one line. -/
def oneLineVar : MonteVar where
  next := fun k => if k < 1 then ⟨"y = 2", "2"⟩ else ⟨eof, ""⟩

/-- Runs 0 to 2, and a slave that is late with run 0: the run waits behind runs 1 and 2. -/
def lateSlave : MonteCarlo :=
  Trick.Lib.run step (({ monteVariables := [oneLineVar], slaves := [{}] } : MonteCarlo).setNumRuns 3)
    [.spawnSlaves, .accept 0 (.initialization 4), .dispatch true, .checkTimeout 0]

/-- **Run 0 is deleted in place of run 2**, and the slave still refers to it.  At the end of the file run 1
    stays in the queue, and the dispatch loop gives it out again. -/
theorem not_right : ¬ lateSlave.Right 2 ∧ ¬ lateSlave.Right 1 ∧ lateSlave.EndsAt 1 ∧
    (lateSlave.prepareRun 1).1.getNextDispatch.2 = some 1 := by
  refine ⟨?_, ?_, ⟨by decide +kernel, by decide +kernel⟩, by decide +kernel⟩
  · intro h
    have hqueue := h.commanded.queue
    have hruns : (lateSlave.setNumRuns 2).runs = [1, 2] := by decide +kernel
    have hkept : lateSlave.kept 2 = [1, 0] := by decide +kernel
    rw [hruns, hkept] at hqueue
    exact absurd hqueue (by decide)
  · intro h
    exact h.notAgain ⟨by decide +kernel, by decide +kernel⟩ (by decide +kernel)

end Trick.Monte.MonteCarlo
