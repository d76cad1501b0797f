/-
  No scheduled job is left behind with a call time in the past.

  `find_next_job` compares call times with the current tic for equality, so a job whose call time
  has been passed is never called again.  The scheduler itself never passes one.  The commands that
  a job may give in the middle of a pass can: `push` and `set_job_cycle` do not lower the cached
  next call time, so a job that they put behind the cursor with an early call time is jumped over,
  and `remove` moves the cursor back one place too far when it takes out the job the cursor stands
  on.

  `no_stranded_job` is the result for runs whose steps meet `StepOk`; `strandedJob_run` is a run in
  which a job adds an object with a job of an earlier class that is due at once.
-/
import Trick.Executive.StartOfRun

namespace Trick.Exec.Executive

open Trick.Lib

/-! ## The result -/

/-- **Run lemma**: a run whose steps meet their conditions keeps the invariant. -/
theorem run_runInv {s : Executive} (hs : Started s) {is : List JobCall}
    (hok : Guarded StepOk step s is) : RunInv (run step s is) :=
  Guarded.invariant (fun _ _ h hc => step_runInv h hc) is s hs.runInv hok

/-- **No stranded job.**  At the end of each pass every scheduled job that the scheduler
    reschedules is due after the tic of the pass, and not before the tic to which the clock has
    been moved. -/
theorem no_stranded_job {s : Executive} (hs : Started s) (is : List JobCall)
    (hok : Guarded StepOk step s is) (hend : (run step s is).pc = .passEnd) :
    ∀ j ∈ (run step s is).jobQueue.list,
      ((run step s is).jobs j).systemJobClass = false →
        (run step s is).timeLastPassTics < ((run step s is).jobs j).nextTics ∧
          (run step s is).timeTics ≤ ((run step s is).jobs j).nextTics := by
  rcases run_runInv hs hok with hterm | ⟨hwf, hinv⟩
  · rw [hend] at hterm; cases hterm
  unfold PassInv at hinv
  rw [hend] at hinv
  simp only at hinv
  intro j hj hsys
  rcases hinv with ⟨⟨W, Q, hz⟩, hlive, _⟩ | ⟨_, htime, W, Q, hlist, _, hW, hQ⟩
  · -- the clock went forward: the head is due at the new tic or later, the tail later
    rcases (hz.mem_list j).mp hj with hin | hin | rfl | hin | hin
    · cases hin
    · have := hz.waiting j hin hsys; omega
    · rw [hwf.adv_system] at hsys; cases hsys
    · have := hz.quiet j hin hsys; omega
    · cases hin
  · -- the clock was set back: everything is due after the tic of the pass
    have hlater : (run step s is).timeLastPassTics < ((run step s is).jobs j).nextTics := by
      rw [hlist] at hj
      rcases List.mem_append.mp hj with hin | hin
      · exact hW j hin hsys
      · rcases List.mem_cons.mp hin with rfl | hin
        · rw [hwf.adv_system] at hsys; cases hsys
        · exact hQ j hin
    exact ⟨hlater, by omega⟩

/-- A sim object with one job that is due every five tics from the start. -/
def fiveTicObject (className : JobClassName) : SimObject :=
  .mk [{ jobClassName := className, id := 1, cycle := 5 }] [] []

/-- A call of a job that asks the executive for nothing. -/
def idle : JobCall := {}

/-- A simulation with one `scheduled` job, which adds another object at its first call. -/
def addAtFirstCall (className : JobClassName) (n : Nat) : List JobCall :=
  List.replicate 5 idle ++ { commands := [.addSimObject (fiveTicObject className)] } ::
    List.replicate n idle

/-- A job of a later class, which gets the id 5, is looked at in the same pass. -/
theorem no_stranded_job_effector :
    (run step (start 1 10 20 [fiveTicObject .scheduled])
        (addAtFirstCall .effector 5)).timeLastPassTics <
        ((run step (start 1 10 20 [fiveTicObject .scheduled])
          (addAtFirstCall .effector 5)).jobs 5).nextTics ∧
      (run step (start 1 10 20 [fiveTicObject .scheduled])
        (addAtFirstCall .effector 5)).timeTics ≤
        ((run step (start 1 10 20 [fiveTicObject .scheduled])
          (addAtFirstCall .effector 5)).jobs 5).nextTics :=
  no_stranded_job (start_started (by decide) (by decide) (by decide) (by decide +kernel)) _
    (by decide +kernel) (by decide +kernel) 5 (by decide +kernel) (by decide +kernel)

/-- **A stranded job.**  The job added is of an earlier class, so it lands behind the cursor with
    call time 0.  At the end of the pass over tic 0, and of the pass over tic 5, it is enabled, its
    stop time is far away, and its call time is still 0; it is never called. -/
theorem strandedJob_run :
    Started (start 1 10 20 [fiveTicObject .scheduled]) ∧
    (let s := run step (start 1 10 20 [fiveTicObject .scheduled]) (addAtFirstCall .sensor 3)
     s.pc = .passEnd ∧ 5 ∈ s.jobQueue.list ∧ (s.jobs 5).systemJobClass = false ∧
      (s.jobs 5).disabled = false ∧ s.timeLastPassTics < (s.jobs 5).stopTics ∧
      s.timeLastPassTics = 0 ∧ (s.jobs 5).nextTics = 0) ∧
    (let s := run step (start 1 10 20 [fiveTicObject .scheduled]) (addAtFirstCall .sensor 60)
     s.pc = .terminated ∧ s.timeLastPassTics = 20 ∧ (s.jobs 5).nextTics = 0 ∧
      ∀ e ∈ s.trace, e.1 ≠ 5) := by
  refine ⟨start_started (by decide) (by decide) (by decide) (by decide +kernel), ?_, ?_⟩ <;> decide +kernel

end Trick.Exec.Executive
