/-
  What the commands of a job leave alone.

  A command changes the job store, the queues, the freeze requests, the terminate time and the
  pending command.  It does not move the clock or the frame, and it does not move the main loop:
  `SameRun` lists the fields, and `applyCommands_sameRun` says it for any list of commands.  The
  only exception is the registration of a second job that advances the clock, so the two job
  pointers of the executive are treated apart.

  `modifyQueue` on an executive without child threads is the replacement of one queue of the main
  loop, or nothing; the proofs about single threaded runs go through `modifyQueue_eq`.
-/
import Trick.Executive.LoopSingleThread

namespace Trick.Exec.Executive

/-! ## The fields that no command changes -/

/-- The two states stand at the same place of the loop and at the same time. -/
structure SameRun (s s' : Executive) : Prop where
  pc : s'.pc = s.pc
  currJob : s'.currJob = s.currJob
  timeTics : s'.timeTics = s.timeTics
  timeLastPassTics : s'.timeLastPassTics = s.timeLastPassTics
  nextFrameCheckTics : s'.nextFrameCheckTics = s.nextFrameCheckTics
  softwareFrameTics : s'.softwareFrameTics = s.softwareFrameTics
  timeTicValue : s'.timeTicValue = s.timeTicValue
  classMap : s'.classMap = s.classMap
  freezeJob : s'.freezeJob = s.freezeJob

theorem SameRun.refl (s : Executive) : SameRun s s :=
  ⟨rfl, rfl, rfl, rfl, rfl, rfl, rfl, rfl, rfl⟩

theorem SameRun.trans {s s' s'' : Executive} (h : SameRun s s') (h' : SameRun s' s'') :
    SameRun s s'' :=
  ⟨h'.pc.trans h.pc, h'.currJob.trans h.currJob, h'.timeTics.trans h.timeTics,
    h'.timeLastPassTics.trans h.timeLastPassTics,
    h'.nextFrameCheckTics.trans h.nextFrameCheckTics,
    h'.softwareFrameTics.trans h.softwareFrameTics, h'.timeTicValue.trans h.timeTicValue,
    h'.classMap.trans h.classMap, h'.freezeJob.trans h.freezeJob⟩

/-- A loop of operations that each keep the place and the time keeps them. -/
theorem sameRun_foldl {β : Type*} {f : Executive → β → Executive}
    (hf : ∀ s b, SameRun s (f s b)) : ∀ (l : List β) (s : Executive), SameRun s (l.foldl f s)
  | [], s => SameRun.refl s
  | b :: l, s => (hf s b).trans (sameRun_foldl hf l (f s b))

theorem sameRun_modifyQueue (s : Executive) (f : ScheduledJobQueue → ScheduledJobQueue)
    (r : QueueRef) : SameRun s (s.modifyQueue f r) := by
  rcases r with n | n | n | _ | _
  all_goals first | exact ⟨rfl, rfl, rfl, rfl, rfl, rfl, rfl, rfl, rfl⟩ | cases n
  all_goals exact ⟨rfl, rfl, rfl, rfl, rfl, rfl, rfl, rfl, rfl⟩

theorem sameRun_addJob (id : Int) (s : Executive) (j : JobData) : SameRun s (addJob id s j) := by
  unfold addJob
  simp only
  split
  · refine SameRun.trans ?_ (sameRun_modifyQueue _ _ _)
    exact ⟨rfl, rfl, rfl, rfl, rfl, rfl, rfl, rfl, rfl⟩
  · exact ⟨rfl, rfl, rfl, rfl, rfl, rfl, rfl, rfl, rfl⟩

theorem sameRun_addJobsToQueue (s : Executive) (jobs : List JobData) :
    SameRun s (s.addJobsToQueue jobs) := by
  have hnum : SameRun s { s with numSimObjects := s.numSimObjects + 1 } :=
    ⟨rfl, rfl, rfl, rfl, rfl, rfl, rfl, rfl, rfl⟩
  exact hnum.trans (sameRun_foldl (sameRun_addJob _) jobs _)

theorem sameRun_removeJob (s : Executive) (j : JobId) : SameRun s (s.removeJob j) := by
  unfold removeJob
  split
  · exact sameRun_modifyQueue _ _ _
  · exact SameRun.refl s

theorem sameRun_freezeAt (s : Executive) (t : ℚ) : SameRun s (s.freezeAt t) := by
  unfold freezeAt setNextTics
  simp only
  split_ifs <;> exact ⟨rfl, rfl, rfl, rfl, rfl, rfl, rfl, rfl, rfl⟩

theorem sameRun_setThreadEnabled (s : Executive) (n : Nat) (b : Bool) :
    SameRun s (s.setThreadEnabled n b) := by
  unfold setThreadEnabled
  split <;> exact ⟨rfl, rfl, rfl, rfl, rfl, rfl, rfl, rfl, rfl⟩

/-- **No command moves the run.** -/
theorem sameRun_applyCommand (s : Executive) (c : Command) : SameRun s (s.applyCommand c) := by
  cases c with
  | freezeAt t => exact sameRun_freezeAt s t
  | setJobCycle js c =>
    show SameRun s (s.setJobCycle js c)
    unfold setJobCycle
    split
    · exact SameRun.refl s
    · refine sameRun_foldl (fun s j => ?_) js s
      exact ⟨rfl, rfl, rfl, rfl, rfl, rfl, rfl, rfl, rfl⟩
  | addSimObject o => exact sameRun_foldl sameRun_addJobsToQueue _ s
  | deleteSimObject ids => exact sameRun_foldl (fun s i => sameRun_foldl sameRun_removeJob _ s) ids s
  | setThreadEnabled n b => exact sameRun_setThreadEnabled s n b
  | _ => exact ⟨rfl, rfl, rfl, rfl, rfl, rfl, rfl, rfl, rfl⟩

theorem sameRun_applyCommands (s : Executive) (cmds : List Command) :
    SameRun s (s.applyCommands cmds) :=
  sameRun_foldl sameRun_applyCommand cmds s

/-- A job after a new call time. -/
theorem sameRun_setNextTics (s : Executive) (j : JobId) (n : Int) :
    SameRun s (s.setNextTics j n) :=
  ⟨rfl, rfl, rfl, rfl, rfl, rfl, rfl, rfl, rfl⟩

/-- A called job other than the one that advances the clock does not move the run. -/
theorem sameRun_runJobCode (s : Executive) (j : JobId) (c : JobCall)
    (hcode : (s.jobs j).code ≠ .advanceSimTime) : SameRun s (s.runJobCode j c) := by
  unfold runJobCode
  cases hc : (s.jobs j).code with
  | user =>
    simp only
    cases c.nextTics with
    | none => exact sameRun_applyCommands s c.commands
    | some n =>
      simp only
      split
      · exact (sameRun_applyCommands s c.commands).trans (sameRun_setNextTics _ _ _)
      · exact sameRun_applyCommands s c.commands
  | advanceSimTime => exact absurd hc hcode
  | schedFreezeToExecCommand b =>
    simp only
    unfold schedFreezeToExecCommand setNextTics
    split_ifs <;> exact ⟨rfl, rfl, rfl, rfl, rfl, rfl, rfl, rfl, rfl⟩
  | asyncFreezeToExecCommand =>
    simp only
    unfold asyncFreezeToExecCommand
    split_ifs <;> exact ⟨rfl, rfl, rfl, rfl, rfl, rfl, rfl, rfl, rfl⟩

theorem sameRun_testAfterCall (s : Executive) (q : LoopQueue) (j : JobId) :
    SameRun s (s.testAfterCall q j) := by
  unfold testAfterCall
  split
  · cases q <;> exact ⟨rfl, rfl, rfl, rfl, rfl, rfl, rfl, rfl, rfl⟩
  · exact SameRun.refl s

theorem setNextTics_jobs (s : Executive) (j : JobId) (n : Int) (k : JobId) :
    (s.setNextTics j n).jobs k = if k = j then { s.jobs k with nextTics := n } else s.jobs k := by
  show Function.update s.jobs j _ k = _
  by_cases hk : k = j
  · rw [if_pos hk, hk, Function.update_self]
  · rw [if_neg hk, Function.update_of_ne hk]

/-! ## Queues of an executive without child threads -/

/-- The queue of the main loop that a reference stands for. -/
def QueueRef.loopQueue : QueueRef → Option LoopQueue
  | .jobQueue 0 => some .scheduled
  | .topOfFrame 0 => some .topOfFrame
  | .endOfFrame 0 => some .endOfFrame
  | .threadSync => some .threadSync
  | .inputProcessorRun => some .inputProcessorRun
  | _ => none

/-- **Without child threads, changing a queue by reference replaces a queue of the main loop or
    does nothing.** -/
theorem modifyQueue_eq {s : Executive} (hth : s.threads = [])
    (f : ScheduledJobQueue → ScheduledJobQueue) (r : QueueRef) :
    s.modifyQueue f r =
      match r.loopQueue with
      | some q => s.setQueue q (f (s.queue q))
      | none => s := by
  have hnone : ∀ g : Threads → Threads, ∀ n,
      { s with threads := s.threads.modify n g } = s := by
    intro g n
    have : s.threads.modify n g = s.threads := by rw [hth]; cases n <;> rfl
    rw [this]
  rcases r with n | n | n | _ | _
  · cases n with
    | zero => rfl
    | succ n => exact hnone _ n
  · cases n with
    | zero => rfl
    | succ n => exact hnone _ n
  · cases n with
    | zero => rfl
    | succ n => exact hnone _ n
  · rfl
  · rfl

/-- Only the reference to the scheduled queue of the main thread stands for that queue. -/
theorem QueueRef.loopQueue_eq_scheduled {r : QueueRef} (h : r.loopQueue = some .scheduled) :
    r = .jobQueue 0 := by
  rcases r with n | n | n | _ | _
  · cases n with
    | zero => rfl
    | succ n => cases h
  · cases n <;> cases h
  · cases n <;> cases h
  · cases h
  · cases h

/-! ## What `newJob` leaves of a job -/

theorem scheduleTics_code (s : Executive) (j : JobData) : (s.scheduleTics j).code = j.code := by
  unfold scheduleTics JobData.calcCycleTics
  simp only
  split_ifs <;> rfl

theorem newJob_code (s : Executive) (id : Int) (j : JobData) : (s.newJob id j).code = j.code := by
  unfold newJob
  split
  · exact scheduleTics_code s _
  · rfl

end Trick.Exec.Executive
