/-
  The invariant behind the clock of the single threaded executive.

  `advance_sim_time` does not look at the jobs that the pass has already dealt with: it trusts the
  cached next call time of the two timed queues.  The cached time is right when it is *tracked*,
  not above any passed job that is due later, and *held*, by a job that is due later or by the end
  of the coming frame.  `ClockInv` states both, with what keeps them true: the freeze job is due at
  the first pending request, the job that is being called is not due later.

  `ClockCommandOk` is what a command must not do: take the cached time away from the last job that
  holds it, or slip a call time below the cached one behind the cursor of the input processor queue.
-/
import Trick.Executive.NoStrandedJob

namespace Trick.Exec.Executive

open Trick.Lib

/-! ## Who holds the cached time -/

/-- The queues whose cached call times the clock follows. -/
def timedQueues : List LoopQueue := [.inputProcessorRun, .scheduled]

/-- **The job holds the cached time of the queue**: it is due later, and not after that time. -/
def Holds (s : Executive) (q : LoopQueue) (j : JobId) : Prop :=
  s.timeTics < (s.jobs j).nextTics ∧ (s.jobs j).nextTics ≤ (s.queue q).nextJobTime

/-- The cached time of the queue is held by a job other than those of `without`, or lies at the end
    of the coming frame. -/
def HeldWithout (s : Executive) (q : LoopQueue) (without : List JobId) : Prop :=
  s.timeTics + s.softwareFrameTics ≤ (s.queue q).nextJobTime ∨
    ∃ j ∈ (s.queue q).list, j ∉ without ∧ Holds s q j

/-- The cached time of the queue is held. -/
abbrev Held (s : Executive) (q : LoopQueue) : Prop := HeldWithout s q []

/-- The walk over the input processor queue has begun, and the clock has not been advanced since. -/
def InputWalked (s : Executive) : Prop :=
  match s.pc with
  | .find .inputProcessorRun | .call .inputProcessorRun => True
  | .find .scheduled => s.jobQueue.currIndex ≤ s.jobQueue.list.idxOf s.advanceSimTimeJob
  | .call .scheduled =>
    s.jobQueue.currIndex ≤ s.jobQueue.list.idxOf s.advanceSimTimeJob ∨
      s.currJob = s.advanceSimTimeJob
  | _ => False

/-- The jobs of the input processor queue that the walk has passed. -/
def inputPassed (s : Executive) : List JobId :=
  s.inputProcessorRunQueue.list.take s.inputProcessorRunQueue.currIndex

/-! ## The invariant -/

/-- **The freeze requests**: in order, none beyond the last tic, and the freeze job is due at the
    first of them unless its call time has passed. -/
structure FreezeInv (s : Executive) : Prop where
  sorted : s.freezeTimes.Pairwise (· ≤ ·)
  le_max : ∀ t ∈ s.freezeTimes, t ≤ maxLongLong
  next : (s.jobs s.freezeJob).nextTics ≤ s.timeTics ∨
    (s.jobs s.freezeJob).nextTics = s.freezeTimes.headD maxLongLong
  notMem : s.freezeJob ∉ s.inputProcessorRunQueue.list

/-- The call time of a job is tested after its call. -/
def Tested (s : Executive) (q : LoopQueue) (j : JobId) : Prop :=
  q = .inputProcessorRun ∨ q = .scheduled ∧ (s.jobs j).systemJobClass = true

/-- **The job that is being called** is in no timed queue but the one that is walked, and if its
    call time will be tested it is not due later.  The freeze job may be given a later request. -/
structure CurrentInv (s : Executive) (q : LoopQueue) : Prop where
  lt : s.currJob < s.numJobs
  only : ∀ q' ∈ timedQueues, q' ≠ q → s.currJob ∉ (s.queue q').list
  due : s.currJob ≠ s.freezeJob → Tested s q s.currJob →
    (s.jobs s.currJob).nextTics ≤ s.timeTics

/-- **The invariant of the clock.** -/
structure ClockInv (s : Executive) : Prop where
  frame : s.nextFrameCheckTics ≤ s.timeTics + s.softwareFrameTics
  held : ∀ q ∈ timedQueues, Held s q
  input_cached : s.timeTics < s.inputProcessorRunQueue.nextJobTime
  input_tracked : InputWalked s → ∀ j ∈ inputPassed s, s.timeTics < (s.jobs j).nextTics →
    s.inputProcessorRunQueue.nextJobTime ≤ (s.jobs j).nextTics
  input_system : ∀ j ∈ s.inputProcessorRunQueue.list, (s.jobs j).systemJobClass = true
  freeze : FreezeInv s
  current : ∀ q, s.pc = .call q → CurrentInv s q

/-! ## Conditions on commands -/

/-- A job that takes the call time `n`, or leaves its queue, keeps the cached times held: it did
    not hold the cached time, or another one does, or it still does. -/
def ReleaseOk (s : Executive) (j : JobId) (n : Option Int) : Prop :=
  ∀ q ∈ timedQueues, j ∈ (s.queue q).list → Holds s q j →
    HeldWithout s q [j] ∨ ∃ m ∈ n, s.timeTics < m ∧ m ≤ (s.queue q).nextJobTime

/-- `set_job_cycle` of `j`: not the freeze job, the cached times stay held, and a job that the walk
    over the input processor queue has passed is not given a call time below the cached one. -/
def RetimeClockOk (cycle : ℚ) (s : Executive) (j : JobId) : Prop :=
  j ≠ s.freezeJob ∧ ReleaseOk s j (some ((retimeJob cycle s j).jobs j).nextTics) ∧
    (InputWalked s → j ∈ inputPassed s →
      s.timeTics < ((retimeJob cycle s j).jobs j).nextTics →
      s.inputProcessorRunQueue.nextJobTime ≤ ((retimeJob cycle s j).jobs j).nextTics)

/-- A new job of the input processor queue that lands behind the cursor: not due before the cached
    time. -/
def AddClockOk (id : Int) (s : Executive) (j : JobData) : Prop :=
  s.queueRef (s.newJob id j) = some .inputProcessorRun → InputWalked s →
    s.inputProcessorRunQueue.insertIndex
      (Function.update s.jobs s.numJobs (s.newJob id j)) s.numJobs <
        s.inputProcessorRunQueue.currIndex →
    s.timeTics < (s.newJob id j).nextTics →
    s.inputProcessorRunQueue.nextJobTime ≤ (s.newJob id j).nextTics

/-- A removed job: the cached times stay held, and the cursor of the input processor queue is not
    moved in front of its first job. -/
def RemoveClockOk (s : Executive) (j : JobId) : Prop :=
  ReleaseOk s j none ∧
    (InputWalked s → j ∈ s.inputProcessorRunQueue.list →
      s.inputProcessorRunQueue.currIndex ≠ 0)

/-- **The condition on a command.** -/
def ClockCommandOk (s : Executive) : Command → Prop
  | .freezeAt t => toTics s.timeTicValue t ≤ maxLongLong
  | .setJobCycle js c => 0 ≤ c → Guarded (RetimeClockOk c) (retimeJob c) s js
  | .addSimObject o =>
    Guarded (fun s jobs => Guarded (AddClockOk (s.numSimObjects + 1)) (addJob (s.numSimObjects + 1))
      { s with numSimObjects := s.numSimObjects + 1 } jobs) addJobsToQueue s o.inOrder
  | .deleteSimObject ids =>
    Guarded (fun s id => Guarded RemoveClockOk removeJob s (s.simObjectJobs id)) removeJobs s ids
  | _ => True

/-- The commands of one call, each in the state in which it is given. -/
def ClockCommandsOk (s : Executive) (cmds : List Command) : Prop :=
  Guarded ClockCommandOk applyCommand s cmds

/-! The conditions can be tested. -/

instance (s : Executive) (q : LoopQueue) (j : JobId) : Decidable (Holds s q j) :=
  inferInstanceAs (Decidable (_ ∧ _))

instance (s : Executive) (q : LoopQueue) (l : List JobId) : Decidable (HeldWithout s q l) :=
  inferInstanceAs (Decidable (_ ∨ ∃ j ∈ (s.queue q).list, j ∉ l ∧ Holds s q j))

theorem inputWalked_iff (s : Executive) :
    (s.pc = .find .inputProcessorRun ∨ s.pc = .call .inputProcessorRun) ∨
      (s.pc = .find .scheduled ∨ s.pc = .call .scheduled) ∧
        s.jobQueue.currIndex ≤ s.jobQueue.list.idxOf s.advanceSimTimeJob ∨
      s.pc = .call .scheduled ∧ s.currJob = s.advanceSimTimeJob ↔ InputWalked s := by
  unfold InputWalked
  cases s.pc with
  | find q => cases q <;> simp
  | call q => cases q <;> simp
  | _ => simp

instance (s : Executive) : Decidable (InputWalked s) := decidable_of_iff _ (inputWalked_iff s)

instance (s : Executive) (j : JobId) : (n : Option Int) → Decidable (ReleaseOk s j n)
  | none => decidable_of_iff (∀ q ∈ timedQueues, j ∈ (s.queue q).list → Holds s q j →
      HeldWithout s q [j]) (by simp [ReleaseOk])
  | some m => decidable_of_iff (∀ q ∈ timedQueues, j ∈ (s.queue q).list → Holds s q j →
      HeldWithout s q [j] ∨ s.timeTics < m ∧ m ≤ (s.queue q).nextJobTime) (by simp [ReleaseOk])

instance (c : ℚ) (s : Executive) (j : JobId) : Decidable (RetimeClockOk c s j) :=
  inferInstanceAs (Decidable (_ ∧ _ ∧ (_ → _ → _ → _)))

instance (id : Int) (s : Executive) (j : JobData) : Decidable (AddClockOk id s j) :=
  inferInstanceAs (Decidable (_ → _ → _ → _ → _))

instance (s : Executive) (j : JobId) : Decidable (RemoveClockOk s j) :=
  inferInstanceAs (Decidable (_ ∧ (_ → _ → _)))

instance ClockCommandOk.decidable (s : Executive) : (c : Command) → Decidable (ClockCommandOk s c)
  | .freezeAt _ => inferInstanceAs (Decidable (_ ≤ _))
  | .setJobCycle _ _ => inferInstanceAs (Decidable (_ → Guarded _ _ _ _))
  | .addSimObject _ => inferInstanceAs (Decidable (Guarded _ _ _ _))
  | .deleteSimObject _ => inferInstanceAs (Decidable (Guarded _ _ _ _))
  | .freeze | .setTerminateTime _ | .setFreezeOnFrameBoundary _ | .setExecCommand _
  | .setThreadEnabled _ _ => isTrue trivial

instance (s : Executive) (cmds : List Command) : Decidable (ClockCommandsOk s cmds) :=
  inferInstanceAs (Decidable (Guarded _ _ _ _))

variable {m : Mode} {a : JobId} {s : Executive}

/-! ## Changes of one job -/

/-- A cached time that `j` alone need not hold any more is still held when `j` changes. -/
theorem held_updateJob {j : JobId} {d : JobData} {l : List Int} {e : SimCommand}
    (h : ∀ q ∈ timedQueues, Held s q) (hrel : ReleaseOk s j (some d.nextTics)) :
    ∀ q ∈ timedQueues,
      Held { s with jobs := Function.update s.jobs j d, freezeTimes := l, execCommand := e } q := by
  intro q hq
  have hkeep : ∀ k, k ≠ j → Holds s q k →
      Holds { s with jobs := Function.update s.jobs j d, freezeTimes := l, execCommand := e } q k := by
    intro k hk hold
    unfold Holds
    show s.timeTics < (Function.update s.jobs j d k).nextTics ∧
      (Function.update s.jobs j d k).nextTics ≤ _
    rw [Function.update_of_ne hk]
    have : Executive.queue { s with
      jobs := Function.update s.jobs j d, freezeTimes := l, execCommand := e } q = s.queue q := by
      cases q <;> rfl
    rw [this]
    exact hold
  have hqueue : Executive.queue { s with
      jobs := Function.update s.jobs j d, freezeTimes := l, execCommand := e } q = s.queue q := by
    cases q <;> rfl
  unfold Held HeldWithout
  rw [hqueue]
  rcases h q hq with hfar | ⟨k, hk, _, hold⟩
  · exact Or.inl hfar
  by_cases hkj : k = j
  · subst hkj
    rcases hrel q hq hk hold with (hfar | ⟨k', hk', hne, hold'⟩) | ⟨n, hn, hlt, hle⟩
    · exact Or.inl hfar
    · exact Or.inr ⟨k', hk', by simp, hkeep k' (by simpa using hne) hold'⟩
    · -- the job itself goes on holding it
      cases hn
      refine Or.inr ⟨k, hk, by simp, ?_⟩
      unfold Holds
      rw [hqueue]
      show s.timeTics < (Function.update s.jobs k d k).nextTics ∧
        (Function.update s.jobs k d k).nextTics ≤ _
      rw [Function.update_self]
      exact ⟨hlt, hle⟩
  · exact Or.inr ⟨k, hk, by simp, hkeep k hkj hold⟩

/-- **One job changed**, and the freeze requests with it. -/
theorem ClockInv.updateJob (h : ClockInv s) {j : JobId} {d : JobData} {l : List Int}
    {e : SimCommand} (hsys : d.systemJobClass = (s.jobs j).systemJobClass)
    (hrel : ReleaseOk s j (some d.nextTics))
    (htrack : InputWalked s → j ∈ inputPassed s → s.timeTics < d.nextTics →
      s.inputProcessorRunQueue.nextJobTime ≤ d.nextTics)
    (hcur : ∀ q, s.pc = .call q → Tested s q j → j ≠ s.freezeJob →
      (s.jobs j).nextTics ≤ s.timeTics → d.nextTics ≤ s.timeTics)
    (hfreeze : FreezeInv { s with
      jobs := Function.update s.jobs j d, freezeTimes := l, execCommand := e }) :
    ClockInv { s with
      jobs := Function.update s.jobs j d, freezeTimes := l, execCommand := e } := by
  refine ⟨h.frame, held_updateJob h.held hrel, h.input_cached, ?_, ?_, hfreeze, ?_⟩
  · intro hw k hk
    show s.timeTics < (Function.update s.jobs j d k).nextTics →
      s.inputProcessorRunQueue.nextJobTime ≤ (Function.update s.jobs j d k).nextTics
    by_cases hkj : k = j
    · subst hkj; rw [Function.update_self]; exact htrack hw hk
    · rw [Function.update_of_ne hkj]; exact h.input_tracked hw k hk
  · intro k hk
    show (Function.update s.jobs j d k).systemJobClass = true
    by_cases hkj : k = j
    · subst hkj; rw [Function.update_self, hsys]; exact h.input_system k hk
    · rw [Function.update_of_ne hkj]; exact h.input_system k hk
  · intro q hpc
    have hc := h.current q hpc
    refine ⟨hc.lt, ?_, ?_⟩
    · intro q' hq'
      have := hc.only q' hq'
      cases q' <;> exact this
    · show s.currJob ≠ s.freezeJob → (q = .inputProcessorRun ∨
          q = .scheduled ∧ (Function.update s.jobs j d s.currJob).systemJobClass = true) →
        (Function.update s.jobs j d s.currJob).nextTics ≤ s.timeTics
      by_cases hj : s.currJob = j
      · subst hj
        rw [Function.update_self, hsys]
        intro hu ht
        exact hcur q hpc ht hu (hc.due hu ht)
      · rw [Function.update_of_ne hj]; exact hc.due

/-- A job other than the freeze job changed: the freeze requests are not touched. -/
theorem FreezeInv.updateJob (h : FreezeInv s) {j : JobId} (d : JobData) (hj : j ≠ s.freezeJob) :
    FreezeInv { s with jobs := Function.update s.jobs j d } := by
  refine ⟨h.sorted, h.le_max, ?_, h.notMem⟩
  show (Function.update s.jobs j d s.freezeJob).nextTics ≤ s.timeTics ∨
    (Function.update s.jobs j d s.freezeJob).nextTics = _
  rw [Function.update_of_ne hj.symm]
  exact h.next

/-- `set_cycle` and `set_next_call_time` of one job. -/
theorem ClockInv.retimeJob (h : ClockInv s) {c : ℚ} {j : JobId} (hok : RetimeClockOk c s j) :
    ClockInv (retimeJob c s j) := by
  obtain ⟨hne, hrel, htrack⟩ := hok
  have hself : (Executive.retimeJob c s j).jobs j =
      ((s.jobs j).setCycle s.timeTicValue c).setNextCallTime s.timeTics := by
    show Function.update s.jobs j _ j = _
    rw [Function.update_self]
  rw [hself] at hrel htrack
  refine h.updateJob (l := s.freezeTimes) (e := s.execCommand) rfl hrel htrack ?_
    (h.freeze.updateJob _ hne)
  intro _ _ _ _ hn
  exact le_of_eq (JobData.setNextCallTime_of_le hn)

/-! ## Freeze requests -/

/-- The first of the requests after a new one has been put in its place. -/
theorem headD_orderedInsert (n : Int) (l : List Int) (d : Int) (hd : n ≤ d) :
    (l.orderedInsert (· ≤ ·) n).headD d = min n (l.headD d) := by
  cases l with
  | nil =>
    show n = min n d
    omega
  | cons h l =>
    rw [List.orderedInsert_cons]
    split
    · rename_i hle
      show n = min n h
      omega
    · rename_i hle
      show h = min n h
      omega

/-- **The freeze job takes a new call time**, not after the one it had if that was still to come. -/
theorem ClockInv.setFreeze (h : ClockInv s) {l : List Int} {e : SimCommand} {n : Int}
    (hsorted : l.Pairwise (· ≤ ·)) (hmax : ∀ t ∈ l, t ≤ maxLongLong)
    (hnext : n ≤ s.timeTics ∨ n = l.headD maxLongLong)
    (hkeep : s.timeTics < (s.jobs s.freezeJob).nextTics →
      s.timeTics < n ∧ n ≤ (s.jobs s.freezeJob).nextTics) :
    ClockInv { s with
      jobs := Function.update s.jobs s.freezeJob { s.jobs s.freezeJob with nextTics := n }
      freezeTimes := l
      execCommand := e } := by
  refine h.updateJob rfl ?_ ?_ ?_ ⟨hsorted, hmax, ?_, h.freeze.notMem⟩
  · rintro q _ _ ⟨hlt, hle⟩
    obtain ⟨hn, hn'⟩ := hkeep hlt
    exact Or.inr ⟨n, rfl, hn, le_trans hn' hle⟩
  · intro _ hj
    exact absurd (List.mem_of_mem_take hj) h.freeze.notMem
  · intro _ _ _ hne
    exact absurd rfl hne
  · show (Function.update s.jobs s.freezeJob _ s.freezeJob).nextTics ≤ s.timeTics ∨
      (Function.update s.jobs s.freezeJob _ s.freezeJob).nextTics = _
    rw [Function.update_self]
    exact hnext

theorem ClockInv.freezeAt (h : ClockInv s) {t : ℚ}
    (hok : toTics s.timeTicValue t ≤ maxLongLong) : ClockInv (s.freezeAt t) := by
  obtain ⟨hsorted, hmax, hnext, _⟩ := h.freeze
  have hhead := headD_orderedInsert _ s.freezeTimes _ hok
  have hmax' : ∀ x ∈ s.freezeTimes.orderedInsert (· ≤ ·) (toTics s.timeTicValue t),
      x ≤ maxLongLong := by
    intro x hx
    rcases (List.mem_orderedInsert (· ≤ ·)).mp hx with rfl | hx
    · exact hok
    · exact hmax x hx
  unfold Executive.freezeAt
  simp only
  split
  · rename_i hnew
    split
    · -- the new request is the first
      rename_i hlt
      refine h.setFreeze (hsorted.orderedInsert _ _) hmax' (Or.inr ?_) (fun _ => ?_)
      · rw [hhead]
        have hlt' : toTics s.timeTicValue t < (s.jobs s.freezeJob).nextTics := hlt
        omega
      · exact ⟨hnew, le_of_lt hlt⟩
    · -- the freeze job keeps its call time
      rename_i hlt
      have hlt' : ¬ toTics s.timeTicValue t < (s.jobs s.freezeJob).nextTics := hlt
      have hset := h.setFreeze (l := s.freezeTimes.orderedInsert (· ≤ ·)
        (toTics s.timeTicValue t)) (e := s.execCommand) (n := (s.jobs s.freezeJob).nextTics)
        (hsorted.orderedInsert _ _) hmax' ?_ (fun hn => ⟨hn, le_refl _⟩)
      · rw [Function.update_eq_self] at hset
        exact hset
      · rw [hhead]
        omega
  · exact h

/-- The requests that are left at `t`, when the first of them all is later. -/
theorem dropWhile_of_head {l : List Int} {t d : Int} (h : t < l.headD d) :
    l.dropWhile (· ≤ t) = l := by
  cases l with
  | nil => rfl
  | cons x l =>
    have hx : ¬ x ≤ t := not_le.mpr h
    simp only [List.dropWhile_cons, decide_eq_true_eq, if_neg hx]

theorem ClockInv.schedFreeze (h : ClockInv s) (b : Bool) :
    ClockInv (s.schedFreezeToExecCommand b) := by
  obtain ⟨hsorted, hmax, hnext, _⟩ := h.freeze
  have hsub := List.dropWhile_sublist (· ≤ s.timeTics) (l := s.freezeTimes)
  unfold Executive.schedFreezeToExecCommand
  simp only
  split
  · refine h.setFreeze (hsorted.sublist hsub) (fun t ht => hmax t (hsub.subset ht))
      (Or.inr rfl) ?_
    intro hn
    -- a freeze job that is due later stands at the first request
    have heq : (s.jobs s.freezeJob).nextTics = s.freezeTimes.headD maxLongLong := by omega
    rw [dropWhile_of_head (heq ▸ hn), ← heq]
    exact ⟨hn, le_refl _⟩
  · exact h

/-! ## Changes of one queue -/

/-- The other queues do not see the replacement of one. -/
theorem held_setQueue {q : LoopQueue} {v : ScheduledJobQueue}
    (hv : v.nextJobTime = (s.queue q).nextJobTime)
    (h : ∀ q ∈ timedQueues, Held s q)
    (hmem : q ∈ timedQueues → Held s q → s.timeTics + s.softwareFrameTics ≤
      (s.queue q).nextJobTime ∨ ∃ j ∈ v.list, Holds s q j) :
    ∀ q' ∈ timedQueues, Held (s.setQueue q v) q' := by
  intro q' hq'
  have hfields : (s.setQueue q v).timeTics = s.timeTics ∧
      (s.setQueue q v).softwareFrameTics = s.softwareFrameTics ∧ (s.setQueue q v).jobs = s.jobs := by
    cases q <;> exact ⟨rfl, rfl, rfl⟩
  obtain ⟨ht, hf, hj⟩ := hfields
  unfold Held HeldWithout Holds
  rw [ht, hf, hj]
  by_cases hqq : q' = q
  · subst hqq
    rw [queue_setQueue_self, hv]
    rcases hmem hq' (h q' hq') with hfar | ⟨j, hj, hold⟩
    · exact Or.inl hfar
    · exact Or.inr ⟨j, hj, by simp, hold⟩
  · rw [queue_setQueue_of_ne s v hqq]
    exact h q' hq'

/-- **One queue replaced** by one with the same cached time. -/
theorem ClockInv.setQueue (h : ClockInv s) {q : LoopQueue} {v : ScheduledJobQueue}
    (hv : v.nextJobTime = (s.queue q).nextJobTime)
    (hmem : q ∈ timedQueues → Held s q → s.timeTics + s.softwareFrameTics ≤
      (s.queue q).nextJobTime ∨ ∃ j ∈ v.list, Holds s q j)
    (hwalk : InputWalked (s.setQueue q v) → InputWalked s)
    (hpassed : q = .inputProcessorRun → InputWalked s → ∀ j ∈ v.list.take v.currIndex,
      j ∈ inputPassed s ∨ (s.timeTics < (s.jobs j).nextTics →
        s.inputProcessorRunQueue.nextJobTime ≤ (s.jobs j).nextTics))
    (hsys : q = .inputProcessorRun → ∀ j ∈ v.list, (s.jobs j).systemJobClass = true)
    (hfrz : s.freezeJob ∉ (s.queue q).list → s.freezeJob ∉ v.list)
    (hcurr : ∀ q', s.pc = .call q' → s.currJob ∉ (s.queue q).list → s.currJob ∉ v.list) :
    ClockInv (s.setQueue q v) := by
  have hpc : (s.setQueue q v).pc = s.pc := by cases q <;> rfl
  have hjob : (s.setQueue q v).currJob = s.currJob := by cases q <;> rfl
  have hnum : (s.setQueue q v).numJobs = s.numJobs := by cases q <;> rfl
  have hjobs : (s.setQueue q v).jobs = s.jobs := by cases q <;> rfl
  have htime : (s.setQueue q v).timeTics = s.timeTics := by cases q <;> rfl
  have hmain : (s.setQueue q v).inputProcessorRunQueue =
      (s.setQueue q v).queue .inputProcessorRun := rfl
  refine ⟨?_, held_setQueue hv h.held hmem, ?_, ?_, ?_, ⟨?_, ?_, ?_, ?_⟩, ?_⟩
  · cases q <;> exact h.frame
  · cases q with
    | inputProcessorRun =>
      show s.timeTics < v.nextJobTime
      rw [hv]; exact h.input_cached
    | _ => exact h.input_cached
  · intro hw j hj
    rw [htime, hjobs]
    have hw' := hwalk hw
    by_cases hq : q = .inputProcessorRun
    · subst hq
      intro hn
      show v.nextJobTime ≤ _
      rw [hv]
      rcases hpassed rfl hw' j hj with hin | hle
      · exact h.input_tracked hw' j hin hn
      · exact hle hn
    · have hsame : (s.setQueue q v).inputProcessorRunQueue = s.inputProcessorRunQueue := by
        rw [hmain, queue_setQueue_of_ne s v (Ne.symm hq)]; rfl
      unfold inputPassed at hj
      rw [hsame] at hj ⊢
      exact h.input_tracked hw' j hj
  · rw [hmain, queue_setQueue, hjobs]
    split
    · rename_i hq; exact hsys hq.symm
    · exact h.input_system
  · cases q <;> exact h.freeze.sorted
  · cases q <;> exact h.freeze.le_max
  · cases q <;> exact h.freeze.next
  · have hfj : (s.setQueue q v).freezeJob = s.freezeJob := by cases q <;> rfl
    rw [hmain, queue_setQueue, hfj]
    split
    · rename_i hq
      subst hq
      exact hfrz h.freeze.notMem
    · exact h.freeze.notMem
  · intro q₀ hq₀
    have hc := h.current q₀ (hpc ▸ hq₀)
    refine ⟨?_, ?_, ?_⟩
    · rw [hjob, hnum]; exact hc.lt
    · intro q' hq' hne
      rw [hjob, queue_setQueue]
      split
      · rename_i hqq
        subst hqq
        exact hcurr q₀ (hpc ▸ hq₀) (hc.only q' hq' hne)
      · exact hc.only q' hq' hne
    · have hfj : (s.setQueue q v).freezeJob = s.freezeJob := by cases q <;> rfl
      unfold Tested
      rw [hjob, hjobs, htime, hfj]; exact hc.due

/-- The walk over the input processor queue is as far after a change that keeps the executive
    settled as it was before. -/
theorem inputWalked_of_settled {s' : Executive} (h : Settled m a s) (h' : Settled m a s')
    (hrun : SameRun s s') (hfind : s.pc ≠ .find .scheduled) (hw : InputWalked s') :
    InputWalked s := by
  unfold InputWalked at hw ⊢
  rw [hrun.pc] at hw
  cases hpc : s.pc with
  | find q =>
    rw [hpc] at hw hfind
    cases q <;> first | exact hw | exact absurd rfl hfind
  | call q =>
    rw [hpc] at hw
    cases q with
    | scheduled =>
      simp only at hw ⊢
      rcases hw with hle | heq
      · have hin : InHead s' := ⟨hrun.pc.trans hpc, hle⟩
        cases m with
        | head => exact Or.inl h.inHead.2
        | tail => exact absurd hin h'.not_inHead
        | between => exact absurd hin.1 h'.at_pc
      · exact Or.inr (by rw [← hrun.currJob, heq, h'.adv, h.adv])
    | _ => exact hw
  | _ => rw [hpc] at hw; exact hw

/-- The jobs behind the cursor after an insertion. -/
theorem mem_take_insertAt {i k k' : Nat} {x j : JobId} {l : List JobId} (hi : i ≤ l.length)
    (hk : if i < k then k' ≤ k + 1 else k' = k) (hj : j ∈ (insertAt i x l).take k') :
    j ∈ l.take k ∨ j = x ∧ i < k := by
  have hmem := mem_insertAt.mp (List.mem_of_mem_take hj)
  split at hk
  · rename_i hlt
    by_cases hjx : j = x
    · exact Or.inr ⟨hjx, hlt⟩
    · left
      have hj' : j ∈ (insertAt i x l).take (k + 1) :=
        (List.take_subset_take_left _ hk) hj
      have htake : (insertAt i x l).take (k + 1) = insertAt i x (l.take k) := by
        unfold insertAt
        rw [List.take_append, List.length_take, List.take_take, List.take_take,
          Nat.min_eq_right (by omega), Nat.min_eq_left (by omega), List.drop_take]
        have hlen : k + 1 - i = (k - i) + 1 := by omega
        rw [hlen, List.take_succ_cons, Nat.min_eq_left (le_of_lt hlt)]
      rw [htake] at hj'
      rcases mem_insertAt.mp hj' with rfl | hin
      · exact absurd rfl hjx
      · exact hin
  · rename_i hge
    left
    subst hk
    have htake : (insertAt i x l).take k' = l.take k' := by
      unfold insertAt
      rw [List.take_append, List.length_take, List.take_take, Nat.min_eq_left (by omega)]
      have hlen : k' - min i l.length = 0 := by omega
      rw [hlen, List.take_zero, List.append_nil]
    rw [htake] at hj
    exact hj

/-- The jobs behind the cursor after a removal. -/
theorem mem_take_erase {j x : JobId} : ∀ {l : List JobId} {k k' : Nat},
    (if l.idxOf j ≤ k then k' + 1 ≤ k else k' = k) → x ∈ (l.erase j).take k' → x ∈ l.take k := by
  intro l
  induction l with
  | nil => intro k k' _ hx; simp at hx
  | cons b l ih =>
    intro k k' hk hx
    by_cases hb : b = j
    · -- the removed job is the first
      subst hb
      rw [List.erase_cons_head] at hx
      rw [List.idxOf_cons_self, if_pos (Nat.zero_le _)] at hk
      obtain ⟨n, rfl⟩ : ∃ n, k = n + 1 := ⟨k - 1, by omega⟩
      rw [List.take_succ_cons]
      exact List.mem_cons_of_mem _ (List.take_subset_take_left _ (by omega) hx)
    · rw [List.erase_cons_tail (by simpa using hb)] at hx
      rw [List.idxOf_cons_ne _ hb] at hk
      cases k' with
      | zero => simp at hx
      | succ n' =>
        rw [List.take_succ_cons] at hx
        obtain ⟨n, rfl⟩ : ∃ n, k = n + 1 := ⟨k - 1, by split at hk <;> omega⟩
        rw [List.take_succ_cons]
        rcases List.mem_cons.mp hx with rfl | hx
        · exact List.mem_cons_self ..
        · refine List.mem_cons_of_mem _ (ih ?_ hx)
          split at hk
          · rw [if_pos (by omega)]; omega
          · rw [if_neg (by omega)]; omega

theorem mem_passed_remove {q : ScheduledJobQueue} {j x : JobId} (hj : j ∈ q.list)
    (hcur : q.currIndex ≠ 0) (hx : x ∈ (q.remove j).list.take (q.remove j).currIndex) :
    x ∈ q.list.take q.currIndex := by
  unfold ScheduledJobQueue.remove at hx
  rw [if_pos hj] at hx
  refine mem_take_erase ?_ hx
  simp only [if_neg hcur]
  split
  · omega
  · rfl

/-! ## Each command keeps the clock right -/

/-- **Settled, and the clock right.**  Commands come from a call or from the freeze loop, never
    while a queue is searched. -/
structure Clocked (m : Mode) (a : JobId) (s : Executive) : Prop where
  settled : Settled m a s
  clock : ClockInv s
  not_find : s.pc ≠ .find .scheduled

/-- The cached times stay held when `j` is taken out of one queue. -/
theorem held_erase {q : LoopQueue} {j : JobId} (hq : q ∈ timedQueues) (hheld : Held s q)
    (hrel : ReleaseOk s j none) :
    s.timeTics + s.softwareFrameTics ≤ (s.queue q).nextJobTime ∨
      ∃ k ∈ (s.queue q).list.erase j, Holds s q k := by
  rcases hheld with hfar | ⟨k, hk, _, hold⟩
  · exact Or.inl hfar
  by_cases hkj : k = j
  · subst hkj
    rcases hrel q hq hk hold with (hfar | ⟨k', hk', hne, hold'⟩) | ⟨n, hn, _⟩
    · exact Or.inl hfar
    · exact Or.inr ⟨k', (List.mem_erase_of_ne (by simpa using hne)).mpr hk', hold'⟩
    · cases hn
  · exact Or.inr ⟨k, (List.mem_erase_of_ne hkj).mpr hk, hold⟩

theorem removeJob_clocked {j : JobId} (h : Clocked m a s) (hok : RemoveOk s j)
    (hclock : RemoveClockOk s j) : Clocked m a (s.removeJob j) := by
  have hset := removeJob_settled h.settled hok
  have hrun := sameRun_removeJob s j
  refine ⟨hset, ?_, by rw [hrun.pc]; exact h.not_find⟩
  have hwalk := inputWalked_of_settled h.settled hset hrun h.not_find
  revert hwalk
  unfold removeJob
  cases hr : s.queueRef (s.jobs j) with
  | none => exact fun _ => h.clock
  | some r =>
    simp only
    rw [modifyQueue_eq h.settled.wf.threads_nil]
    cases hq : r.loopQueue with
    | none => exact fun _ => h.clock
    | some q =>
      simp only
      intro hwalk
      by_cases hj : j ∈ (s.queue q).list
      swap
      · -- the job is not in the queue
        have hsame : (s.queue q).remove j = s.queue q := by
          unfold ScheduledJobQueue.remove; rw [if_neg hj]
        rw [hsame]
        have : s.setQueue q (s.queue q) = s := by cases q <;> rfl
        rw [this]
        exact h.clock
      have hlist : ((s.queue q).remove j).list = (s.queue q).list.erase j := by
        unfold ScheduledJobQueue.remove; rw [if_pos hj]
      refine h.clock.setQueue ?_ ?_ hwalk ?_ ?_ ?_ ?_
      · unfold ScheduledJobQueue.remove; rw [if_pos hj]
      · intro hqt hheld
        rw [hlist]
        exact held_erase hqt hheld hclock.1
      · rintro rfl hw x hx
        left
        exact mem_passed_remove hj (hclock.2 hw hj) hx
      · rintro rfl k hk
        rw [hlist] at hk
        exact h.clock.input_system k (List.mem_of_mem_erase hk)
      · intro hk hin
        rw [hlist] at hin
        exact hk (List.mem_of_mem_erase hin)
      · intro _ _ hk hin
        rw [hlist] at hin
        exact hk (List.mem_of_mem_erase hin)

/-- The store may grow. -/
theorem ClockInv.withNewJob (h : ClockInv s) (hwf : Wf s) (id : Int) (j : JobData) :
    ClockInv (withNewJob id s j) := by
  have hold : ∀ k, k < s.numJobs →
      Function.update s.jobs s.numJobs (s.newJob id j) k = s.jobs k := by
    intro k hk
    exact Function.update_of_ne (Nat.ne_of_lt hk) _ _
  refine ⟨h.frame, ?_, h.input_cached, ?_, ?_, ⟨h.freeze.sorted, h.freeze.le_max, ?_,
    h.freeze.notMem⟩, ?_⟩
  · intro q hq
    have hqueue : (Executive.withNewJob id s j).queue q = s.queue q := by cases q <;> rfl
    unfold Held HeldWithout Holds
    rw [hqueue]
    rcases h.held q hq with hfar | ⟨k, hk, hne, hlt⟩
    · exact Or.inl hfar
    · refine Or.inr ⟨k, hk, hne, ?_⟩
      show s.timeTics < (Function.update s.jobs s.numJobs _ k).nextTics ∧
        (Function.update s.jobs s.numJobs _ k).nextTics ≤ _
      rw [hold k (hwf.below q k hk)]
      exact hlt
  · intro hw k hk
    show s.timeTics < (Function.update s.jobs s.numJobs _ k).nextTics →
      _ ≤ (Function.update s.jobs s.numJobs _ k).nextTics
    rw [hold k (hwf.below .inputProcessorRun k (List.mem_of_mem_take hk))]
    exact h.input_tracked hw k hk
  · intro k hk
    show (Function.update s.jobs s.numJobs _ k).systemJobClass = true
    rw [hold k (hwf.below .inputProcessorRun k hk)]
    exact h.input_system k hk
  · show (Function.update s.jobs s.numJobs _ s.freezeJob).nextTics ≤ _ ∨
      (Function.update s.jobs s.numJobs _ s.freezeJob).nextTics = _
    rw [hold _ hwf.freeze_lt]
    exact h.freeze.next
  · intro q hpc
    have hc := h.current q hpc
    refine ⟨Nat.lt_succ_of_lt hc.lt, ?_, ?_⟩
    · intro q' hq'
      have := hc.only q' hq'
      cases q' <;> exact this
    · show s.currJob ≠ s.freezeJob → (q = .inputProcessorRun ∨
          q = .scheduled ∧ (Function.update s.jobs s.numJobs _ s.currJob).systemJobClass = true) →
        (Function.update s.jobs s.numJobs _ s.currJob).nextTics ≤ s.timeTics
      rw [hold _ hc.lt]
      exact hc.due

/-- The jobs behind the cursor after `push`. -/
theorem mem_passed_push {q : ScheduledJobQueue} {jobs : JobHeap} {x j : JobId}
    (hj : j ∈ (q.push jobs x).list.take (q.push jobs x).currIndex) :
    j ∈ q.list.take q.currIndex ∨ j = x ∧ q.insertIndex jobs x < q.currIndex := by
  refine mem_take_insertAt (upperBound_le_length _ _ _) ?_ hj
  show if _ then (if q.insertIndex jobs x < q.currIndex then (q.currIndex + 1) % uintSize
    else q.currIndex) ≤ _ else (if q.insertIndex jobs x < q.currIndex then _ else _) = _
  by_cases hlt : q.insertIndex jobs x < q.currIndex
  · have := Nat.mod_le (q.currIndex + 1) uintSize
    rw [if_pos hlt, if_pos hlt]
    exact this
  · rw [if_neg hlt, if_neg hlt]

/-- A new job of the input processor queue reschedules itself. -/
theorem newJob_inputSystem {id : Int} {j : JobData}
    (hr : s.queueRef (s.newJob id j) = some .inputProcessorRun) :
    (s.newJob id j).systemJobClass = true := by
  have hcls : (s.newJob id j).jobClassName = j.jobClassName ∧
      (s.newJob id j).systemJobClass = (j.systemJobClass || j.jobClassName.isSystemJobClass) := by
    unfold newJob scheduleTics JobData.calcCycleTics
    simp only
    split_ifs <;> exact ⟨rfl, rfl⟩
  unfold queueRef at hr
  split at hr
  · cases hr
  · split at hr
    · cases hr
    · split at hr
      all_goals cases hr
      rename_i hin
      rw [hcls.2, ← hcls.1, hin]
      simp [JobClassName.isSystemJobClass]

theorem addJob_clocked {id : Int} {j : JobData} (h : Clocked m a s) (hok : AddOk id s j)
    (hclock : AddClockOk id s j) : Clocked m a (addJob id s j) := by
  have hset := addJob_settled h.settled hok
  have hrun := sameRun_addJob id s j
  refine ⟨hset, ?_, by rw [hrun.pc]; exact h.not_find⟩
  have hwf := h.settled.wf
  have hnew := h.settled.withNewJob id hok.code
  have hcnew := h.clock.withNewJob hwf id j
  have hwalk : InputWalked (addJob id s j) → InputWalked (withNewJob id s j) := by
    intro hw
    have hold := inputWalked_of_settled h.settled hset hrun h.not_find hw
    exact hold
  revert hwalk
  rw [addJob_eq hwf.threads_nil hok.className hok.thread]
  cases hr : s.queueRef (s.newJob id j) with
  | none => exact fun _ => hcnew
  | some r =>
    simp only
    rw [modifyQueue_eq hnew.wf.threads_nil]
    cases hq : r.loopQueue with
    | none => exact fun _ => hcnew
    | some q =>
      simp only
      intro hwalk
      have hself : (withNewJob id s j).jobs s.numJobs = s.newJob id j := Function.update_self ..
      have href : q = .inputProcessorRun → r = .inputProcessorRun := by
        rintro rfl
        rcases r with n | n | n | _ | _
        all_goals first | rfl | cases hq | (cases n <;> cases hq)
      refine hcnew.setQueue (v := ((withNewJob id s j).queue q).push _ _) rfl ?_ hwalk ?_ ?_ ?_ ?_
      · rintro _ (hfar | ⟨k, hk, _, hold⟩)
        · exact Or.inl hfar
        · exact Or.inr ⟨k, mem_insertAt.mpr (Or.inr hk), hold⟩
      · rintro rfl hw k hk
        rcases mem_passed_push hk with hin | ⟨rfl, hlt⟩
        · exact Or.inl hin
        · right
          rw [hself]
          exact hclock (hr.trans (congrArg some (href rfl))) hw hlt
      · rintro rfl k hk
        rcases mem_insertAt.mp hk with rfl | hk
        · rw [hself]
          exact newJob_inputSystem (hr.trans (congrArg some (href rfl)))
        · exact hcnew.input_system k hk
      · intro hk hin
        rcases mem_insertAt.mp hin with he | hin
        · exact Nat.ne_of_lt hwf.freeze_lt he
        · exact hk hin
      · intro q' hpc hk hin
        rcases mem_insertAt.mp hin with he | hin
        · exact Nat.ne_of_lt (h.clock.current q' hpc).lt he
        · exact hk hin

theorem retimeJob_clocked {c : ℚ} {j : JobId} (h : Clocked m a s) (hok : RetimeOk c s j)
    (hclock : RetimeClockOk c s j) : Clocked m a (retimeJob c s j) :=
  ⟨retimeJob_settled h.settled hok, h.clock.retimeJob hclock, h.not_find⟩

/-- Fields that the clock does not look at may change. -/
theorem ClockInv.of_fields (h : ClockInv s) {s' : Executive} (hrun : SameRun s s')
    (hjobs : s'.jobs = s.jobs) (hnum : s'.numJobs = s.numJobs)
    (hq : ∀ q, s'.queue q = s.queue q) (hadv : s'.advanceSimTimeJob = s.advanceSimTimeJob)
    (hfrz : s'.freezeTimes = s.freezeTimes) : ClockInv s' := by
  have hin : s'.inputProcessorRunQueue = s.inputProcessorRunQueue := hq .inputProcessorRun
  have hmain : s'.jobQueue = s.jobQueue := hq .scheduled
  refine ⟨?_, ?_, ?_, ?_, ?_, ⟨?_, ?_, ?_, ?_⟩, ?_⟩
  · rw [hrun.nextFrameCheckTics, hrun.timeTics, hrun.softwareFrameTics]; exact h.frame
  · intro q hqt
    unfold Held HeldWithout Holds
    rw [hq, hjobs, hrun.timeTics, hrun.softwareFrameTics]
    exact h.held q hqt
  · rw [hin, hrun.timeTics]; exact h.input_cached
  · unfold InputWalked inputPassed
    rw [hin, hmain, hjobs, hadv, hrun.pc, hrun.currJob, hrun.timeTics]
    exact h.input_tracked
  · rw [hin, hjobs]; exact h.input_system
  · rw [hfrz]; exact h.freeze.sorted
  · rw [hfrz]; exact h.freeze.le_max
  · rw [hjobs, hfrz, hrun.freezeJob, hrun.timeTics]; exact h.freeze.next
  · rw [hin, hrun.freezeJob]; exact h.freeze.notMem
  · intro q hpc
    have hc := h.current q (hrun.pc ▸ hpc)
    refine ⟨?_, ?_, ?_⟩
    · rw [hrun.currJob, hnum]; exact hc.lt
    · intro q'
      rw [hq, hrun.currJob]; exact hc.only q'
    · unfold Tested
      rw [hjobs, hrun.currJob, hrun.timeTics, hrun.freezeJob]; exact hc.due

theorem Clocked.setNumSimObjects (h : Clocked m a s) (n : Int) :
    Clocked m a { s with numSimObjects := n } := by
  refine ⟨h.settled.of_fields { h.settled.wf with } rfl rfl rfl rfl rfl rfl, ?_, h.not_find⟩
  exact h.clock.of_fields ⟨rfl, rfl, rfl, rfl, rfl, rfl, rfl, rfl, rfl⟩ rfl rfl
    (by intro q; cases q <;> rfl) rfl rfl

/-- **A command that meets its conditions keeps the clock right.** -/
theorem applyCommand_clocked {c : Command} (h : Clocked m a s) (hok : CommandOk s c)
    (hclock : ClockCommandOk s c) : Clocked m a (s.applyCommand c) := by
  have hset := applyCommand_settled h.settled hok
  have hrun := sameRun_applyCommand s c
  have hfind : (s.applyCommand c).pc ≠ .find .scheduled := by rw [hrun.pc]; exact h.not_find
  cases c with
  | freezeAt t => exact ⟨hset, h.clock.freezeAt hclock, hfind⟩
  | setJobCycle js c =>
    show Clocked m a (s.setJobCycle js c)
    unfold setJobCycle
    split
    · exact h
    · rename_i hneg
      exact Guarded.invariant_and (fun s j hs hj hj' => retimeJob_clocked hs hj hj') js s h
        (hok (not_lt.mp hneg)) (hclock (not_lt.mp hneg))
  | addSimObject o =>
    refine Guarded.invariant_and (fun s jobs hs hjobs hjobs' => ?_) _ s h hok hclock
    refine Guarded.invariant_and (fun s j hs hj hj' => addJob_clocked hs hj hj') jobs _ ?_
      hjobs hjobs'
    exact hs.setNumSimObjects _
  | deleteSimObject ids =>
    refine Guarded.invariant_and (fun s i hs hi hi' => ?_) ids s h hok hclock
    exact Guarded.invariant_and (fun s j hs hj hj' => removeJob_clocked hs hj hj') _ s hs hi hi'
  | setThreadEnabled n b =>
    refine ⟨hset, h.clock.of_fields hrun ?_ ?_ ?_ ?_ ?_, hfind⟩
    · cases n <;> rfl
    · cases n <;> rfl
    · intro q; cases n <;> cases q <;> rfl
    · cases n <;> rfl
    · cases n <;> rfl
  | _ =>
    refine ⟨hset, h.clock.of_fields hrun rfl rfl ?_ rfl rfl, hfind⟩
    intro q; cases q <;> rfl

/-- **All the commands of a call.** -/
theorem applyCommands_clocked {cmds : List Command} (h : Clocked m a s)
    (hok : CommandsOk s cmds) (hclock : ClockCommandsOk s cmds) :
    Clocked m a (s.applyCommands cmds) :=
  Guarded.invariant_and (fun _ _ hs hc hc' => applyCommand_clocked hs hc hc') cmds s h hok hclock

end Trick.Exec.Executive
