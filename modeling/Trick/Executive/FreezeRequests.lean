/-
  Requests to freeze, and the freeze commands that they lead to.

  `freeze(t)` puts the tic of a request on a queue and lowers the next call time of the freeze job;
  `sched_freeze_to_exec_command` takes the tics that have come off the queue and sends the freeze command.
  `FreezeRun` adds two logs to the executive, of the requests that were accepted and of those that were
  served.  Between two steps of the loop, and in the code of every job, requests may be made.

  `Kept` and `Quiet` say what a step leaves alone: nothing of the jobs and the queues of a simulation
  changes but call times and cursors, and most steps do not concern the requests.
-/
import Trick.Executive.ClockInvariant

namespace Trick.Exec.Executive

open Trick.Lib

/-! ## Requests -/

/-- A request to freeze, or a command such as the one that ends the freeze. -/
inductive Request where
  | freeze
  | freezeAt (inTime : ℚ)
  | setExecCommand (c : SimCommand)

/-- The command of a request. -/
def Request.command : Request → Command
  | .freeze => .freeze
  | .freezeAt t => .freezeAt t
  | .setExecCommand c => .setExecCommand c

/-- The tic of a request, if the request is not one for the past. -/
def Request.accepted (s : Executive) : Request → List Int
  | .freezeAt t => if toTics s.timeTicValue t > s.timeTics then [toTics s.timeTicValue t] else []
  | _ => []

/-- The tic of a request is a `long long`. -/
def Request.Fits (s : Executive) : Request → Prop
  | .freezeAt t => toTics s.timeTicValue t ≤ maxLongLong
  | _ => True

/-- The next step runs the code of a user's job. -/
def RunsCommands (s : Executive) : Prop :=
  match s.pc with
  | .freezeInit | .freezeLoop | .unfreeze => True
  | .call _ => (s.jobs s.currJob).code = .user
  | _ => False

/-- The test of `RunsCommands`, as a value. -/
def runsCommands (s : Executive) : Bool :=
  match s.pc with
  | .freezeInit | .freezeLoop | .unfreeze => true
  | .call _ => decide ((s.jobs s.currJob).code = .user)
  | _ => false

theorem runsCommands_iff (s : Executive) : s.runsCommands = true ↔ RunsCommands s := by
  unfold runsCommands RunsCommands
  cases s.pc <;> simp

instance (s : Executive) : Decidable (RunsCommands s) :=
  decidable_of_iff (s.runsCommands = true) s.runsCommands_iff

/-- The tics that the next step takes off the queue of requests. -/
def popped (s : Executive) : List Int :=
  match s.pc, (s.jobs s.currJob).code with
  | .call _, .schedFreezeToExecCommand endOfFrame =>
    if endOfFrame = true ∨ s.freezeOnFrameBoundary = false then
      s.freezeTimes.takeWhile (· ≤ s.timeTics)
    else []
  | _, _ => []

/-! ## Runs with requests -/

/-- A step of the loop, in which the called job makes requests, or a request between two steps. -/
inductive FreezeEvent where
  | step (requests : List Request) (nextTics : Option Int) (ret : Int)
  | request (r : Request)

/-- What the called job does. -/
def jobCall (requests : List Request) (nextTics : Option Int) (ret : Int) : JobCall where
  commands := requests.map Request.command
  nextTics := nextTics
  ret := ret

/-- A request that has been served: its tic, the tic at which the command was sent, and what was sent. -/
structure Service where
  time : Int
  tics : Int
  command : SimCommand
deriving DecidableEq

/-- The executive, with the requests that were accepted and those that were served. -/
structure FreezeRun where
  exec : Executive
  requested : List Int := []
  served : List Service := []

/-- **One step of a run with requests.** -/
def FreezeRun.step (r : FreezeRun) : FreezeEvent → FreezeRun
  | .step requests nextTics ret =>
    { exec := r.exec.step (jobCall requests nextTics ret)
      requested := r.requested ++
        if RunsCommands r.exec then requests.flatMap (Request.accepted r.exec) else []
      served := r.served ++ (popped r.exec).map fun t =>
        ⟨t, r.exec.timeTics, (r.exec.step (jobCall requests nextTics ret)).execCommand⟩ }
  | .request q =>
    { exec := r.exec.applyCommand q.command
      requested := r.requested ++ q.accepted r.exec
      served := r.served }

/-- A job behind the advancing job that reschedules itself has done so when the clock is advanced.
    Nothing is asked of the freeze job. -/
def TailRescheduled (s : Executive) : Prop :=
  s.AtAdvance → ∀ j ∈ s.jobQueue.list.drop s.jobQueue.currIndex, j ≠ s.freezeJob →
    (s.jobs j).systemJobClass = true → s.timeTics < (s.jobs j).nextTics

/-- The tics of the requests of an event fit. -/
def FreezeEvent.Fits (r : FreezeRun) : FreezeEvent → Prop
  | .step requests _ _ => (∀ q ∈ requests, q.Fits r.exec) ∧ TailRescheduled r.exec
  | .request q => q.Fits r.exec

instance (s : Executive) : (r : Request) → Decidable (r.Fits s)
  | .freezeAt t => inferInstanceAs (Decidable (toTics s.timeTicValue t ≤ maxLongLong))
  | .freeze | .setExecCommand _ => isTrue trivial

instance (s : Executive) : Decidable (TailRescheduled s) :=
  inferInstanceAs (Decidable (s.AtAdvance → ∀ j ∈ s.jobQueue.list.drop s.jobQueue.currIndex,
    j ≠ s.freezeJob → (s.jobs j).systemJobClass = true → s.timeTics < (s.jobs j).nextTics))

instance FreezeEvent.Fits.decidable (r : FreezeRun) : (i : FreezeEvent) → Decidable (i.Fits r)
  | .step requests _ _ =>
    inferInstanceAs (Decidable ((∀ q ∈ requests, q.Fits r.exec) ∧ TailRescheduled r.exec))
  | .request q => inferInstanceAs (Decidable (q.Fits r.exec))

/-! ## What a step keeps -/

/-- **What no step changes**: the jobs but for their times, the queues but for their cursors. -/
structure Kept (s s' : Executive) : Prop where
  code : ∀ j, (s'.jobs j).code = (s.jobs j).code
  disabled : ∀ j, (s'.jobs j).disabled = (s.jobs j).disabled
  system : ∀ j, (s'.jobs j).systemJobClass = (s.jobs j).systemJobClass
  list : ∀ q, (s'.queue q).list = (s.queue q).list
  threads : s.threads = [] → s'.threads = []
  freezeJob : s'.freezeJob = s.freezeJob
  adv : s'.advanceSimTimeJob = s.advanceSimTimeJob
  frame : s'.softwareFrameTics = s.softwareFrameTics
  terminate : s'.terminateTime = s.terminateTime
  tic : s'.timeTicValue = s.timeTicValue
  boundary : s'.freezeOnFrameBoundary = s.freezeOnFrameBoundary

theorem Kept.refl (s : Executive) : Kept s s :=
  ⟨fun _ => rfl, fun _ => rfl, fun _ => rfl, fun _ => rfl, id, rfl, rfl, rfl, rfl, rfl, rfl⟩

theorem Kept.trans {s s' s'' : Executive} (h : Kept s s') (h' : Kept s' s'') : Kept s s'' where
  code j := (h'.code j).trans (h.code j)
  disabled j := (h'.disabled j).trans (h.disabled j)
  system j := (h'.system j).trans (h.system j)
  list q := (h'.list q).trans (h.list q)
  threads ht := h'.threads (h.threads ht)
  freezeJob := h'.freezeJob.trans h.freezeJob
  adv := h'.adv.trans h.adv
  frame := h'.frame.trans h.frame
  terminate := h'.terminate.trans h.terminate
  tic := h'.tic.trans h.tic
  boundary := h'.boundary.trans h.boundary

/-- **A step that does not concern the requests.** -/
structure Quiet (s s' : Executive) : Prop extends Kept s s' where
  timeTics : s'.timeTics = s.timeTics
  timeLast : s'.timeLastPassTics = s.timeLastPassTics
  frameCheck : s'.nextFrameCheckTics = s.nextFrameCheckTics
  freezeTimes : s'.freezeTimes = s.freezeTimes
  next : (s'.jobs s.freezeJob).nextTics = (s.jobs s.freezeJob).nextTics

theorem Quiet.trans {s s' s'' : Executive} (h : Quiet s s') (h' : Quiet s' s'') : Quiet s s'' where
  toKept := h.toKept.trans h'.toKept
  timeTics := h'.timeTics.trans h.timeTics
  timeLast := h'.timeLast.trans h.timeLast
  frameCheck := h'.frameCheck.trans h.frameCheck
  freezeTimes := h'.freezeTimes.trans h.freezeTimes
  next := by
    have hnext := h'.next
    rw [h.freezeJob] at hnext
    exact hnext.trans h.next

variable {e : JobId} {s s' : Executive}

/-- The place of the loop, the pending command and the logs are no matter of the requests. -/
theorem quiet_goto (s : Executive) (p : Pc) (c : SimCommand) (j : JobId) (n : Nat)
    (l : List (JobId × Int)) :
    Quiet s { s with pc := p, execCommand := c, currJob := j, frameCount := n, trace := l } :=
  ⟨⟨fun _ => rfl, fun _ => rfl, fun _ => rfl, fun q => by cases q <;> rfl, id, rfl, rfl, rfl, rfl, rfl, rfl⟩,
    rfl, rfl, rfl, rfl, rfl⟩

theorem quiet_refl (s : Executive) : Quiet s s := quiet_goto s s.pc s.execCommand s.currJob s.frameCount s.trace

/-- A queue is replaced by one with the same jobs. -/
theorem quiet_setQueue (s : Executive) {q : LoopQueue} {v : ScheduledJobQueue}
    (hv : v.list = (s.queue q).list) : Quiet s (s.setQueue q v) := by
  refine ⟨⟨?_, ?_, ?_, ?_, ?_, ?_, ?_, ?_, ?_, ?_, ?_⟩, ?_, ?_, ?_, ?_, ?_⟩
  case refine_4 =>
    intro q'
    rw [queue_setQueue]
    split
    · rename_i h
      rw [h, hv]
    · rfl
  all_goals cases q <;> first | rfl | exact fun _ => rfl | exact id

theorem quiet_startDrain (s : Executive) (q : LoopQueue) : Quiet s (s.startDrain q) := by
  have hset : Quiet s (s.setQueue q (s.queue q).resetCurrIndex) := quiet_setQueue s rfl
  exact hset.trans (quiet_goto _ _ _ _ _ _)

theorem quiet_testAfterCall (s : Executive) (q : LoopQueue) (j : JobId) :
    Quiet s (s.testAfterCall q j) := by
  unfold testAfterCall
  split
  · apply quiet_setQueue
    rw [ScheduledJobQueue.testNextJobCallTime_list]
  · exact quiet_refl s

/-- The requests that are waiting, and the command that is sent for them. -/
theorem kept_freezeTimes (s : Executive) (l : List Int) (c : SimCommand) :
    Kept s { s with freezeTimes := l, execCommand := c } :=
  ⟨fun _ => rfl, fun _ => rfl, fun _ => rfl, fun q => by cases q <;> rfl, id, rfl, rfl, rfl, rfl, rfl, rfl⟩

/-- The clock and the frame, with the place of the loop. -/
theorem kept_clock (s : Executive) (t n : Int) (c : SimCommand) (p : Pc) :
    Kept s { s with timeTics := t, nextFrameCheckTics := n, execCommand := c, pc := p } :=
  ⟨fun _ => rfl, fun _ => rfl, fun _ => rfl, fun q => by cases q <;> rfl, id, rfl, rfl, rfl, rfl, rfl, rfl⟩

theorem kept_setNextTics (s : Executive) (j : JobId) (n : Int) : Kept s (s.setNextTics j n) := by
  refine ⟨?_, ?_, ?_, fun q => by cases q <;> rfl, id, rfl, rfl, rfl, rfl, rfl, rfl⟩
  all_goals
    intro k
    rw [setNextTics_jobs]
    split <;> rfl

/-- A job other than the freeze job takes a new call time. -/
theorem quiet_setNextTics {j : JobId} (hj : j ≠ s.freezeJob) (n : Int) : Quiet s (s.setNextTics j n) := by
  refine ⟨kept_setNextTics s j n, rfl, rfl, rfl, rfl, ?_⟩
  rw [setNextTics_jobs, if_neg hj.symm]

/-- A walk over jobs, none of which is the freeze job or all of which are of the scheduler. -/
theorem quiet_visitAll (s : Executive) (l : List JobId) (hsys : (s.jobs s.freezeJob).systemJobClass = true) :
    Quiet s { s with jobs := visitAll s.timeTics l s.jobs } := by
  refine ⟨⟨visitAll_field JobData.visited_code s.timeTics l s.jobs,
    visitAll_field JobData.visited_disabled s.timeTics l s.jobs,
    visitAll_field JobData.visited_systemJobClass s.timeTics l s.jobs, fun q => by cases q <;> rfl, id,
    rfl, rfl, rfl, rfl, rfl, rfl⟩, rfl, rfl, rfl, rfl, ?_⟩
  show (visitAll s.timeTics l s.jobs s.freezeJob).nextTics = _
  unfold visitAll
  rw [JobData.visited_of_system hsys, ite_self]

/-! ## The jobs of the executive -/

/-- **The jobs that send the freeze command**: the freeze job stands in the scheduled queue, as the
    advancing job does, and the job `e` in the queue of the end of frame. -/
structure FreezeJobs (e : JobId) (s : Executive) : Prop where
  threads_nil : s.threads = []
  frame_pos : 1 ≤ s.softwareFrameTics
  nodup : ∀ q, (s.queue q).list.Nodup
  adv_code : (s.jobs s.advanceSimTimeJob).code = .advanceSimTime
  adv_only : ∀ j, (s.jobs j).code = .advanceSimTime → j = s.advanceSimTimeJob
  adv_place : ∀ q, q ≠ .scheduled → s.advanceSimTimeJob ∉ (s.queue q).list
  freeze_code : (s.jobs s.freezeJob).code = .schedFreezeToExecCommand false
  freeze_enabled : (s.jobs s.freezeJob).disabled = false
  freeze_system : (s.jobs s.freezeJob).systemJobClass = true
  freeze_mem : s.freezeJob ∈ s.jobQueue.list
  frame_code : (s.jobs e).code = .schedFreezeToExecCommand true
  frame_enabled : (s.jobs e).disabled = false
  frame_mem : e ∈ s.endOfFrameQueue.list
  frame_only : ∀ q, q ≠ .endOfFrame → ∀ j ∈ (s.queue q).list,
    (s.jobs j).code ≠ .schedFreezeToExecCommand true

theorem FreezeJobs.freeze_ne (h : FreezeJobs e s) : s.freezeJob ≠ s.advanceSimTimeJob := by
  intro heq
  have hcode := h.freeze_code
  rw [heq, h.adv_code] at hcode
  cases hcode

theorem FreezeJobs.kept (h : FreezeJobs e s) (hk : Kept s s') : FreezeJobs e s' := by
  have hmain : s'.jobQueue.list = s.jobQueue.list := hk.list .scheduled
  have hframe : s'.endOfFrameQueue.list = s.endOfFrameQueue.list := hk.list .endOfFrame
  constructor
  · exact hk.threads h.threads_nil
  · rw [hk.frame]
    exact h.frame_pos
  · intro q
    rw [hk.list]
    exact h.nodup q
  · rw [hk.adv, hk.code]
    exact h.adv_code
  · intro j hj
    rw [hk.code] at hj
    rw [hk.adv]
    exact h.adv_only j hj
  · intro q hq
    rw [hk.adv, hk.list]
    exact h.adv_place q hq
  · rw [hk.freezeJob, hk.code]
    exact h.freeze_code
  · rw [hk.freezeJob, hk.disabled]
    exact h.freeze_enabled
  · rw [hk.freezeJob, hk.system]
    exact h.freeze_system
  · rw [hk.freezeJob, hmain]
    exact h.freeze_mem
  · rw [hk.code]
    exact h.frame_code
  · rw [hk.disabled]
    exact h.frame_enabled
  · rw [hframe]
    exact h.frame_mem
  · intro q hq j hj
    rw [hk.list] at hj
    rw [hk.code]
    exact h.frame_only q hq j hj

/-! ## The order of the requests -/

/-- **The requests that are waiting**, in order; the freeze job is due at the first one. -/
structure InOrder (s : Executive) : Prop where
  sorted : s.freezeTimes.Pairwise (· ≤ ·)
  le_max : ∀ t ∈ s.freezeTimes, t ≤ maxLongLong
  next : (s.jobs s.freezeJob).nextTics = s.freezeTimes.headD maxLongLong

/-- **The clock** is within the frame, and not beyond the terminate time. -/
structure InFrame (s : Executive) : Prop where
  frame_le : s.nextFrameCheckTics - s.softwareFrameTics ≤ s.timeTics
  le_frame : s.timeTics ≤ s.nextFrameCheckTics
  last_le : s.timeLastPassTics ≤ s.timeTics
  le_terminate : s.timeTics ≤ s.terminateTime

/-- All requests that are waiting are for later. -/
def Later (s : Executive) : Prop := ∀ t ∈ s.freezeTimes, s.timeTics < t

theorem InOrder.quiet (h : InOrder s) (hq : Quiet s s') : InOrder s' := by
  constructor
  · rw [hq.freezeTimes]
    exact h.sorted
  · rw [hq.freezeTimes]
    exact h.le_max
  · rw [hq.freezeJob, hq.next, hq.freezeTimes]
    exact h.next

/-- The clock has not been moved. -/
theorem InFrame.congr (h : InFrame s) (hk : Kept s s') (htime : s'.timeTics = s.timeTics)
    (hlast : s'.timeLastPassTics = s.timeLastPassTics)
    (hcheck : s'.nextFrameCheckTics = s.nextFrameCheckTics) : InFrame s' := by
  constructor
  · rw [hcheck, hk.frame, htime]
    exact h.frame_le
  · rw [hcheck, htime]
    exact h.le_frame
  · rw [hlast, htime]
    exact h.last_le
  · rw [htime, hk.terminate]
    exact h.le_terminate

/-- The first request is due when the freeze job is. -/
theorem InOrder.next_le (h : InOrder s) {t : Int} (ht : t ∈ s.freezeTimes) :
    (s.jobs s.freezeJob).nextTics ≤ t := by
  have hsorted := h.sorted
  rw [h.next]
  cases hl : s.freezeTimes with
  | nil =>
    rw [hl] at ht
    cases ht
  | cons x l =>
    rw [hl] at ht hsorted
    rcases List.mem_cons.mp ht with rfl | ht
    · exact le_refl _
    · exact List.rel_of_pairwise_cons hsorted ht

/-! ## Requests that are made -/

/-- **Requests have been made**: those of `new`, all for later, have joined the ones that wait. -/
structure Requested (new : List Int) (s s' : Executive) : Prop extends Kept s s' where
  timeTics : s'.timeTics = s.timeTics
  timeLast : s'.timeLastPassTics = s.timeLastPassTics
  frameCheck : s'.nextFrameCheckTics = s.nextFrameCheckTics
  perm : s'.freezeTimes.Perm (new ++ s.freezeTimes)
  later : ∀ t ∈ new, s.timeTics < t
  inOrder : InOrder s → InOrder s'

theorem Quiet.requested (h : Quiet s s') : Requested [] s s' where
  toKept := h.toKept
  timeTics := h.timeTics
  timeLast := h.timeLast
  frameCheck := h.frameCheck
  perm := by
    rw [h.freezeTimes, List.nil_append]
  later := fun _ ht => (by cases ht)
  inOrder := fun hs => hs.quiet h

theorem Requested.trans {new new' : List Int} {s'' : Executive} (h : Requested new s s')
    (h' : Requested new' s' s'') : Requested (new ++ new') s s'' where
  toKept := h.toKept.trans h'.toKept
  timeTics := h'.timeTics.trans h.timeTics
  timeLast := h'.timeLast.trans h.timeLast
  frameCheck := h'.frameCheck.trans h.frameCheck
  perm := by
    refine h'.perm.trans ?_
    refine (List.Perm.append_left new' h.perm).trans ?_
    rw [← List.append_assoc]
    exact List.Perm.append_right _ List.perm_append_comm
  later := by
    intro t ht
    rcases List.mem_append.mp ht with ht | ht
    · exact h.later t ht
    · rw [← h.timeTics]
      exact h'.later t ht
  inOrder := fun hs => h'.inOrder (h.inOrder hs)

theorem Requested.quiet_after {new : List Int} {s'' : Executive} (h : Requested new s s')
    (hq : Quiet s' s'') : Requested new s s'' := by
  have hall := h.trans hq.requested
  rw [List.append_nil] at hall
  exact hall

theorem Requested.later_of_later {new : List Int} (h : Requested new s s') (hs : Later s) : Later s' := by
  intro t ht
  rw [h.timeTics]
  rcases List.mem_append.mp (h.perm.mem_iff.mp ht) with ht | ht
  · exact h.later t ht
  · exact hs t ht

/-- A request for later joins the others. -/
theorem requested_freezeAt {t : ℚ} (hfits : toTics s.timeTicValue t ≤ maxLongLong) :
    Requested (Request.accepted s (.freezeAt t)) s (s.freezeAt t) := by
  unfold Request.accepted freezeAt
  dsimp only
  generalize toTics s.timeTicValue t = new at hfits ⊢
  by_cases hnew : new > s.timeTics
  swap
  · rw [if_neg hnew, if_neg hnew]
    exact (quiet_refl s).requested
  rw [if_pos hnew, if_pos hnew]
  have hperm : (s.freezeTimes.orderedInsert (· ≤ ·) new).Perm ([new] ++ s.freezeTimes) :=
    List.perm_orderedInsert _ _ _
  have hlater : ∀ t ∈ [new], s.timeTics < t := by
    intro t ht
    rw [List.mem_singleton.mp ht]
    exact hnew
  have hmax : InOrder s → ∀ x ∈ s.freezeTimes.orderedInsert (· ≤ ·) new, x ≤ maxLongLong := by
    intro hs x hx
    rcases (List.mem_orderedInsert (· ≤ ·)).mp hx with rfl | hx
    · exact hfits
    · exact hs.le_max x hx
  have hhead := headD_orderedInsert new s.freezeTimes maxLongLong hfits
  split
  · -- the new request is the first
    rename_i hlt
    have hlt : new < (s.jobs s.freezeJob).nextTics := hlt
    refine ⟨(kept_freezeTimes s _ _).trans (kept_setNextTics _ _ _), rfl, rfl, rfl, hperm, hlater, ?_⟩
    intro hs
    refine ⟨hs.sorted.orderedInsert _ _, hmax hs, ?_⟩
    show (Function.update s.jobs s.freezeJob _ s.freezeJob).nextTics =
      (s.freezeTimes.orderedInsert (· ≤ ·) new).headD maxLongLong
    rw [Function.update_self, hhead, ← hs.next]
    show new = min new _
    omega
  · -- the freeze job keeps its call time
    rename_i hlt
    have hlt : ¬ new < (s.jobs s.freezeJob).nextTics := hlt
    refine ⟨kept_freezeTimes s _ _, rfl, rfl, rfl, hperm, hlater, ?_⟩
    intro hs
    refine ⟨hs.sorted.orderedInsert _ _, hmax hs, ?_⟩
    show (s.jobs s.freezeJob).nextTics = (s.freezeTimes.orderedInsert (· ≤ ·) new).headD maxLongLong
    rw [hhead, ← hs.next]
    omega

/-- What is not touched by a request: the place of the loop, and the queues. -/
structure SamePlace (s s' : Executive) : Prop where
  pc : s'.pc = s.pc
  currJob : s'.currJob = s.currJob
  queue : ∀ q, s'.queue q = s.queue q

theorem samePlace_request (s : Executive) (r : Request) : SamePlace s (s.applyCommand r.command) := by
  cases r with
  | freeze | setExecCommand => exact ⟨rfl, rfl, fun q => by cases q <;> rfl⟩
  | freezeAt t =>
    show SamePlace s (s.freezeAt t)
    unfold freezeAt setNextTics
    dsimp only
    split_ifs <;> exact ⟨rfl, rfl, fun q => by cases q <;> rfl⟩

theorem samePlace_requests (rs : List Request) :
    ∀ s : Executive, SamePlace s (s.applyCommands (rs.map Request.command)) := by
  induction rs with
  | nil => exact fun _ => ⟨rfl, rfl, fun _ => rfl⟩
  | cons r rs ih =>
    intro s
    have hone := samePlace_request s r
    have hrest := ih (s.applyCommand r.command)
    exact ⟨hrest.pc.trans hone.pc, hrest.currJob.trans hone.currJob,
      fun q => (hrest.queue q).trans (hone.queue q)⟩

theorem requested_request {r : Request} (hfits : r.Fits s) :
    Requested (r.accepted s) s (s.applyCommand r.command) := by
  cases r with
  | freeze =>
    apply Quiet.requested
    exact ⟨⟨fun _ => rfl, fun _ => rfl, fun _ => rfl, fun q => by cases q <;> rfl, id, rfl, rfl, rfl, rfl, rfl,
      rfl⟩, rfl, rfl, rfl, rfl, rfl⟩
  | setExecCommand c => exact (quiet_goto s s.pc c s.currJob s.frameCount s.trace).requested
  | freezeAt t => exact requested_freezeAt hfits

/-- **The requests of a called job**, one after another. -/
theorem requested_requests {rs : List Request} :
    ∀ {s : Executive}, (∀ r ∈ rs, r.Fits s) →
      Requested (rs.flatMap (Request.accepted s)) s (s.applyCommands (rs.map Request.command)) := by
  induction rs with
  | nil => exact fun _ => (quiet_refl _).requested
  | cons r rs ih =>
    intro s hfits
    have hone := requested_request (hfits r List.mem_cons_self)
    -- the other requests are accepted as before, since the clock has not been moved
    have haccepted : ∀ q : Request, q.accepted (s.applyCommand r.command) = q.accepted s := by
      intro q
      unfold Request.accepted
      rw [hone.tic, hone.timeTics]
    have hfits' : ∀ q ∈ rs, q.Fits (s.applyCommand r.command) := by
      intro q hq
      have hq := hfits q (List.mem_cons_of_mem r hq)
      unfold Request.Fits at hq ⊢
      rw [hone.tic]
      exact hq
    have hrest := ih hfits'
    rw [funext haccepted] at hrest
    exact hone.trans hrest

/-! ## The call of a job -/

/-- **Requests have been served**: those up to now are off the queue, and the freeze command has been
    sent if there was one. -/
structure Serves (s s' : Executive) : Prop extends Kept s s' where
  timeTics : s'.timeTics = s.timeTics
  timeLast : s'.timeLastPassTics = s.timeLastPassTics
  frameCheck : s'.nextFrameCheckTics = s.nextFrameCheckTics
  freezeTimes : s'.freezeTimes = s.freezeTimes.dropWhile (· ≤ s.timeTics)
  next : (s'.jobs s.freezeJob).nextTics = s'.freezeTimes.headD maxLongLong
  command : s.freezeTimes.takeWhile (· ≤ s.timeTics) ≠ [] → s'.execCommand = .freezeCmd

/-- **The clock has been advanced.** -/
structure Advanced (s s' : Executive) : Prop extends Kept s s' where
  timeTics : s'.timeTics = s.nextTimeTics
  timeLast : s'.timeLastPassTics = s.timeTics
  frameCheck : s'.nextFrameCheckTics = s.nextFrameCheckTics
  freezeTimes : s'.freezeTimes = s.freezeTimes
  next : (s'.jobs s.freezeJob).nextTics = (s.jobs s.freezeJob).nextTics

theorem serves_schedFreeze {b : Bool} (hb : b = true ∨ s.freezeOnFrameBoundary = false) :
    Serves s (s.schedFreezeToExecCommand b) := by
  unfold schedFreezeToExecCommand
  rw [if_pos hb]
  dsimp only
  refine ⟨(kept_freezeTimes s _ _).trans (kept_setNextTics _ _ _), rfl, rfl, rfl, rfl, ?_, ?_⟩
  · rw [setNextTics_jobs, if_pos rfl]
    rfl
  · intro hne
    show (if (s.freezeTimes.dropWhile (· ≤ s.timeTics)).length < s.freezeTimes.length then SimCommand.freezeCmd
      else s.execCommand) = _
    rw [if_pos]
    have hlen := congrArg List.length (List.takeWhile_append_dropWhile (p := fun t => decide (t ≤ s.timeTics))
      (l := s.freezeTimes))
    rw [List.length_append] at hlen
    have hpos : 0 < (s.freezeTimes.takeWhile (· ≤ s.timeTics)).length := List.length_pos_of_ne_nil hne
    omega

theorem advanced_advanceSimTime (h : FreezeJobs e s) : Advanced s s.advanceSimTime := by
  have hmap : s.threads = [] → s.threads.map (cacheChildTime s.jobs) = [] := by
    intro hnil
    rw [hnil]
    rfl
  have hfield : ∀ j, Function.update s.jobs s.advanceSimTimeJob
      { s.jobs s.advanceSimTimeJob with nextTics := s.nextTimeTics } j =
      if j = s.advanceSimTimeJob then { s.jobs j with nextTics := s.nextTimeTics } else s.jobs j :=
    setNextTics_jobs s s.advanceSimTimeJob s.nextTimeTics
  refine ⟨⟨?_, ?_, ?_, fun q => by cases q <;> rfl, hmap, rfl, rfl, rfl, rfl, rfl, rfl⟩, rfl, rfl, rfl,
    rfl, ?_⟩
  · intro j
    show (Function.update s.jobs s.advanceSimTimeJob _ j).code = _
    rw [hfield]
    split <;> rfl
  · intro j
    show (Function.update s.jobs s.advanceSimTimeJob _ j).disabled = _
    rw [hfield]
    split <;> rfl
  · intro j
    show (Function.update s.jobs s.advanceSimTimeJob _ j).systemJobClass = _
    rw [hfield]
    split <;> rfl
  · show (Function.update s.jobs s.advanceSimTimeJob _ s.freezeJob).nextTics = _
    rw [Function.update_of_ne h.freeze_ne]

/-- **What the call of a job does to the requests.** -/
inductive Called (requests : List Request) (s s' : Executive) : Prop where
  | requested (hcode : (s.jobs s.currJob).code = .user)
      (h : Requested (requests.flatMap (Request.accepted s)) s s')
  | served (b : Bool) (hcode : (s.jobs s.currJob).code = .schedFreezeToExecCommand b)
      (hb : b = true ∨ s.freezeOnFrameBoundary = false) (h : Serves s s')
  | advanced (hcode : (s.jobs s.currJob).code = .advanceSimTime) (h : Advanced s s')
  /-- Nothing: the freeze is to be on a frame boundary, or the job is that of `freeze()`. -/
  | quiet (hcode : (s.jobs s.currJob).code ≠ .user)
      (hnot : ∀ b, (s.jobs s.currJob).code = .schedFreezeToExecCommand b →
        b = false ∧ s.freezeOnFrameBoundary = true) (h : Quiet s s')

/-- Steps that do not concern the requests follow. -/
theorem Called.quiet_after {rs : List Request} {s'' : Executive} (h : Called rs s s') (hq : Quiet s' s'')
    (hc : s''.execCommand = s'.execCommand) : Called rs s s'' := by
  have hnext : ∀ {f : JobId}, s'.freezeJob = f → (s''.jobs f).nextTics = (s'.jobs f).nextTics := by
    rintro f rfl
    exact hq.next
  cases h with
  | requested hcode h => exact .requested hcode (h.quiet_after hq)
  | served b hcode hb h =>
    refine .served b hcode hb ⟨h.toKept.trans hq.toKept, hq.timeTics.trans h.timeTics,
      hq.timeLast.trans h.timeLast, hq.frameCheck.trans h.frameCheck, hq.freezeTimes.trans h.freezeTimes,
      ?_, fun hne => hc.trans (h.command hne)⟩
    rw [hnext h.freezeJob, hq.freezeTimes]
    exact h.next
  | advanced hcode h =>
    exact .advanced hcode ⟨h.toKept.trans hq.toKept, hq.timeTics.trans h.timeTics,
      hq.timeLast.trans h.timeLast, hq.frameCheck.trans h.frameCheck, hq.freezeTimes.trans h.freezeTimes,
      (hnext h.freezeJob).trans h.next⟩
  | quiet hcode hnot h => exact .quiet hcode hnot (h.trans hq)

/-- The code of a job. -/
theorem called_callJob (h : FreezeJobs e s) {rs : List Request} (n : Option Int) (ret : Int)
    (hfits : (s.jobs s.currJob).code = .user → ∀ r ∈ rs, r.Fits s) :
    Called rs s (s.callJob s.currJob (jobCall rs n ret)) := by
  have hlog : Quiet s (s.logCall s.currJob) := quiet_goto s _ _ _ _ _
  unfold callJob runJobCode
  cases hcode : ((s.logCall s.currJob).jobs s.currJob).code with
  | user =>
    have hfits : ∀ r ∈ rs, r.Fits (s.logCall s.currJob) := hfits hcode
    have hreq := hlog.requested.trans (requested_requests hfits)
    have hne : s.currJob ≠ s.freezeJob := by
      intro heq
      have hfreeze := h.freeze_code
      rw [← heq] at hfreeze
      rw [show (s.jobs s.currJob).code = .user from hcode] at hfreeze
      cases hfreeze
    refine .requested hcode ?_
    dsimp only
    have hsame : ∀ n : Int, Requested (rs.flatMap (Request.accepted s)) s
        (((s.logCall s.currJob).applyCommands (rs.map Request.command)).setNextTics s.currJob n) := by
      intro n
      exact hreq.quiet_after (quiet_setNextTics (by rw [hreq.freezeJob]; exact hne) n)
    cases n with
    | none => exact hreq
    | some n =>
      show Requested _ s (if _ then _ else _)
      split
      · exact hsame n
      · exact hreq
  | advanceSimTime =>
    have hadv := advanced_advanceSimTime (h.kept hlog.toKept)
    exact .advanced hcode ⟨hlog.toKept.trans hadv.toKept, hadv.timeTics, hadv.timeLast, hadv.frameCheck,
      hadv.freezeTimes, hadv.next⟩
  | schedFreezeToExecCommand b =>
    by_cases hb : b = true ∨ s.freezeOnFrameBoundary = false
    · have hs := serves_schedFreeze (s := s.logCall s.currJob) hb
      exact .served b hcode hb ⟨hlog.toKept.trans hs.toKept, hs.timeTics, hs.timeLast, hs.frameCheck,
        hs.freezeTimes, hs.next, hs.command⟩
    · have heq : (s.logCall s.currJob).schedFreezeToExecCommand b = s.logCall s.currJob := if_neg hb
      rw [not_or, Bool.not_eq_true, Bool.not_eq_false] at hb
      refine .quiet (fun hu => ?_) (fun b' hb' => ?_) ?_
      · rw [show (s.jobs s.currJob).code = _ from hcode] at hu
        cases hu
      · rw [show (s.jobs s.currJob).code = _ from hcode] at hb'
        cases hb'
        exact hb
      · dsimp only
        rw [heq]
        exact hlog
  | asyncFreezeToExecCommand =>
    refine .quiet (fun hu => ?_) (fun b' hb' => ?_) ?_
    · rw [show (s.jobs s.currJob).code = _ from hcode] at hu
      cases hu
    · rw [show (s.jobs s.currJob).code = _ from hcode] at hb'
      cases hb'
    · dsimp only
      unfold asyncFreezeToExecCommand
      split
      · exact ⟨⟨fun _ => rfl, fun _ => rfl, fun _ => rfl, fun q => by cases q <;> rfl, id, rfl, rfl, rfl, rfl,
          rfl, rfl⟩, rfl, rfl, rfl, rfl, rfl⟩
      · exact hlog

/-- **The step that calls a job**: what it does to the requests, and that no cursor moves. -/
theorem called_callStep (h : FreezeJobs e s) {rs : List Request} (n : Option Int) (ret : Int) (q : LoopQueue)
    (hfits : (s.jobs s.currJob).code = .user → ∀ r ∈ rs, r.Fits s) :
    Called rs s (s.callStep q (jobCall rs n ret)) ∧
      ((s.callStep q (jobCall rs n ret)).pc = .terminated ∨ (s.callStep q (jobCall rs n ret)).pc = .find q) := by
  have hcall := called_callJob h n ret hfits
  unfold callStep
  dsimp only
  generalize s.callJob s.currJob (jobCall rs n ret) = s' at hcall ⊢
  split
  · exact ⟨hcall.quiet_after (quiet_goto s' _ _ _ _ _) rfl, Or.inl rfl⟩
  · have hcommand : (s'.testAfterCall q s.currJob).execCommand = s'.execCommand := by
      unfold testAfterCall
      split
      · cases q <;> rfl
      · rfl
    refine ⟨(hcall.quiet_after (quiet_testAfterCall s' q s.currJob) hcommand).quiet_after
      (quiet_goto _ _ _ _ _ _) rfl, Or.inr rfl⟩

/-- The call of a job moves no cursor. -/
theorem callStep_currIndex (s : Executive) (rs : List Request) (n : Option Int) (ret : Int) (q q' : LoopQueue) :
    ((s.callStep q (jobCall rs n ret)).queue q').currIndex = (s.queue q').currIndex := by
  have hset : ∀ (s : Executive) (j : JobId) (n : Int), (s.setNextTics j n).queue q' = s.queue q' := by
    intro s j n
    cases q' <;> rfl
  have hcall : ((s.callJob s.currJob (jobCall rs n ret)).queue q').currIndex = (s.queue q').currIndex := by
    have hlog : (s.logCall s.currJob).queue q' = s.queue q' := by cases q' <;> rfl
    unfold callJob runJobCode
    rw [← hlog]
    generalize s.logCall s.currJob = t
    generalize s.currJob = j
    cases (t.jobs j).code with
    | user =>
      have hplace := (samePlace_requests rs t).queue q'
      dsimp only
      cases n with
      | none => exact congrArg _ hplace
      | some n =>
        show ((if _ then _ else _ : Executive).queue q').currIndex = _
        split
        · rw [hset]
          exact congrArg _ hplace
        · exact congrArg _ hplace
    | advanceSimTime => cases q' <;> rfl
    | schedFreezeToExecCommand b =>
      dsimp only
      unfold schedFreezeToExecCommand
      dsimp only
      split
      · rw [hset]
        cases q' <;> rfl
      · rfl
    | asyncFreezeToExecCommand =>
      dsimp only
      unfold asyncFreezeToExecCommand
      split
      · cases q' <;> rfl
      · rfl
  unfold callStep
  dsimp only
  generalize s.callJob s.currJob (jobCall rs n ret) = t at hcall ⊢
  split
  · rw [← hcall]
    cases q' <;> rfl
  · rw [← hcall]
    have htest : ((t.testAfterCall q s.currJob).queue q').currIndex = (t.queue q').currIndex := by
      unfold testAfterCall
      split
      · rw [queue_setQueue]
        split
        · rename_i heq
          rw [ScheduledJobQueue.testNextJobCallTime_currIndex, heq]
        · rfl
      · rfl
    rw [← htest]
    cases q' <;> rfl

end Trick.Exec.Executive
