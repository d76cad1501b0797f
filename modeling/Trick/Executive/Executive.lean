/-
  The executive: its state and the operations that jobs call on it during a run.

  `Executive` holds what the run loops read and write: the job store, the queues, the child
  threads, the clock and the frame, the freeze requests and the pending command.  The operations
  follow the source file by file: `add_sim_object` with `add_jobs_to_queue`, `delete_sim_object`
  with `remove_jobs`, `set_job_cycle`, the two `freeze` calls with `sched_freeze_to_exec_command`,
  the setters, and `advance_sim_time`.  `Command` collects those that the code of a job may call,
  so that a run is driven by a list of what each called job does.

  The last fields of the state are not the source's: `pc` and `currJob` say where in the loop the
  run stands, and `trace` logs each call of a job with the tic at which it was made.
-/
import Trick.Executive.ScheduledJobQueue

namespace Trick.Exec

/-! ## State -/

/-- `SIM_COMMAND` -/
inductive SimCommand where
  | noCmd | freezeCmd | runCmd | exitCmd
deriving DecidableEq, Repr

/-- `ProcessType` of a child thread. -/
inductive ProcessType where
  | scheduled | amfChild | asyncChild
deriving DecidableEq, Repr

/-- Where the body of a child thread stands: blocked on its trigger, released by it, asking a queue
    for its next job, about to call it. -/
inductive ThreadPc where
  | wait | released | topOfFrame | topOfFrameCall | find | call | endOfFrame | endOfFrameCall
deriving DecidableEq, Repr

/-- A child thread.  The fields are those that the main thread and the body of the thread use, with
    their values from the constructor. -/
structure Threads where
  enabled : Bool := true
  processType : ProcessType := .scheduled
  jobQueue : ScheduledJobQueue := {}
  topOfFrameQueue : ScheduledJobQueue := {}
  endOfFrameQueue : ScheduledJobQueue := {}
  currTimeTics : Int := 0
  amfCycleTics : Int := 0
  amfNextTics : Int := 0
  childComplete : Bool := false
  currJob : JobId := 0
  pc : ThreadPc := .wait

/-- The queues that the main loop drains. -/
inductive LoopQueue where
  | topOfFrame | threadSync | inputProcessorRun | scheduled | endOfFrame
deriving DecidableEq, Repr

/-- Where the main loop stands.  `find q` is about to ask the queue for its next job, `call q` is
    about to call the job it got. -/
inductive Pc where
  | freezeCheck | freezeInit | freezeLoop | unfreeze | frameStart
  | find (q : LoopQueue) | call (q : LoopQueue)
  | childFrame (q : LoopQueue) (thread : Nat) | childFrameCall (q : LoopQueue) (thread : Nat)
  | startThreads | threadSync | passEnd | terminated
deriving DecidableEq, Repr

/-- The executive. -/
structure Executive where
  jobs : JobHeap
  /-- The ids below this one are taken. -/
  numJobs : Nat
  classMap : JobClassName → Option Int
  timeTicValue : Int
  topOfFrameQueue : ScheduledJobQueue
  threadSyncQueue : ScheduledJobQueue
  inputProcessorRunQueue : ScheduledJobQueue
  endOfFrameQueue : ScheduledJobQueue
  /-- `threads[0]->job_queue` -/
  jobQueue : ScheduledJobQueue
  /-- `threads[1]` and on. -/
  threads : List Threads
  timeTics : Int
  timeLastPassTics : Int
  nextFrameCheckTics : Int
  softwareFrameTics : Int
  terminateTime : Int
  frameCount : Nat
  /-- A priority queue with the least time on top: here in increasing order. -/
  freezeTimes : List Int
  freezeOnFrameBoundary : Bool
  asyncFreezeCommand : Bool
  execCommand : SimCommand
  /-- Set by `get_freeze_job`, which ends the simulation when there is none. -/
  freezeJob : JobId
  advanceSimTimeJob : JobId
  numSimObjects : Int
  /-- The jobs of a sim object, by the id of the object. -/
  simObjectJobs : Int → List JobId
  currJob : JobId
  pc : Pc
  trace : List (JobId × Int)

namespace Executive

/-- The queue that a job belongs to: `add_job_to_queue` and `remove_jobs` choose it alike. -/
inductive QueueRef where
  | jobQueue (thread : Nat) | topOfFrame (thread : Nat) | endOfFrame (thread : Nat)
  | threadSync | inputProcessorRun
deriving DecidableEq, Repr

/-- The queue for a job of this class and thread, `none` for a class that the scheduler does not
    know. -/
def queueRef (s : Executive) (j : JobData) : Option QueueRef :=
  match s.classMap j.jobClassName with
  | none => none
  | some c =>
    if scheduledStartIndex ≤ c then some (.jobQueue j.thread)
    else match j.jobClassName with
      | .topOfFrame => some (.topOfFrame j.thread)
      | .endOfFrame => some (.endOfFrame j.thread)
      | .systemThreadSync => some .threadSync
      | .inputProcessorRun => some .inputProcessorRun
      | _ => none

/-- The executive with one of its queues changed. -/
def modifyQueue (s : Executive) (f : ScheduledJobQueue → ScheduledJobQueue) :
    QueueRef → Executive
  | .jobQueue 0 => { s with jobQueue := f s.jobQueue }
  | .jobQueue (n + 1) =>
    { s with threads := s.threads.modify n fun t => { t with jobQueue := f t.jobQueue } }
  | .topOfFrame 0 => { s with topOfFrameQueue := f s.topOfFrameQueue }
  | .topOfFrame (n + 1) =>
    { s with
      threads := s.threads.modify n fun t => { t with topOfFrameQueue := f t.topOfFrameQueue } }
  | .endOfFrame 0 => { s with endOfFrameQueue := f s.endOfFrameQueue }
  | .endOfFrame (n + 1) =>
    { s with
      threads := s.threads.modify n fun t => { t with endOfFrameQueue := f t.endOfFrameQueue } }
  | .threadSync => { s with threadSyncQueue := f s.threadSyncQueue }
  | .inputProcessorRun => { s with inputProcessorRunQueue := f s.inputProcessorRunQueue }

/-- The executive with the next call time of one job set. -/
def setNextTics (s : Executive) (j : JobId) (n : Int) : Executive :=
  { s with jobs := Function.update s.jobs j { s.jobs j with nextTics := n } }

/-! ## `add_sim_object` -/

/-- The start, stop and next call times that `add_jobs_to_queue` gives a job of a scheduled class. -/
def scheduleTics (s : Executive) (j : JobData) : JobData :=
  let maxTime : ℚ := maxLongLong / s.timeTicValue
  let j := j.calcCycleTics s.timeTicValue
  let j :=
    if j.start > maxTime then { j with disabled := true, startTics := maxLongLong }
    else { j with startTics := toTics s.timeTicValue j.start }
  let j :=
    if j.stop > maxTime then { j with stopTics := maxLongLong }
    else if j.stop < j.start then { j with disabled := true }
    else { j with stopTics := toTics s.timeTicValue j.stop }
  if j.disabled = false then
    if j.jobClassName = .integLoop then
      { j with nextTics := s.timeTics + j.cycleTics + j.startTics }
    else { j with nextTics := s.timeTics + j.startTics }
  else { j with nextTics := maxLongLong }

/-- A new job with its object, its class id and its system flag. -/
def registerJob (s : Executive) (simObjectId : Int) (j : JobData) : JobData :=
  { j with
    simObjectId := simObjectId
    systemJobClass := j.systemJobClass || j.jobClassName.isSystemJobClass
    jobClass := (s.classMap j.jobClassName).getD j.jobClass
    nextTics := if j.jobClassName = .systemAdvanceSimTime then s.timeTics else j.nextTics }

/-- A new job as `add_jobs_to_queue` leaves it: those of a scheduled class are given their times. -/
def newJob (s : Executive) (simObjectId : Int) (j : JobData) : JobData :=
  if (s.queueRef (s.registerJob simObjectId j)).isSome = true ∧
      scheduledStartIndex ≤ (s.registerJob simObjectId j).jobClass then
    s.scheduleTics (s.registerJob simObjectId j)
  else s.registerJob simObjectId j

/-- One turn of the loop of `add_jobs_to_queue`: the job is given its times and pushed.  A job on a
    thread that does not exist yet creates the threads up to it. -/
def addJob (simObjectId : Int) (s : Executive) (j : JobData) : Executive :=
  let id := s.numJobs
  let new := s.newJob simObjectId j
  let s := { s with
    jobs := Function.update s.jobs id new
    numJobs := id + 1
    simObjectJobs := Function.update s.simObjectJobs simObjectId
      (s.simObjectJobs simObjectId ++ [id])
    advanceSimTimeJob :=
      if j.jobClassName = JobClassName.systemAdvanceSimTime then id else s.advanceSimTimeJob
    threads := s.threads ++ List.replicate (j.thread - s.threads.length) ({} : Threads) }
  match s.queueRef new with
  | some q => s.modifyQueue (fun q => q.push s.jobs id) q
  | none => s

/-- A sim object with its component objects. -/
inductive SimObject where
  | mk (jobs : List JobData) (preComponents postComponents : List SimObject)

mutual
/-- The objects in the order in which `add_sim_object` registers them. -/
def SimObject.inOrder : SimObject → List (List JobData)
  | .mk jobs pre post => SimObject.allInOrder pre ++ jobs :: SimObject.allInOrder post
/-- The objects of a list of components, in order. -/
def SimObject.allInOrder : List SimObject → List (List JobData)
  | [] => []
  | o :: os => o.inOrder ++ SimObject.allInOrder os
end

/-- One object registered: it gets the next id and its jobs are added. -/
def addJobsToQueue (s : Executive) (jobs : List JobData) : Executive :=
  let id := s.numSimObjects + 1
  jobs.foldl (addJob id) { s with numSimObjects := id }

/-- `add_sim_object` -/
def addSimObject (s : Executive) (o : SimObject) : Executive :=
  o.inOrder.foldl addJobsToQueue s

/-! ## `delete_sim_object` -/

/-- One turn of the last loop of `remove_jobs`. -/
def removeJob (s : Executive) (j : JobId) : Executive :=
  match s.queueRef (s.jobs j) with
  | some q => s.modifyQueue (ScheduledJobQueue.remove j) q
  | none => s

/-- `remove_jobs` of one object. -/
def removeJobs (s : Executive) (simObjectId : Int) : Executive :=
  (s.simObjectJobs simObjectId).foldl removeJob s

/-- `delete_sim_object`: the object and its components, in the order in which they are deleted. -/
def deleteSimObject (s : Executive) (simObjectIds : List Int) : Executive :=
  simObjectIds.foldl removeJobs s

/-! ## `set_job_cycle` -/

/-- `set_cycle` and `set_next_call_time` of one job. -/
def retimeJob (cycle : ℚ) (s : Executive) (j : JobId) : Executive :=
  let job := ((s.jobs j).setCycle s.timeTicValue cycle).setNextCallTime s.timeTics
  { s with jobs := Function.update s.jobs j job }

/-- `set_job_cycle` for the jobs that the name or the tag stands for.  A negative cycle is refused. -/
def setJobCycle (s : Executive) (js : List JobId) (inCycle : ℚ) : Executive :=
  if inCycle < 0 then s else js.foldl (retimeJob inCycle) s

/-! ## Freeze requests -/

/-- `freeze()` -/
def freeze (s : Executive) : Executive := { s with asyncFreezeCommand := true }

/-- `freeze(double)`: a time in the past is refused. -/
def freezeAt (s : Executive) (inTime : ℚ) : Executive :=
  let newTime := toTics s.timeTicValue inTime
  if newTime > s.timeTics then
    let s := { s with freezeTimes := s.freezeTimes.orderedInsert (· ≤ ·) newTime }
    if newTime < (s.jobs s.freezeJob).nextTics then s.setNextTics s.freezeJob newTime else s
  else s

/-- `async_freeze_to_exec_command` -/
def asyncFreezeToExecCommand (s : Executive) : Executive :=
  if s.asyncFreezeCommand = true then
    { s with execCommand := .freezeCmd, asyncFreezeCommand := false }
  else s

/-- `sched_freeze_to_exec_command`: the requests up to now are taken off the queue, and the freeze
    job is set to the next one. -/
def schedFreezeToExecCommand (endOfFrame : Bool) (s : Executive) : Executive :=
  if endOfFrame = true ∨ s.freezeOnFrameBoundary = false then
    let rest := s.freezeTimes.dropWhile (· ≤ s.timeTics)
    let s := { s with
      execCommand := if rest.length < s.freezeTimes.length then .freezeCmd else s.execCommand
      freezeTimes := rest }
    s.setNextTics s.freezeJob (rest.headD maxLongLong)
  else s

/-! ## `set_thread_enabled` -/

/-- `set_thread_enabled`: thread 0 and threads that do not exist are refused. -/
def setThreadEnabled (s : Executive) (threadId : Nat) (inEnabled : Bool) : Executive :=
  match threadId with
  | 0 => s
  | n + 1 => { s with threads := s.threads.modify n fun t => { t with enabled := inEnabled } }

/-! ## `advance_sim_time` -/

/-- The clock candidate of one child thread. -/
def childTime (jobs : JobHeap) (time : Int) (t : Threads) : Int :=
  if t.enabled = true then
    let time :=
      if t.processType = .scheduled ∧ t.jobQueue.getNextJobCallTime jobs < time then
        t.jobQueue.getNextJobCallTime jobs
      else time
    if t.processType = .amfChild ∧ t.amfCycleTics > 0 ∧ t.amfNextTics < time then t.amfNextTics
    else time
  else time

/-- `get_next_job_call_time` caches its answer in the queue of the thread. -/
def cacheChildTime (jobs : JobHeap) (t : Threads) : Threads :=
  if t.enabled = true ∧ t.processType = .scheduled then
    { t with jobQueue :=
        t.jobQueue.setNextJobCallTime (t.jobQueue.getNextJobCallTime jobs) }
  else t

/-- The tic that `advance_sim_time` moves the clock to. -/
def nextTimeTics (s : Executive) : Int :=
  let time := s.nextFrameCheckTics
  let next := s.jobQueue.getNextJobCallTime s.jobs
  let time := if next < time ∧ next > s.timeTics then next else time
  let next := s.inputProcessorRunQueue.getNextJobCallTime s.jobs
  let time := if next < time ∧ next > s.timeTics then next else time
  let time := s.threads.foldl (childTime s.jobs) time
  if s.terminateTime < time then s.terminateTime else time

/-- `advance_sim_time`, once the scheduled threads have finished. -/
def advanceSimTime (s : Executive) : Executive :=
  let time := s.nextTimeTics
  { s with
    timeLastPassTics := s.timeTics
    timeTics := time
    threads := s.threads.map (cacheChildTime s.jobs)
    inputProcessorRunQueue :=
      s.inputProcessorRunQueue.setNextJobCallTime (time + s.softwareFrameTics)
    jobQueue := s.jobQueue.setNextJobCallTime (time + s.softwareFrameTics)
    jobs := Function.update s.jobs s.advanceSimTimeJob
      { s.jobs s.advanceSimTimeJob with nextTics := time } }

/-! ## What a called job does -/

/-- The calls of the executive's interface that the code of a job makes. -/
inductive Command where
  | freeze
  | freezeAt (inTime : ℚ)
  | setFreezeOnFrameBoundary (onOff : Bool)
  | setTerminateTime (inTime : ℚ)
  | setExecCommand (c : SimCommand)
  | setJobCycle (jobs : List JobId) (inCycle : ℚ)
  | addSimObject (o : SimObject)
  | deleteSimObject (simObjectIds : List Int)
  | setThreadEnabled (threadId : Nat) (inEnabled : Bool)

/-- The effect of a command. -/
def applyCommand (s : Executive) : Command → Executive
  | .freeze => s.freeze
  | .freezeAt t => s.freezeAt t
  | .setFreezeOnFrameBoundary b => { s with freezeOnFrameBoundary := b }
  | .setTerminateTime t => { s with terminateTime := toTics s.timeTicValue t }
  | .setExecCommand c => { s with execCommand := c }
  | .setJobCycle js c => s.setJobCycle js c
  | .addSimObject o => s.addSimObject o
  | .deleteSimObject ids => s.deleteSimObject ids
  | .setThreadEnabled n b => s.setThreadEnabled n b

/-- What a job does when it is called: its commands, then, when it is of a class that reschedules
    itself, its own next call time; and the value it returns. -/
structure JobCall where
  commands : List Command := []
  nextTics : Option Int := none
  ret : Int := 0

/-- The commands of a called job, one after another. -/
def applyCommands (s : Executive) (cmds : List Command) : Executive :=
  cmds.foldl applyCommand s

/-- The code of a called job.  `c` is what user code does; the executive's own jobs are fixed. -/
def runJobCode (s : Executive) (j : JobId) (c : JobCall) : Executive :=
  match (s.jobs j).code with
  | .user =>
    let s := s.applyCommands c.commands
    match c.nextTics with
    | some n => if (s.jobs j).systemJobClass = true then s.setNextTics j n else s
    | none => s
  | .advanceSimTime => s.advanceSimTime
  | .schedFreezeToExecCommand endOfFrame => s.schedFreezeToExecCommand endOfFrame
  | .asyncFreezeToExecCommand => s.asyncFreezeToExecCommand

/-- The log of a call. -/
def logCall (s : Executive) (j : JobId) : Executive :=
  { s with trace := s.trace ++ [(j, s.timeTics)] }

/-- `call`: the job is logged and its code run. -/
def callJob (s : Executive) (j : JobId) (c : JobCall) : Executive :=
  (s.logCall j).runJobCode j c

/-- The value that a called job returns: the executive's own jobs return 0. -/
def returnOf (s : Executive) (j : JobId) (c : JobCall) : Int :=
  match (s.jobs j).code with
  | .user => c.ret
  | _ => 0

end Executive

end Trick.Exec
