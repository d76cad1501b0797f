/-
  `Executive::loop_single_thread` as a step function.

  One step of `step` is one statement group of the `while (1)` loop: a test at the head of an
  iteration, the request of the next job of a queue (`find q`), or the call of the job that was
  returned (`call q`).  The second argument says what the called job does; steps that call no job
  ignore it.  A run is `Lib.run step`.

  `freeze_loop` is taken as its effect on the run loop: time stands still, the jobs of the freeze
  queues issue commands (one `JobCall` for each turn of its loop, one for the `freeze_init` jobs and
  one for the `unfreeze` jobs), and the turn ends with the test of the pending command.
-/
import Trick.Lib.Run
import Trick.Executive.Executive

namespace Trick.Exec.Executive

/-- A queue of the main loop. -/
def queue (s : Executive) : LoopQueue → ScheduledJobQueue
  | .topOfFrame => s.topOfFrameQueue
  | .threadSync => s.threadSyncQueue
  | .inputProcessorRun => s.inputProcessorRunQueue
  | .scheduled => s.jobQueue
  | .endOfFrame => s.endOfFrameQueue

/-- The executive with a queue of the main loop replaced. -/
def setQueue (s : Executive) (q : LoopQueue) (v : ScheduledJobQueue) : Executive :=
  match q with
  | .topOfFrame => { s with topOfFrameQueue := v }
  | .threadSync => { s with threadSyncQueue := v }
  | .inputProcessorRun => { s with inputProcessorRunQueue := v }
  | .scheduled => { s with jobQueue := v }
  | .endOfFrame => { s with endOfFrameQueue := v }

@[simp] theorem queue_setQueue_self (s : Executive) (q : LoopQueue) (v : ScheduledJobQueue) :
    (s.setQueue q v).queue q = v := by cases q <;> rfl

theorem queue_setQueue_of_ne (s : Executive) {q q' : LoopQueue} (v : ScheduledJobQueue)
    (h : q' ≠ q) : (s.setQueue q v).queue q' = s.queue q' := by
  cases q <;> cases q' <;> first | rfl | exact absurd rfl h

/-- Every queue after one of them was replaced. -/
theorem queue_setQueue (s : Executive) (q q' : LoopQueue) (v : ScheduledJobQueue) :
    (s.setQueue q v).queue q' = if q' = q then v else s.queue q' := by
  by_cases h : q' = q
  · subst h; rw [if_pos rfl, queue_setQueue_self]
  · rw [if_neg h, queue_setQueue_of_ne s v h]

/-- The head of a `while` loop over a queue: the cursor goes back to the first job. -/
def startDrain (s : Executive) (q : LoopQueue) : Executive :=
  { s.setQueue q (s.queue q).resetCurrIndex with pc := .find q }

/-- The next job of a queue: `find_next_job` for the two timed queues, `get_next_job` for the
    others. -/
def nextJob (s : Executive) (q : LoopQueue) : Option JobId × Executive :=
  match q with
  | .inputProcessorRun | .scheduled =>
    let r := (s.queue q).findNextJob s.timeTics s.jobs
    (r.job, { s with jobs := r.jobs }.setQueue q
      { s.queue q with currIndex := r.currIndex, nextJobTime := r.nextJobTime })
  | _ =>
    let r := (s.queue q).getNextJob s.jobs
    (r.1, s.setQueue q r.2)

/-- The test of the call time of a job that has just been called: every job of the input processor
    queue, the system jobs of the scheduled queue. -/
def testAfterCall (s : Executive) (q : LoopQueue) (j : JobId) : Executive :=
  if q = .inputProcessorRun ∨ q = .scheduled ∧ (s.jobs j).systemJobClass = true then
    s.setQueue q ((s.queue q).testNextJobCallTime (s.jobs j) s.timeTics)
  else s

/-- One turn of the `while (mode == Freeze)` loop. -/
def freezeLoopTurn (s : Executive) (c : JobCall) : Executive :=
  let s := s.applyCommands c.commands
  if c.ret ≠ 0 then { s with pc := .terminated }
  else match s.execCommand with
    | .runCmd => { s with execCommand := .noCmd, pc := .unfreeze }
    | .freezeCmd => { s with execCommand := .noCmd }
    | .exitCmd => { s with pc := .terminated }
    | .noCmd => s

/-- What follows the drained queue in the loop body. -/
def afterDrain (s : Executive) : LoopQueue → Executive
  | .topOfFrame => { s with frameCount := s.frameCount + 1 }.startDrain .inputProcessorRun
  | .inputProcessorRun => s.startDrain .scheduled
  | .scheduled => { s with pc := .passEnd }
  | .endOfFrame =>
    { s with nextFrameCheckTics := s.nextFrameCheckTics + s.softwareFrameTics, pc := .freezeCheck }
  | .threadSync => s

/-- The call of the current job. -/
def callStep (s : Executive) (q : LoopQueue) (c : JobCall) : Executive :=
  let s' := s.callJob s.currJob c
  if s.returnOf s.currJob c ≠ 0 then { s' with pc := .terminated }
  else { s'.testAfterCall q s.currJob with pc := .find q }

/-- The tests between the scheduled jobs and the end of frame. -/
def passEndStep (s : Executive) : Executive :=
  if s.execCommand = .exitCmd then { s with pc := .terminated }
  else
    let s := if s.execCommand = .runCmd then { s with execCommand := .noCmd } else s
    if s.terminateTime ≤ s.timeLastPassTics then
      { s with timeTics := s.timeLastPassTics, execCommand := .exitCmd, pc := .terminated }
    else if s.timeTics = s.nextFrameCheckTics then s.startDrain .endOfFrame
    else { s with pc := .freezeCheck }

/-- **One step of `loop_single_thread`.** -/
def step (s : Executive) (c : JobCall) : Executive :=
  match s.pc with
  | .freezeCheck =>
    if s.execCommand = .freezeCmd then { s with execCommand := .noCmd, pc := .freezeInit }
    else { s with pc := .frameStart }
  | .freezeInit => { s.applyCommands c.commands with pc := .freezeLoop }
  | .freezeLoop => s.freezeLoopTurn c
  | .unfreeze => { s.applyCommands c.commands with pc := .frameStart }
  | .frameStart =>
    if s.timeTics = s.nextFrameCheckTics - s.softwareFrameTics then s.startDrain .topOfFrame
    else s.startDrain .inputProcessorRun
  | .find q =>
    match s.nextJob q with
    | (some j, s') => { s' with currJob := j, pc := .call q }
    | (none, s') => s'.afterDrain q
  | .call q => s.callStep q c
  | .passEnd => s.passEndStep
  | _ => s

/-- The run is about to call `advance_sim_time`. -/
def AtAdvance (s : Executive) : Prop :=
  s.pc = .call .scheduled ∧ (s.jobs s.currJob).code = .advanceSimTime

instance (s : Executive) : Decidable s.AtAdvance :=
  inferInstanceAs (Decidable (_ ∧ _))

/-! ## A simulation at the start of its run -/

/-- The jobs of the `trick_sys` object that the run loops rely on, in the order of its S_define
    text: the freeze job comes first, so it gets the id 0. -/
def trickSys : SimObject :=
  .mk [{ code := .schedFreezeToExecCommand false, jobClassName := .systemModing, id := 1 },
    { code := .schedFreezeToExecCommand true, jobClassName := .endOfFrame, id := 2 },
    { code := .asyncFreezeToExecCommand, jobClassName := .endOfFrame, id := 3 },
    { code := .advanceSimTime, jobClassName := .systemAdvanceSimTime, id := 4 }] [] []

/-- The executive as its constructor leaves it, with a software frame of the given tics. -/
def construct (timeTicValue softwareFrameTics : Int) : Executive where
  jobs := fun _ => {}
  numJobs := 0
  classMap := defaultClassMap
  timeTicValue := timeTicValue
  topOfFrameQueue := {}
  threadSyncQueue := {}
  inputProcessorRunQueue := {}
  endOfFrameQueue := {}
  jobQueue := {}
  threads := []
  timeTics := 0
  timeLastPassTics := 0
  nextFrameCheckTics := softwareFrameTics
  softwareFrameTics := softwareFrameTics
  terminateTime := maxLongLong - 1
  frameCount := 0
  freezeTimes := []
  freezeOnFrameBoundary := false
  asyncFreezeCommand := false
  execCommand := .noCmd
  freezeJob := 0
  advanceSimTimeJob := 0
  numSimObjects := 0
  simObjectJobs := fun _ => []
  currJob := 0
  pc := .freezeCheck
  trace := []

/-- The executive with `trick_sys` registered; `get_freeze_job` has taken the freeze job off the
    schedule. -/
def boot (timeTicValue softwareFrameTics : Int) : Executive :=
  ((construct timeTicValue softwareFrameTics).addSimObject trickSys).setNextTics 0 maxLongLong

/-- The simulation with these objects and terminate time, about to enter the loop. -/
def start (timeTicValue softwareFrameTics terminateTime : Int) (objects : List SimObject) :
    Executive :=
  { objects.foldl addSimObject (boot timeTicValue softwareFrameTics) with
    terminateTime := terminateTime }

end Trick.Exec.Executive
