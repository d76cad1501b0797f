/-
  `MonteCarlo`: the master of a Monte Carlo simulation.

  The master keeps a queue of runs, hands the front of the queue to a ready slave, and collects the
  exit statuses that the slaves report.  A run that times out, or that could not be started, goes back
  to the end of the queue until it has been tried `max_tries` times.

  A run pointer is the run's id: `set_num_runs` creates the runs with consecutive ids.  A slave is
  its place in `slaves` (`add_slave` gives it the id one above).  What the master cannot foresee is an
  input of the functions: whether a connection succeeds, what can be read from it, which slave has
  timed out.  The values of a variable are a stream, `next k` being what the `k`-th call of
  `get_next_value` returns.

  `events` of the master loop (`Event`) come in any order; a pass of the loop (`Pass`) is a list of
  them that begins with the spawning of slaves and ends with a dispatch.  `sent`, `resolved` and
  `monteInput` log what the master does.
-/
import Trick.Lib.Run

namespace Trick.Monte

open Trick.Lib

/-! ## Data -/

/-- `MonteRun::ExitStatus` -/
inductive ExitStatus where
  | runIncomplete | runComplete | runFailed | runDumpedCore | runTimedOut | cantCreateOutputDir
  | problemParsingInput | unrecognizedReturnCode
deriving DecidableEq, Repr

/-- The value of the enumerator, which is what goes over the wire. -/
def ExitStatus.code : ExitStatus → Int
  | .runIncomplete => 0
  | .runComplete => 1
  | .runFailed => 2
  | .runDumpedCore => 3
  | .runTimedOut => 4
  | .cantCreateOutputDir => 5
  | .problemParsingInput => 6
  | .unrecognizedReturnCode => 7

/-- A run pointer. -/
abbrev RunId := Nat

/-- A run, as the master keeps it. -/
structure MonteRun where
  numTries : Nat := 0
  exitStatus : ExitStatus := .runIncomplete
  runVariables : List String := []
deriving DecidableEq

/-- `MonteSlave::State` -/
inductive SlaveState where
  | uninitialized | initializing | ready | running | stopping | stopped | finished
  | unresponsiveRunning | unresponsiveStopping | disconnected
deriving DecidableEq, Repr

/-- A slave, as the master keeps it. -/
structure MonteSlave where
  state : SlaveState := .uninitialized
  currentRun : Option RunId := none
  numDispatches : Nat := 0
  numResults : Nat := 0
deriving DecidableEq

/-- The slave is counted as running a run. -/
def MonteSlave.Active (sl : MonteSlave) : Prop := sl.state = .running ∨ sl.state = .stopping

instance (sl : MonteSlave) : Decidable sl.Active := inferInstanceAs (Decidable (_ ∨ _))

/-- What `get_next_value` returns, and the member `value` that it leaves behind. -/
structure Generated where
  text : String
  value : String
deriving DecidableEq

/-- The text that a file variable returns at the end of its file. -/
def eof : String := "EOF"

/-- A variable: its stream of values, and how many of them have been drawn. -/
structure MonteVar where
  next : Nat → Generated
  drawn : Nat := 0
  value : String := ""

/-- `get_next_value`.  At the end of the file `value` is left alone. -/
def MonteVar.getNextValue (v : MonteVar) : MonteVar :=
  { v with
    drawn := v.drawn + 1
    value := if (v.next v.drawn).text = eof then v.value else (v.next v.drawn).value }

/-- What the loop over the variables in `prepare_run` does: the variables after it, the texts that
    it adds to the run, and whether a file has come to its end. -/
def drawVariables : List MonteVar → List MonteVar × List String × Bool
  | [] => ([], [], false)
  | v :: vs =>
    if (v.next v.drawn).text = eof then (v.getNextValue :: vs, [eof], true)
    else
      let (vs', texts, ended) := drawVariables vs
      (v.getNextValue :: vs', (v.next v.drawn).text :: texts, ended)

/-- The loop of `dequeue_run`: the entry after an erased one is not looked at. -/
def dequeue (r : RunId) : List RunId → List RunId
  | [] => []
  | [x] => if x = r then [] else [x]
  | x :: y :: rest => if x = r then y :: dequeue r rest else x :: dequeue r (y :: rest)

/-- What `handle_run_data` does with an exit status. -/
inductive Outcome where
  | resolve (status : ExitStatus)
  | retry (status : ExitStatus)
deriving DecidableEq

/-- The switch of `handle_run_data`. -/
def outcome (code : Int) : Outcome :=
  if code = ExitStatus.runComplete.code then .resolve .runComplete
  else if code = ExitStatus.runFailed.code then .resolve .runFailed
  else if code = ExitStatus.problemParsingInput.code then .resolve .problemParsingInput
  else if code = ExitStatus.runDumpedCore.code then .resolve .runDumpedCore
  else if code = ExitStatus.cantCreateOutputDir.code then .retry .cantCreateOutputDir
  else if code = ExitStatus.runTimedOut.code then .retry .runTimedOut
  else .resolve .unrecognizedReturnCode

/-- A connection that the master accepts: a slave tells its name (of that length) and port, or an
    exit status, or the connection is lost after the slave id has been read. -/
inductive Message where
  | initialization (nameLength : Int)
  | status (code : Int)
  | lost
deriving DecidableEq

/-- The number that follows the slave id. -/
def Message.firstInt : Message → Option Int
  | .initialization n => some n
  | .status code => some code
  | .lost => none

/-- The state of a slave that has reported. -/
def SlaveState.reported : SlaveState → SlaveState
  | .running | .unresponsiveRunning => .ready
  | .stopping | .unresponsiveStopping => .stopped
  | st => st

/-- The states that `start_slave` changes. -/
def SlaveState.started : SlaveState → SlaveState
  | .stopping => .running
  | .unresponsiveStopping => .unresponsiveRunning
  | .stopped => .ready
  | st => st

/-- The states that `stop_slave` changes. -/
def SlaveState.stoppedBy : SlaveState → SlaveState
  | .ready => .stopped
  | .running => .stopping
  | .unresponsiveRunning => .unresponsiveStopping
  | st => st

/-- The master. -/
structure MonteCarlo where
  maxTries : Nat := 2
  runRanges : List (Nat × Nat) := []
  monteVariables : List MonteVar := []
  slaves : List MonteSlave := []
  /-- The runs behind the pointers. -/
  run : RunId → MonteRun := fun _ => {}
  /-- The queue. -/
  runs : List RunId := []
  failedRuns : List RunId := []
  errorRuns : List RunId := []
  numRuns : Nat := 0
  actualNumRuns : Nat := 0
  numResults : Nat := 0
  currentRun : Nat := 0
  /-- The rows of `monte_runs`. -/
  runDataFile : List (RunId × List String) := []
  /-- The loop of `get_next_dispatch` does not come to an end. -/
  hung : Bool := false
  /-- Log: slave, run and variables of every dispatch that went through. -/
  sent : List (Nat × RunId × List String) := []
  /-- Log: the calls of `resolve_run`. -/
  resolved : List (RunId × ExitStatus) := []
  /-- Log: the `monte_input` files of a dry run. -/
  monteInput : List (RunId × List String) := []

namespace MonteCarlo

def setRun (s : MonteCarlo) (r : RunId) (f : MonteRun → MonteRun) : MonteCarlo :=
  { s with run := Function.update s.run r (f (s.run r)) }

def setSlave (s : MonteCarlo) (i : Nat) (f : MonteSlave → MonteSlave) : MonteCarlo :=
  { s with slaves := s.slaves.modify i f }

/-! ## The number of runs -/

/-- `in_range`: without ranges all runs are in range. -/
def inRange (s : MonteCarlo) (r : RunId) : Bool :=
  s.runRanges.isEmpty || s.runRanges.any fun p => p.1 ≤ r && r ≤ p.2

/-- `update_actual_num_runs` -/
def updateActualNumRuns (s : MonteCarlo) : MonteCarlo :=
  { s with
    actualNumRuns := s.numResults + (s.runs.filter fun r => s.inRange r).length +
      (s.slaves.filter fun sl => sl.Active).length }

/-- `set_num_runs`: new runs are created at the end of the queue, superfluous ones are deleted from
    the end of the queue. -/
def setNumRuns (s : MonteCarlo) (n : Nat) : MonteCarlo :=
  let surplus := min (s.numRuns - n) s.runs.length
  let created := List.range' s.numRuns (n - s.numRuns)
  updateActualNumRuns
    { s with
      runs := s.runs.take (s.runs.length - surplus) ++ created
      run := fun r => if r ∈ created then {} else s.run r
      numRuns := s.numRuns - surplus + (n - s.numRuns) }

/-- `add_range`, with the correction that the constructor of `MonteRange` makes. -/
def addRange (s : MonteCarlo) (first last : Nat) : MonteCarlo :=
  updateActualNumRuns { s with runRanges := s.runRanges ++ [(first, max first last)] }

/-! ## The queue -/

/-- `dequeue_run` -/
def dequeueRun (s : MonteCarlo) (r : RunId) : MonteCarlo := { s with runs := dequeue r s.runs }

/-- `prepare_run`: true for 0, false for -1. -/
def prepareRun (s : MonteCarlo) (r : RunId) : MonteCarlo × Bool :=
  let s := { s with currentRun := r }
  if (s.run r).numTries = 0 then
    let (vs, texts, ended) := drawVariables s.monteVariables
    let drawn := { s with monteVariables := vs }.setRun r fun run =>
      { run with runVariables := run.runVariables ++ texts }
    if ended then (drawn.setNumRuns r, false)
    else
      ({ drawn with
          runDataFile := s.runDataFile ++ [(r, vs.map MonteVar.value)] }.dequeueRun r, true)
  else (s.dequeueRun r, true)

/-- The loop of `get_next_dispatch`: runs that are out of range are prepared and skipped. -/
def getNextDispatchLoop : Nat → MonteCarlo → MonteCarlo × Option RunId
  | 0, s => ({ s with hung := true }, none)
  | fuel + 1, s =>
    match s.runs with
    | [] => (s, none)
    | r :: _ => if s.inRange r then (s, some r) else getNextDispatchLoop fuel (s.prepareRun r).1

/-- `get_next_dispatch`.  Every turn of the loop takes a run from the queue, but for the one at the
    end of a file: if it leaves its run in the queue, so will the next turn. -/
def getNextDispatch (s : MonteCarlo) : MonteCarlo × Option RunId :=
  getNextDispatchLoop (s.runs.length + 1) s

/-! ## Dispatch -/

/-- `get_ready_slave` -/
def getReadySlave (s : MonteCarlo) : Option Nat :=
  s.slaves.findIdx? fun sl => sl.state = .ready

/-- The end of `dispatch_run_to_slave`: the run has been taken from the queue, and the slave accepts
    the connection or not. -/
def connectAndSend (s : MonteCarlo) (r : RunId) (i : Nat) (connects : Bool) : MonteCarlo :=
  let s := s.setSlave i fun sl => { sl with state := .running }
  if connects then
    let sent := { s with sent := s.sent ++ [(i, r, (s.run r).runVariables)] }
    let marked := sent.setSlave i fun sl =>
      { sl with
        numDispatches := sl.numDispatches + 1
        currentRun := some r }
    marked.setRun r fun run => { run with numTries := run.numTries + 1 }
  else s.setSlave i fun sl => { sl with state := .disconnected }

/-- `dispatch_run_to_slave` -/
def dispatchRunToSlave (s : MonteCarlo) (run : Option RunId) (slave : Option Nat)
    (connects : Bool) : MonteCarlo :=
  match slave, run with
  | some i, some r =>
    let (s, prepared) := { s with currentRun := r }.prepareRun r
    if prepared then s.connectAndSend r i connects else s
  | _, _ => s

/-! ## Results -/

/-- `resolve_run`, for the current run `r` of slave `i`. -/
def resolveRun (s : MonteCarlo) (i : Nat) (r : RunId) (status : ExitStatus) : MonteCarlo :=
  let listed :=
    if status = .runFailed then { s with failedRuns := s.failedRuns ++ [r] }
    else if status ≠ .runComplete then { s with errorRuns := s.errorRuns ++ [r] }
    else s
  let marked := listed.setRun r fun run => { run with exitStatus := status }
  let counted := marked.setSlave i fun sl => { sl with numResults := sl.numResults + 1 }
  { counted with
    numResults := s.numResults + 1
    resolved := s.resolved ++ [(r, status)] }

/-- `handle_retry`, for the current run `r` of slave `i`. -/
def handleRetry (s : MonteCarlo) (i : Nat) (r : RunId) (status : ExitStatus) : MonteCarlo :=
  if s.maxTries = 0 ∨ (s.run r).numTries < s.maxTries then { s with runs := s.runs ++ [r] }
  else s.resolveRun i r status

/-- `handle_initialization` -/
def handleInitialization (s : MonteCarlo) (i : Nat) : Message → MonteCarlo
  | .initialization _ => s.setSlave i fun sl => { sl with state := .ready }
  | _ => s.setSlave i fun sl => { sl with state := .disconnected }

/-- `handle_run_data`, for the current run `r` of slave `i`. -/
def handleRunData (s : MonteCarlo) (i : Nat) (r : RunId) (m : Message) : MonteCarlo :=
  let s := s.dequeueRun r
  let finish := fun s : MonteCarlo => s.setSlave i fun sl => { sl with state := sl.state.reported }
  if (s.run r).exitStatus ≠ .runIncomplete then finish s
  else
    match m.firstInt with
    | none => s.setSlave i fun sl => { sl with state := .disconnected }
    | some code =>
      match outcome code with
      | .resolve status => finish (s.resolveRun i r status)
      | .retry status => finish (s.handleRetry i r status)

/-- One turn of the loop of `receive_results`; an id that no slave has is an error.  A slave that has
    never been given a run does not report. -/
def accept (s : MonteCarlo) (i : Nat) (m : Message) : MonteCarlo :=
  match s.slaves[i]? with
  | none => s
  | some sl =>
    if sl.state = .initializing then s.handleInitialization i m
    else
      match sl.currentRun with
      | none => s
      | some r => s.handleRunData i r m

/-- One turn of the loop of `check_timeouts`, for a slave whose run has taken too long. -/
def checkTimeout (s : MonteCarlo) (i : Nat) : MonteCarlo :=
  match s.slaves[i]? with
  | none => s
  | some sl =>
    if sl.Active then
      match sl.currentRun with
      | none => s
      | some r =>
        let s :=
          if (s.run r).exitStatus = .runIncomplete then s.handleRetry i r .runTimedOut else s
        s.setSlave i fun sl => { sl with
          state := if sl.state = .running then .unresponsiveRunning else .unresponsiveStopping }
    else s

/-! ## Slaves -/

/-- `spawn_slaves` -/
def spawnSlaves (s : MonteCarlo) : MonteCarlo :=
  { s with slaves := s.slaves.map fun sl =>
      if sl.state = .uninitialized then { sl with state := .initializing } else sl }

/-- `start_slave` -/
def startSlave (s : MonteCarlo) (i : Nat) : MonteCarlo :=
  s.setSlave i fun sl => { sl with state := sl.state.started }

/-- `stop_slave` -/
def stopSlave (s : MonteCarlo) (i : Nat) : MonteCarlo :=
  s.setSlave i fun sl => { sl with state := sl.state.stoppedBy }

end MonteCarlo

/-! ## The master loop -/

/-- What the master does, one thing at a time. -/
inductive Event where
  | spawnSlaves
  | accept (i : Nat) (m : Message)
  | checkTimeout (i : Nat)
  | dispatch (connects : Bool)
  | startSlave (i : Nat)
  | stopSlave (i : Nat)
deriving DecidableEq

/-- The event is a dispatch. -/
def Event.isDispatch : Event → Bool
  | .dispatch _ => true
  | _ => false

namespace MonteCarlo

/-- `dispatch_run_to_slave(get_next_dispatch(), get_ready_slave())` -/
def dispatch (s : MonteCarlo) (connects : Bool) : MonteCarlo :=
  s.getNextDispatch.1.dispatchRunToSlave s.getNextDispatch.2 s.getReadySlave connects

/-- **One event.** -/
def step (s : MonteCarlo) (e : Event) : MonteCarlo :=
  if s.hung then s
  else
    match e with
    | .spawnSlaves => s.spawnSlaves
    | .accept i m => s.accept i m
    | .checkTimeout i => s.checkTimeout i
    | .dispatch connects => s.dispatch connects
    | .startSlave i => s.startSlave i
    | .stopSlave i => s.stopSlave i

/-- What happens in one pass of the loop of `master` between the spawning of slaves and the
    dispatch: results, timeouts, and commands to start and stop slaves. -/
structure Pass where
  between : List Event
  connects : Bool

/-- The events of a pass. -/
def Pass.events (p : Pass) : List Event :=
  .spawnSlaves :: (p.between.filter fun e => !e.isDispatch) ++ [.dispatch p.connects]

/-- The loop of `master`. -/
def master (s : MonteCarlo) : List Pass → MonteCarlo
  | [] => s
  | p :: ps => if s.numResults < s.actualNumRuns then (Trick.Lib.run step s p.events).master ps else s

/-- The loop of `dryrun`. -/
def dryrunLoop : Nat → MonteCarlo → MonteCarlo
  | 0, s => s
  | fuel + 1, s =>
    match s.getNextDispatch with
    | (s, none) => s
    | (s, some r) =>
      let s := (s.prepareRun r).1
      dryrunLoop fuel { s with monteInput := s.monteInput ++ [(r, (s.run r).runVariables)] }

/-- `dryrun`: every turn of its loop takes a run from the queue. -/
def dryrun (s : MonteCarlo) : MonteCarlo := dryrunLoop (s.runs.length + 1) s

end MonteCarlo

end Trick.Monte
