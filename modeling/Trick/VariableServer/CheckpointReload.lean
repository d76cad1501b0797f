/-
  The variable server while a checkpoint is reloaded: any number of listen threads and session threads, and the
  main thread, which suspends them, loads the checkpoint and lets them go on.

  Data:           the threads, each with its `SysThread`; the map of the session threads with its mutex; for each
                  session whether it is paused by its client, and whether its references are connected.
  Program:        one step of one thread at a time, in any order: `thread_body` of the session and listen threads,
                  `suspendPreCheckpointReload` and `resumePostCheckpointReload` of the main thread.
  What holds of it is in `ReloadInvariant` and `SuspendedSessions`.
-/
import Mathlib.Data.List.Sort
import Mathlib.Logic.Function.Basic
import Trick.ThreadBase.SysThread
import Trick.Lib.Run

namespace Trick.VarServer.Reload

open Trick.Threads Trick.Lib

/-! ## The threads -/

/-- What a command of the client does to the session. -/
inductive Command where
  /-- `var_pause`, `var_unpause` -/
  | pause (onOff : Bool)
  /-- `var_add`, with a reference that is connected. -/
  | add
  /-- `var_exit` -/
  | exit
  | other
  deriving DecidableEq, Repr

/-- `ConnectionStatus` -/
inductive ConnectionStatus where
  | pending
  | success
  | fail
  deriving DecidableEq, Repr

/-- **Where a session thread is.**  Before a use of the map it waits for `map_mutex`, and then has it. -/
inductive Stage where
  | absent
  /-- `add_vst` -/
  | addVst (locked : Bool)
  /-- `_connection->start()` and the check of the address. -/
  | connecting
  /-- `delete_vst`, where the connection has failed. -/
  | deleteFailed (locked : Bool)
  | tellFail
  /-- `add_session` -/
  | addSession (locked : Bool)
  | tellSuccess
  | testPause
  /-- `if (!_vs->get_enabled())` -/
  | enabled
  | handleMessage
  /-- `get_session`, for a command. -/
  | getSession (command : Command) (locked : Bool)
  | command (command : Command)
  /-- `if (_session->get_exit_cmd() == true)` -/
  | getExitCmd
  /-- `copy_and_write_async`: to the end of the list, the copy and the writing. -/
  | copyAndWrite
  | copySimData
  | writeData
  | prepareForWrite
  | write
  | usleep
  /-- `delete_session` -/
  | deleteSession (locked : Bool)
  /-- `delete_vst` -/
  | deleteVst (locked : Bool)
  | cleanup
  | gone
  deriving DecidableEq, Repr

/-- **A session thread** with its session. -/
structure Session where
  thread : SysThread := {}
  stage : Stage := .absent
  connectionStatus : ConnectionStatus := .pending
  /-- `_pause_cmd` -/
  pauseCmd : Bool := false
  savedPauseCmd : Bool := false
  exitCmd : Bool := false
  /-- The references are not tagged as invalid. -/
  connected : Bool := true
  /-- `_copy_mutex` is locked. -/
  copyMutex : Bool := false
  /-- The last that the client has said; the program has no such variable. -/
  clientPause : Bool := false
  deriving DecidableEq, Repr

/-- Where a listen thread is. -/
inductive ListenStage where
  | starting
  | testPause
  /-- `checkForNewConnections` -/
  | check
  /-- `wait_for_accept` -/
  | awaiting (session : Nat)
  /-- `join_thread` -/
  | joining (session : Nat)
  deriving DecidableEq, Repr

/-- **A listen thread.** -/
structure Listener where
  thread : SysThread := {}
  stage : ListenStage := .starting
  deriving DecidableEq, Repr

/-- **Where the main thread is**, with the threads that it has not come to. -/
inductive Main where
  | running
  | pauseNext (listeners : List Nat)
  | pausing (listener : Nat) (listeners : List Nat)
  | lockMap
  | suspendNext (sessions : List Nat)
  /-- In `force_thread_to_pause`, of `preload_checkpoint`. -/
  | suspending (session : Nat) (sessions : List Nat)
  /-- In the rest of `preload_checkpoint`. -/
  | preloading (session : Nat) (sessions : List Nat)
  | unlockMap
  /-- `init_from_checkpoint` -/
  | loading
  | relockMap
  | restartNext (sessions : List Nat)
  /-- In `unpause_thread`, of `restart`. -/
  | unpausing (session : Nat) (sessions : List Nat)
  | reunlockMap
  | listenNext (listeners : List Nat)
  | listening (listener : Nat) (listeners : List Nat)
  deriving DecidableEq, Repr

/-- Who may hold `map_mutex`. -/
inductive Holder where
  | main
  | session (i : Nat)
  deriving DecidableEq, Repr

/-- **`VariableServer`** with its threads.  The maps are by their keys, in order. -/
structure Server where
  mapMutex : Option Holder := none
  varServerThreads : List Nat := []
  varServerSessions : List Nat := []
  session : Nat → Session := fun _ => {}
  listener : Nat → Listener := fun _ => {}
  main : Main := .running

/-! ## The session threads -/

/-- How things turn out that the model does not decide: the message of the client, the modes of the session, and
    whether something succeeds. -/
inductive Choice where
  | yes
  | no
  | command (command : Command)
  deriving DecidableEq, Repr

/-- What the command does. -/
def Command.apply (command : Command) (x : Session) : Session :=
  match command with
  | .pause onOff => { x with pauseCmd := onOff, clientPause := onOff }
  | .add => { x with connected := true }
  | .exit => { x with exitCmd := true }
  | .other => x

/-- The stage behind a stage with a locked map. -/
def Stage.lock : Stage → Stage
  | .addVst _ => .addVst true
  | .deleteFailed _ => .deleteFailed true
  | .addSession _ => .addSession true
  | .getSession c _ => .getSession c true
  | .deleteSession _ => .deleteSession true
  | .deleteVst _ => .deleteVst true
  | stage => stage

/-- **`VariableServerSessionThread::thread_body`**, one step where the map is not used. -/
def Session.step (x : Session) (choice : Choice) : Session :=
  match x.stage with
  | .connecting => { x with stage := if choice = .yes then .addSession false else .deleteFailed false }
  | .tellFail => { x with connectionStatus := .fail, stage := .gone }
  | .tellSuccess =>
    { x with connectionStatus := .success, stage := .testPause, thread := x.thread.callTestPause }
  | .testPause =>
    { x with thread := x.thread.testPause,
             stage := if x.thread.testPause.place = .working then .enabled else .testPause }
  | .enabled => { x with stage := if choice = .yes then .handleMessage else .deleteSession false }
  | .handleMessage =>
    match choice with
    | .command command => { x with stage := .getSession command false }
    | .yes => { x with stage := .getExitCmd }
    -- "if ( read_status < 0 )", or an exception
    | .no => { x with stage := .deleteSession false }
  | .command command => { command.apply x with stage := .handleMessage }
  | .getExitCmd => { x with stage := if x.exitCmd then .deleteSession false else .copyAndWrite }
  | .copyAndWrite =>
    -- `pthread_mutex_trylock`
    if choice = .yes ∧ x.copyMutex = false then { x with copyMutex := true, stage := .copySimData }
    else { x with stage := .writeData }
  | .copySimData => { x with connected := true, copyMutex := false, stage := .writeData }
  | .writeData =>
    if choice = .yes ∧ x.pauseCmd = false ∧ x.copyMutex = false then
      { x with copyMutex := true, stage := .prepareForWrite }
    else { x with stage := .usleep }
  | .prepareForWrite => { x with copyMutex := false, stage := if choice = .yes then .write else .usleep }
  | .write =>
    if choice = .yes then { x with stage := .usleep } else { x with exitCmd := true, stage := .deleteSession false }
  | .usleep => { x with stage := .testPause, thread := x.thread.callTestPause }
  | .cleanup => { x with stage := .gone }
  | _ => x

/-- The session is changed. -/
def Server.setSession (v : Server) (i : Nat) (x : Session) : Server :=
  { v with session := Function.update v.session i x }

/-- The session comes to another stage. -/
def Server.setStage (v : Server) (i : Nat) (stage : Stage) : Server :=
  v.setSession i { v.session i with stage := stage }

/-- **One step of a session thread.** -/
def Server.sessionStep (v : Server) (i : Nat) (choice : Choice) : Server :=
  match (v.session i).stage with
  | .addVst false | .deleteFailed false | .addSession false | .getSession _ false | .deleteSession false
  | .deleteVst false =>
    if v.mapMutex = none then
      { v.setStage i (v.session i).stage.lock with mapMutex := some (.session i) }
    else v
  | .addVst true =>
    { v.setStage i .connecting with
      mapMutex := none, varServerThreads := v.varServerThreads.orderedInsert (· ≤ ·) i }
  | .deleteFailed true =>
    { v.setStage i .tellFail with mapMutex := none, varServerThreads := v.varServerThreads.erase i }
  | .addSession true =>
    { v.setStage i .tellSuccess with
      mapMutex := none, varServerSessions := v.varServerSessions.orderedInsert (· ≤ ·) i }
  | .getSession command true =>
    { v.setStage i (if i ∈ v.varServerSessions then .command command else .handleMessage) with mapMutex := none }
  | .deleteSession true =>
    { v.setStage i (.deleteVst false) with mapMutex := none, varServerSessions := v.varServerSessions.erase i }
  | .deleteVst true =>
    { v.setStage i .cleanup with mapMutex := none, varServerThreads := v.varServerThreads.erase i }
  | _ => v.setSession i ((v.session i).step choice)

/-! ## The listen threads -/

/-- The listener is changed. -/
def Server.setListener (v : Server) (l : Nat) (y : Listener) : Server :=
  { v with listener := Function.update v.listener l y }

/-- **`VariableServerListenThread::thread_body`**, one step; `client` is the session thread that is made for a new
    client. -/
def Server.listenerStep (v : Server) (l : Nat) (client : Option Nat) : Server :=
  let y := v.listener l
  let loop := v.setListener l { thread := y.thread.callTestPause, stage := .testPause }
  match y.stage with
  | .starting => loop
  | .testPause =>
    v.setListener l { thread := y.thread.testPause,
                      stage := if y.thread.testPause.place = .working then .check else .testPause }
  | .check =>
    match client with
    | none => loop
    | some i =>
      if (v.session i).stage = .absent then
        (v.setListener l { y with stage := .awaiting i }).setStage i (.addVst false)
      else loop
  | .awaiting i =>
    match (v.session i).connectionStatus with
    | .pending => v
    | .fail => v.setListener l { y with stage := .joining i }
    | .success => loop
  | .joining i => if (v.session i).stage = .gone then loop else v

/-! ## The main thread -/

/-- The rest of **`preload_checkpoint`**, after `force_thread_to_pause`. -/
def Session.preload (x : Session) : Session :=
  if x.connectionStatus = .success then
    { x with savedPauseCmd := x.pauseCmd, pauseCmd := true, connected := false }
  else x

/-- **`VariableServerSessionThread::restart`**, up to the call of `unpause_thread`. -/
def Session.restart (x : Session) : Session :=
  let x := if x.connectionStatus = .success then { x with pauseCmd := x.savedPauseCmd } else x
  { x with thread := x.thread.callUnpause }

/-- The `SysThread` of a session is changed. -/
def Server.onSession (v : Server) (i : Nat) (f : SysThread → SysThread) : Server :=
  v.setSession i { v.session i with thread := f (v.session i).thread }

/-- The `SysThread` of a listener is changed. -/
def Server.onListener (v : Server) (l : Nat) (f : SysThread → SysThread) : Server :=
  v.setListener l { v.listener l with thread := f (v.listener l).thread }

/-- **`suspendPreCheckpointReload`**, the loading, and **`resumePostCheckpointReload`**: one step. -/
def Server.mainStep (listeners : List Nat) (v : Server) : Server :=
  match v.main with
  | .running => { v with main := .pauseNext listeners }
  | .pauseNext [] => { v with main := .lockMap }
  | .pauseNext (l :: ls) => { v.onListener l SysThread.callForce with main := .pausing l ls }
  | .pausing l ls =>
    if (v.listener l).thread.caller = .paused then { v with main := .pauseNext ls }
    else v.onListener l SysThread.callerStep
  | .lockMap =>
    if v.mapMutex = none then { v with mapMutex := some .main, main := .suspendNext v.varServerThreads } else v
  | .suspendNext [] => { v with main := .unlockMap }
  | .suspendNext (i :: rest) => { v.onSession i SysThread.callForce with main := .suspending i rest }
  | .suspending i rest =>
    if (v.session i).thread.caller = .paused then { v with main := .preloading i rest }
    else v.onSession i SysThread.callerStep
  | .preloading i rest =>
    -- `pause_copy` waits for the mutex of the copy
    if (v.session i).copyMutex then v
    else { v.setSession i (v.session i).preload with main := .suspendNext rest }
  | .unlockMap => { v with mapMutex := none, main := .loading }
  | .loading => { v with main := .relockMap }
  | .relockMap =>
    if v.mapMutex = none then { v with mapMutex := some .main, main := .restartNext v.varServerThreads } else v
  | .restartNext [] => { v with main := .reunlockMap }
  | .restartNext (i :: rest) => { v.setSession i (v.session i).restart with main := .unpausing i rest }
  | .unpausing i rest =>
    if (v.session i).thread.caller = .away then { v with main := .restartNext rest }
    else v.onSession i SysThread.callerStep
  | .reunlockMap => { v with mapMutex := none, main := .listenNext listeners }
  | .listenNext [] => { v with main := .running }
  | .listenNext (l :: ls) => { v.onListener l SysThread.callUnpause with main := .listening l ls }
  | .listening l ls =>
    if (v.listener l).thread.caller = .away then { v with main := .listenNext ls }
    else v.onListener l SysThread.callerStep

/-- The main thread wakes up without a signal. -/
def Server.mainWakes (v : Server) : Server :=
  match v.main with
  | .pausing l _ => v.onListener l SysThread.spuriousHasPaused
  | .suspending i _ => v.onSession i SysThread.spuriousHasPaused
  | _ => v

/-! ## The system -/

/-- **Whose turn it is.** -/
inductive Action where
  | main
  | session (i : Nat) (choice : Choice)
  | listener (l : Nat) (client : Option Nat)
  | mainWakes
  | sessionWakes (i : Nat)
  | listenerWakes (l : Nat)
  deriving DecidableEq, Repr

/-- **One step of the system.** -/
def Server.step (listeners : List Nat) (v : Server) : Action → Server
  | .main => v.mainStep listeners
  | .session i choice => v.sessionStep i choice
  | .listener l client => if l ∈ listeners then v.listenerStep l client else v
  | .mainWakes => v.mainWakes
  | .sessionWakes i => v.onSession i SysThread.spuriousWakeup
  | .listenerWakes l => v.onListener l SysThread.spuriousWakeup

/-- **A state that the variable server with the listen threads comes to.** -/
def Reachable (listeners : List Nat) (v : Server) : Prop :=
  ∃ actions : List Action, v = run (Server.step listeners) {} actions

end Trick.VarServer.Reload
