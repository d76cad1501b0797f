/-
  A master simulation and its slaves over shared memory (`Master`, `Slave`, `MSSharedMem`).

  Data:           for each slave the shared memory, with its three queues and the place for the name of a checkpoint;
                  the mode and the command of each simulation.
  Program:        at the end of a frame, or for a checkpoint, the master reads the command of every slave and then
                  writes its status to every slave; a slave writes its command and reads the status.  The steps of the
                  simulations come in any order, and a read waits until there is something to read.
  What holds of it is in `Lockstep`.
-/
import Mathlib.Logic.Function.Basic
import Trick.Lib.RingQueue
import Trick.Lib.Run

namespace Trick.MasterSlave

open Trick.Lib

/-! ## The shared memory -/

/-- **`MS_SIM_COMMAND`**, without the exit and the errors. -/
inductive MsSimCommand where
  | noCmd
  | freezeCmd
  | runCmd
  | chkpntDumpAsciiCmd
  | chkpntLoadAsciiCmd
  deriving DecidableEq, Repr

/-- A checkpoint is to be dumped or loaded. -/
def MsSimCommand.checkpoints : MsSimCommand → Bool
  | .chkpntDumpAsciiCmd | .chkpntLoadAsciiCmd => true
  | _ => false

/-- The directory and the name of a checkpoint. -/
abbrev Name := List Char

/-- `MSQ_MAXSIZE` -/
def msqMaxsize : Nat := 5

/-- **`MSSharedMemData`**, and `chkpnt_name` if it does not begin with `MS_ERROR_NAME`. -/
structure MSSharedMem where
  masterTime : RingQueue Nat := ⟨fun _ => 0, 0, 0⟩
  masterCommand : RingQueue MsSimCommand := ⟨fun _ => .noCmd, 0, 0⟩
  slaveCommand : RingQueue MsSimCommand := ⟨fun _ => .noCmd, 0, 0⟩
  chkpntName : Option Name := none

/-! ## The simulations -/

/-- `Run` and `Freeze`, of `SIM_MODE`. -/
inductive Mode where
  | run
  | freeze
  deriving DecidableEq, Repr

/-- **What a simulation makes of its command** at the top of the next frame, or at the end of a frame in freeze. -/
def settle : Mode → MsSimCommand → Mode × MsSimCommand
  | .run, .freezeCmd => (.freeze, .noCmd)
  | .run, .runCmd => (.run, .noCmd)
  | .freeze, .runCmd => (.run, .noCmd)
  | .freeze, .freezeCmd => (.freeze, .noCmd)
  | mode, command => (mode, command)

/-- What has been sent to a slave. -/
inductive Word where
  | time (tics : Nat)
  | command (command : MsSimCommand)
  | name (name : Option Name)
  deriving DecidableEq

/-- Where a slave is. -/
inductive Place where
  | working
  | readTime
  | readCommand
  /-- `get_checkpoint_name` -/
  | readName (command : MsSimCommand)
  deriving DecidableEq, Repr

/-- **A slave**, with what it has read, and its mode after each frame. -/
structure Slave where
  mode : Mode := .run
  execCommand : MsSimCommand := .noCmd
  place : Place := .working
  words : List Word := []
  modes : List Mode := []

/-- What the master exchanges. -/
inductive Kind where
  /-- `end_of_frame_status_from_slave` and `end_of_frame_status_to_slave` -/
  | status
  /-- `checkpoint` -/
  | dump (fullPathName : Name)
  /-- `preload_checkpoint` -/
  | load (fullPathName : Name)
  deriving DecidableEq

/-- What the master has to do in an exchange. -/
inductive Op where
  /-- `read_slave_status` -/
  | readStatus (i : Nat)
  /-- `write_time`, of `write_master_status` -/
  | writeTime (i : Nat)
  /-- `write_command`, of `write_master_status`: of `exec_command`, or of what it has been set to. -/
  | writeCommand (i : Nat) (command : Option MsSimCommand)
  /-- `write_master_chkpnt_name` -/
  | writeName (i : Nat) (fullPathName : Name)
  | done (kind : Kind)
  deriving DecidableEq

/-- The settings of the slaves at the master. -/
structure Config where
  numSlaves : Nat
  chkpntDumpAuto : Nat → Bool
  chkpntLoadAuto : Nat → Bool

/-- **What is written to a slave.** -/
def Config.writes (config : Config) (kind : Kind) (i : Nat) : List Op :=
  match kind with
  | .status => [.writeTime i, .writeCommand i none]
  | .dump name =>
    if config.chkpntDumpAuto i then
      [.writeTime i, .writeCommand i (some .chkpntDumpAsciiCmd), .writeName i name]
    else [.writeTime i, .writeCommand i none]
  | .load name =>
    if config.chkpntLoadAuto i then
      [.writeTime i, .writeCommand i (some .chkpntLoadAsciiCmd), .writeName i name]
    else [.writeTime i, .writeCommand i none]

/-- **An exchange**: all slaves are read before anything is written. -/
def Config.exchange (config : Config) (kind : Kind) : List Op :=
  (List.range config.numSlaves).map .readStatus ++ (List.range config.numSlaves).flatMap (config.writes kind) ++
    [.done kind]

/-- **The master and the slaves**, with what has been written to each slave, and the mode of the master after each
    exchange. -/
structure System where
  mode : Mode := .run
  execCommand : MsSimCommand := .noCmd
  timeTics : Nat := 0
  todo : List Op := []
  memory : Nat → MSSharedMem := fun _ => {}
  slave : Nat → Slave := fun _ => {}
  words : Nat → List Word := fun _ => []
  modes : List Mode := []

/-! ## The master -/

/-- The master writes something to a slave. -/
def System.write (s : System) (i : Nat) (word : Word) (memory : MSSharedMem) : System :=
  { s with memory := Function.update s.memory i memory, words := Function.update s.words i (s.words i ++ [word]) }

/-- The place for the name, `sizeof(chkpnt_name)-1`. -/
def maxName : Nat := 255

/-- What `write_master_chkpnt_name` sends: `MS_ERROR_NAME` for a name that is too long. -/
def chkpntName (fullPathName : Name) : Option Name :=
  if maxName < fullPathName.length then none else some fullPathName

/-- **`read_slave_status`**: a slave that freezes makes the master freeze. -/
def readStatus (slaveCommand execCommand : MsSimCommand) : MsSimCommand :=
  match slaveCommand with
  | .freezeCmd => .freezeCmd
  | _ => execCommand

/-- **The end of an exchange**: of a frame, where the command is looked at, or of a checkpoint, where it is not. -/
def System.finish (s : System) : Kind → System
  | .status =>
    { s with mode := (settle s.mode s.execCommand).1, execCommand := (settle s.mode s.execCommand).2,
             modes := s.modes ++ [(settle s.mode s.execCommand).1] }
  | .dump _ | .load _ => { s with modes := s.modes ++ [s.mode] }

/-- **One step of the master** in an exchange. -/
def System.masterStep (s : System) : System :=
  match s.todo with
  | [] => s
  | .readStatus i :: todo =>
    let memory := s.memory i
    if memory.slaveCommand.isEmpty then s
    else
      { s with execCommand := readStatus memory.slaveCommand.head s.execCommand, todo := todo,
               memory := Function.update s.memory i
                 { memory with slaveCommand := memory.slaveCommand.pop msqMaxsize } }
  | .writeTime i :: todo =>
    let memory := s.memory i
    { s.write i (.time s.timeTics) { memory with masterTime := memory.masterTime.push msqMaxsize s.timeTics } with
      todo := todo }
  | .writeCommand i command :: todo =>
    let memory := s.memory i
    let word := command.getD s.execCommand
    { s.write i (.command word) { memory with masterCommand := memory.masterCommand.push msqMaxsize word } with
      todo := todo }
  | .writeName i fullPathName :: todo =>
    { s.write i (.name (chkpntName fullPathName))
        { s.memory i with chkpntName := chkpntName fullPathName } with todo := todo }
  | .done kind :: todo => { s.finish kind with todo := todo }

/-! ## The slaves -/

/-- The end of a slave's frame. -/
def Slave.finish (x : Slave) : Slave :=
  { x with mode := (settle x.mode x.execCommand).1, execCommand := (settle x.mode x.execCommand).2,
           place := .working, modes := x.modes ++ [(settle x.mode x.execCommand).1] }

/-- A slave and its memory are changed. -/
def System.setSlave (s : System) (i : Nat) (x : Slave) (memory : MSSharedMem) : System :=
  { s with slave := Function.update s.slave i x, memory := Function.update s.memory i memory }

/-- **`end_of_frame`** of a slave, and `freeze`, which clears the command first: one step. -/
def System.slaveStep (s : System) (i : Nat) : System :=
  let x := s.slave i
  let memory := s.memory i
  match x.place with
  | .working =>
    let execCommand := if x.mode = .freeze then .noCmd else x.execCommand
    s.setSlave i { x with execCommand := execCommand, place := .readTime }
      { memory with slaveCommand := memory.slaveCommand.push msqMaxsize execCommand }
  | .readTime =>
    if memory.masterTime.isEmpty then s
    else
      s.setSlave i { x with place := .readCommand, words := x.words ++ [.time memory.masterTime.head] }
        { memory with masterTime := memory.masterTime.pop msqMaxsize }
  | .readCommand =>
    if memory.masterCommand.isEmpty then s
    else
      let command := memory.masterCommand.head
      let x : Slave := { x with words := x.words ++ [.command command] }
      s.setSlave i
        (if command.checkpoints then { x with place := .readName command }
         else ({ x with execCommand := command } : Slave).finish)
        { memory with masterCommand := memory.masterCommand.pop msqMaxsize }
  | .readName _ =>
    match memory.chkpntName with
    | none => s
    | some name =>
      s.setSlave i ({ x with words := x.words ++ [.name (some name)] } : Slave).finish
        { memory with chkpntName := none }

/-! ## The system -/

/-- What somebody asks a simulation for. -/
inductive Request where
  | freeze
  | run
  deriving DecidableEq, Repr

def Request.command : Request → MsSimCommand
  | .freeze => .freezeCmd
  | .run => .runCmd

/-- **What happens next.** -/
inductive Action where
  /-- The master is asked for something, between its exchanges. -/
  | request (request : Request)
  /-- A slave is asked for something, while it works. -/
  | slaveRequest (i : Nat) (request : Request)
  /-- The master begins an exchange, at a time. -/
  | begins (kind : Kind) (timeTics : Nat)
  | master
  | slave (i : Nat)
  deriving DecidableEq

/-- **One step.** -/
def System.step (config : Config) (s : System) : Action → System
  | .request request => if s.todo = [] then { s with execCommand := request.command } else s
  | .slaveRequest i request =>
    if (s.slave i).place = .working then
      s.setSlave i { s.slave i with execCommand := request.command } (s.memory i)
    else s
  | .begins kind timeTics =>
    if s.todo = [] then { s with timeTics := timeTics, todo := config.exchange kind } else s
  | .master => s.masterStep
  | .slave i => if i < config.numSlaves then s.slaveStep i else s

end Trick.MasterSlave
