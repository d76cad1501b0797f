/-
  `VariableServer`: the copies of the sessions in scheduled copy mode.

  The scheduler calls the job `copy_and_write_scheduled` when the job's `next_tics` equals the time.
  The job copies the sessions that are due, and stores the least next time of the sessions as its own
  `next_tics`.  The commands of the clients run on the threads of their sessions: a command that puts a
  session into scheduled copy mode computes the session's next time, and then stores the least next
  time of the sessions in the job too.

  The sessions are in a map that `map_mutex` protects; a session's own members and the job's
  `next_tics` are not protected.  A step here is an access to one of them.  A thread that waits for
  the mutex does nothing.

  Of the scheduler there is what matters to the job: the scan of the main queue looks at it once in a
  pass, `advance_sim_time` comes later in the queue, and `other` stands for the earliest time that
  anything else asks for.  A session's copies of its variables and what it writes are left out.
-/
import Trick.Executive.ScheduledJobQueue
import Trick.Lib.Run
import Trick.Lib.Earliest

namespace Trick.VarServer

open Trick.Lib Trick.Exec

/-! ## Data -/

/-- `VS_COPY_MODE` -/
inductive CopyMode where
  | async | scheduled | topOfFrame
deriving DecidableEq, Repr

/-- The thread of a session. -/
abbrev ThreadId := Nat

/-- A session, as far as its copies are concerned. -/
structure VariableServerSession where
  enabled : Bool := true
  copyMode : CopyMode := .async
  cycleTics : Int
  nextTics : Int := maxLongLong
  exitCmd : Bool := false
  /-- Ghost: in scheduled copy mode, the time of the last copy, or of the command if there was none
      yet, and `cycleTics` at that time. -/
  last : Option (Int × Int) := none
deriving DecidableEq

namespace VariableServerSession

/-- The constructor. -/
def create (timeTicValue : Int) : VariableServerSession :=
  { cycleTics := if toTics timeTicValue (1 / 10) = 0 then 1 else toTics timeTicValue (1 / 10) }

/-- `get_next_tics` -/
def getNextTics (v : VariableServerSession) : Int := if v.enabled then v.nextTics else maxLongLong

/-- The condition under which `copy_and_write_scheduled` copies the session. -/
def Copies (v : VariableServerSession) (currTics : Int) : Prop :=
  v.enabled = true ∧ v.copyMode = .scheduled ∧ v.nextTics ≤ currTics

instance (v : VariableServerSession) (currTics : Int) : Decidable (v.Copies currTics) :=
  inferInstanceAs (Decidable (_ ∧ _))

end VariableServerSession

/-- The commands of a client that have to do with scheduled copies. -/
inductive Command where
  | varSync (mode : Int)
  | varSetCopyMode (mode : Int)
  | varCycle (inRate : ℚ)
  | varExit
deriving DecidableEq

/-- The copy mode that a command stores, and whether it goes on to `get_next_sync_call_time`. -/
def Command.copyMode : Command → Option (CopyMode × Bool)
  | .varSync mode =>
    if mode = 1 ∨ mode = 2 then some (.scheduled, true) else some (.async, decide (mode ≠ 0))
  | .varSetCopyMode mode =>
    if mode = 1 then some (.scheduled, true)
    else if mode = 0 then some (.async, false)
    else if mode = 2 then some (.topOfFrame, false)
    else none
  | .varCycle _ | .varExit => none

/-- Where the thread of a session is in a command. -/
inductive CommandPc where
  | idle
  /-- `SCHEDULED` has been stored, and the time read: `nextTics` is stored next. -/
  | entering (time : Int)
  /-- Another mode has been stored: `nextTics` is stored next. -/
  | leaving (recompute : Bool)
  /-- `get_next_sync_call_time`: before the mutex. -/
  | locking
  | scanning (todo : List ThreadId) (nextCallTics : Int)
  /-- The mutex has been released: the job's `next_tics` is stored next. -/
  | storing (nextCallTics : Int)
deriving DecidableEq

/-- Where the scheduler is in a pass. -/
inductive SchedulerPc where
  /-- The job has not been looked at yet at this time. -/
  | before
  | copying (todo : List ThreadId) (nextCallTics : Int)
  | storing (nextCallTics : Int)
  /-- The job has returned, and its next time is tested next. -/
  | called
  /-- `advance_sim_time` comes next. -/
  | after
deriving DecidableEq

/-- Who holds `map_mutex`. -/
inductive Owner where
  | scheduler
  | thread (i : ThreadId)
deriving DecidableEq

/-- Log: a copy of a session, and the ghost before it. -/
structure Copy where
  session : ThreadId
  time : Int
  last : Option (Int × Int)
deriving DecidableEq

/-- Log: the end of the job, with the least next time of the sessions. -/
structure Pass where
  time : Int
  nextTics : Int
  least : Int
deriving DecidableEq

/-- The variable server, the scheduler and the threads of the sessions. -/
structure VariableServer where
  time : Int := 0
  timeTicValue : Int := 1000000
  softwareFrameTics : Int := 1000000
  /-- Only the cached next call time matters. -/
  mainQueue : ScheduledJobQueue := {}
  copyDataJob : JobData := {
    jobClassName := .automaticLast
    systemJobClass := true }
  sessions : List ThreadId := []
  session : ThreadId → VariableServerSession := fun _ => { cycleTics := 1 }
  mapMutex : Option Owner := none
  scheduler : SchedulerPc := .before
  command : ThreadId → CommandPc := fun _ => .idle
  copies : List Copy := []
  passes : List Pass := []

namespace VariableServer

def setSession (s : VariableServer) (i : ThreadId) (v : VariableServerSession) : VariableServer :=
  { s with session := Function.update s.session i v }

def setCommand (s : VariableServer) (i : ThreadId) (c : CommandPc) : VariableServer :=
  { s with command := Function.update s.command i c }

/-- The least next time of the sessions. -/
def leastNextTics (s : VariableServer) : Int :=
  earliest maxLongLong (s.sessions.map fun i => (s.session i).getNextTics)

/-! ## The sessions -/

/-- `add_session`, called by the new thread. -/
def addSession (s : VariableServer) (i : ThreadId) : VariableServer :=
  if i ∉ s.sessions ∧ s.mapMutex = none then
    { s with
      sessions := s.sessions.orderedInsert (· ≤ ·) i
      session := Function.update s.session i (.create s.timeTicValue) }
  else s

/-- `delete_session`, when the thread has left its loop. -/
def deleteSession (s : VariableServer) (i : ThreadId) : VariableServer :=
  if s.command i = .idle ∧ s.mapMutex = none then { s with sessions := s.sessions.erase i } else s

/-- The first time that `var_set_copy_mode` computes: the next multiple of the cycle. -/
def firstDue (time cycleTics : Int) : Int := time - time.tmod cycleTics + cycleTics

/-- `var_set_copy_mode` up to the time that it reads. -/
def setCopyMode (s : VariableServer) (i : ThreadId) (mode : CopyMode) (recompute : Bool) :
    VariableServer :=
  let v := s.session i
  if mode = .scheduled then
    (s.setSession i { v with copyMode := mode }).setCommand i (.entering s.time)
  else
    (s.setSession i { v with
      copyMode := mode
      last := none }).setCommand i (.leaving recompute)

/-- The thread of a session starts to execute a command. -/
def call (s : VariableServer) (i : ThreadId) (c : Command) : VariableServer :=
  let v := s.session i
  if i ∈ s.sessions ∧ s.command i = .idle ∧ v.exitCmd = false then
    match c with
    | .varCycle inRate => s.setSession i { v with cycleTics := toTics s.timeTicValue inRate }
    | .varExit => s.setSession i { v with exitCmd := true }
    | c =>
      match c.copyMode with
      | some (mode, recompute) => s.setCopyMode i mode recompute
      | none => s
  else s

/-- `var_set_copy_mode` stores the next time.  Where the cycle is 0 the program ends in a division by
    zero; here the thread does not go on. -/
def storeNext (s : VariableServer) (i : ThreadId) : VariableServer :=
  let v := s.session i
  match s.command i with
  | .entering time =>
    if v.cycleTics = 0 then s
    else
      (s.setSession i { v with
        nextTics := firstDue time v.cycleTics
        last := v.last.or (some (time, v.cycleTics)) }).setCommand i .locking
  | .leaving recompute =>
    (s.setSession i { v with nextTics := maxLongLong }).setCommand i
      (if recompute then .locking else .idle)
  | _ => s

/-! ## `get_next_sync_call_time` -/

def lock (s : VariableServer) (i : ThreadId) : VariableServer :=
  if s.command i = .locking ∧ s.mapMutex = none then
    { s with mapMutex := some (.thread i) }.setCommand i (.scanning s.sessions maxLongLong)
  else s

/-- One turn of the loop, or the release of the mutex after it. -/
def scan (s : VariableServer) (i : ThreadId) : VariableServer :=
  match s.command i with
  | .scanning [] nextCallTics =>
    { s with mapMutex := none }.setCommand i (.storing nextCallTics)
  | .scanning (j :: todo) nextCallTics =>
    let next := (s.session j).getNextTics
    s.setCommand i (.scanning todo (if next < nextCallTics then next else nextCallTics))
  | _ => s

def storeJob (s : VariableServer) (i : ThreadId) : VariableServer :=
  match s.command i with
  | .storing nextCallTics =>
    { s with copyDataJob := { s.copyDataJob with nextTics := nextCallTics } }.setCommand i .idle
  | _ => s

/-! ## The scheduler -/

/-- The scan of the main queue comes to the job: it is called, or passed. -/
def look (s : VariableServer) : VariableServer :=
  if s.scheduler = .before then
    if s.copyDataJob.nextTics = s.time then
      if s.mapMutex = none then
        { s with
          mapMutex := some .scheduler
          scheduler := .copying s.sessions maxLongLong }
      else s
    else
      { s with
        mainQueue := s.mainQueue.setNextJobCallTime
          (trackVisited s.time s.copyDataJob s.mainQueue.nextJobTime)
        scheduler := .after }
  else s

/-- `copy_and_write_scheduled` of a session. -/
def copyAndWriteScheduled (s : VariableServer) (i : ThreadId) : VariableServer :=
  let v := s.session i
  let currTics := s.copyDataJob.nextTics
  if v.Copies currTics then
    { s.setSession i { v with
        nextTics := currTics + v.cycleTics
        last := some (s.time, v.cycleTics) } with
      copies := s.copies ++ [⟨i, s.time, v.last⟩] }
  else s

/-- `copy_and_write_scheduled` of the server: one turn of its loop, or the release of the mutex. -/
def copySession (s : VariableServer) : VariableServer :=
  match s.scheduler with
  | .copying [] nextCallTics =>
    { s with
      mapMutex := none
      scheduler := .storing nextCallTics }
  | .copying (i :: todo) nextCallTics =>
    let s := s.copyAndWriteScheduled i
    let next := (s.session i).getNextTics
    { s with scheduler := .copying todo (if next < nextCallTics then next else nextCallTics) }
  | _ => s

/-- The end of `copy_and_write_scheduled`. -/
def storeNextCall (s : VariableServer) : VariableServer :=
  match s.scheduler with
  | .storing nextCallTics =>
    { s with
      copyDataJob := { s.copyDataJob with nextTics := nextCallTics }
      scheduler := .called
      passes := s.passes ++ [⟨s.time, nextCallTics, s.leastNextTics⟩] }
  | _ => s

/-- The scheduler tests the next time of the job that has returned. -/
def testNextJobCallTime (s : VariableServer) : VariableServer :=
  if s.scheduler = .called then
    { s with
      mainQueue := s.mainQueue.testNextJobCallTime s.copyDataJob s.time
      scheduler := .after }
  else s

/-- `advance_sim_time`; `other` is a later time. -/
def advanceSimTime (s : VariableServer) (other : Int) : VariableServer :=
  if s.scheduler = .after ∧ s.time < other ∧ other < maxLongLong then
    let next := s.mainQueue.nextJobTime
    let time := if next < other ∧ next > s.time then next else other
    { s with
      time := time
      mainQueue := s.mainQueue.setNextJobCallTime (time + s.softwareFrameTics)
      scheduler := .before }
  else s

end VariableServer

/-! ## Events -/

/-- What happens, one thing at a time. -/
inductive Event where
  | addSession (i : ThreadId)
  | deleteSession (i : ThreadId)
  | call (i : ThreadId) (c : Command)
  | storeNext (i : ThreadId)
  | lock (i : ThreadId)
  | scan (i : ThreadId)
  | storeJob (i : ThreadId)
  | look
  | copySession
  | storeNextCall
  | testNextJobCallTime
  | advanceSimTime (other : Int)
deriving DecidableEq

namespace VariableServer

/-- **One event.** -/
def step (s : VariableServer) : Event → VariableServer
  | .addSession i => s.addSession i
  | .deleteSession i => s.deleteSession i
  | .call i c => s.call i c
  | .storeNext i => s.storeNext i
  | .lock i => s.lock i
  | .scan i => s.scan i
  | .storeJob i => s.storeJob i
  | .look => s.look
  | .copySession => s.copySession
  | .storeNextCall => s.storeNextCall
  | .testNextJobCallTime => s.testNextJobCallTime
  | .advanceSimTime other => s.advanceSimTime other

/-! ## The condition on the events -/

/-- The command will store the job's next time. -/
def CommandPc.Recomputes : CommandPc → Prop
  | .idle | .leaving false => False
  | _ => True

instance : (c : CommandPc) → Decidable (CommandPc.Recomputes c)
  | .idle | .leaving false => inferInstanceAs (Decidable False)
  | .leaving true | .entering _ | .locking | .scanning _ _ | .storing _ =>
    inferInstanceAs (Decidable True)

/-- No command is in progress that will store the job's next time. -/
def NoRecompute (s : VariableServer) : Prop :=
  ∀ i ∈ s.sessions, ¬ CommandPc.Recomputes (s.command i)

instance (s : VariableServer) : Decidable s.NoRecompute :=
  inferInstanceAs (Decidable (∀ i ∈ s.sessions, _))

/-- The job copies sessions, or is about to store its next time. -/
def SchedulerPc.InPass : SchedulerPc → Prop
  | .copying _ _ | .storing _ => True
  | _ => False

instance : (c : SchedulerPc) → Decidable (SchedulerPc.InPass c)
  | .copying _ _ | .storing _ => inferInstanceAs (Decidable True)
  | .before | .called | .after => inferInstanceAs (Decidable False)

/-- **The condition on a command that stores a copy mode.**  It is not started while the job copies
    sessions, and not while another command is on its way to the job's next time.  If it puts the
    session into scheduled copy mode, then the session's first time is not before the time to which the
    scheduler goes next, nor after the time at which the session was due already. -/
def CopyModeOk (s : VariableServer) (i : ThreadId) (mode : CopyMode) (recompute : Bool) : Prop :=
  ¬ SchedulerPc.InPass s.scheduler ∧ (recompute = true → s.NoRecompute) ∧
    (mode = .scheduled →
      (s.scheduler = .after →
        s.mainQueue.nextJobTime ≤ firstDue s.time (s.session i).cycleTics) ∧
      ((s.session i).last ≠ none →
        firstDue s.time (s.session i).cycleTics ≤ (s.session i).nextTics))

instance (s : VariableServer) (i : ThreadId) (mode : CopyMode) (recompute : Bool) :
    Decidable (s.CopyModeOk i mode recompute) :=
  inferInstanceAs (Decidable (_ ∧ _ ∧ (_ → _ ∧ _)))

/-- The condition on a command: a cycle is at least one tic. -/
def CommandOk (s : VariableServer) (i : ThreadId) : Command → Prop
  | .varCycle inRate => 1 ≤ toTics s.timeTicValue inRate
  | c => ∀ p ∈ c.copyMode, s.CopyModeOk i p.1 p.2

instance (s : VariableServer) (i : ThreadId) : (c : Command) → Decidable (s.CommandOk i c)
  | .varCycle inRate => inferInstanceAs (Decidable (1 ≤ toTics s.timeTicValue inRate))
  | .varSync mode =>
    inferInstanceAs (Decidable (∀ p ∈ (Command.varSync mode).copyMode, s.CopyModeOk i p.1 p.2))
  | .varSetCopyMode mode =>
    inferInstanceAs
      (Decidable (∀ p ∈ (Command.varSetCopyMode mode).copyMode, s.CopyModeOk i p.1 p.2))
  | .varExit => inferInstanceAs (Decidable (∀ p ∈ Command.varExit.copyMode, _))

/-- **The condition on an event.**  The scheduler does not look at the job's next time, and does not
    advance the time, while a command is on its way to it; and no session is deleted or half-way out
    of scheduled copy mode when the job copies the sessions. -/
def EventOk (s : VariableServer) : Event → Prop
  | .call i c => s.CommandOk i c
  | .deleteSession _ => ¬ SchedulerPc.InPass s.scheduler
  | .look => s.NoRecompute ∧
      (s.copyDataJob.nextTics = s.time → ∀ i ∈ s.sessions, s.command i ≠ .leaving false)
  | .testNextJobCallTime | .advanceSimTime _ => s.NoRecompute
  | _ => True

instance (s : VariableServer) : (e : Event) → Decidable (s.EventOk e)
  | .call i c => inferInstanceAs (Decidable (s.CommandOk i c))
  | .deleteSession _ => inferInstanceAs (Decidable (¬ _))
  | .look => inferInstanceAs (Decidable (s.NoRecompute ∧
      (s.copyDataJob.nextTics = s.time → ∀ i ∈ s.sessions, s.command i ≠ .leaving false)))
  | .testNextJobCallTime | .advanceSimTime _ => inferInstanceAs (Decidable s.NoRecompute)
  | .addSession _ | .storeNext _ | .lock _ | .scan _ | .storeJob _ | .copySession
  | .storeNextCall => inferInstanceAs (Decidable True)

end VariableServer

end Trick.VarServer
