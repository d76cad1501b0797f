/-
  The event manager and its event processors.

  An event is added to the list of active events, and to the pending events of the processor of its thread
  or to the instruments of a job.  A processor moves its pending events to a set that is ordered by their
  next tics, and processes those whose time has come; while an event is being processed it is not in the
  set.

  `step` is one call, or one step of `process_event`: what an event does while it is being processed, and
  what the other threads do meanwhile, are the calls between two such steps.  The set is a list in the order
  of the set; its keys are fields of the events, which other calls write to.

  An event is a number.  Of the jobs that events are attached to only the instruments are kept, which are
  those of events; all of them have the same, empty name.
-/
import Trick.Executive.JobData
import Trick.Lib.UpperBound

namespace Trick.Events

open Trick.Lib Trick.Exec

/-! ## Events -/

/-- `EventBeforeAfter` -/
inductive EventBeforeAfter where
  | noTarget | beforeTarget | afterTarget
deriving DecidableEq

/-- `Event` -/
structure Event where
  active : Bool := false
  threadId : Nat := 0
  beforeAfter : EventBeforeAfter := .noTarget
  cycleTics : Int
  nextTics : Int := 0
  /-- The job of the name and the instance. -/
  target : Nat := 0
deriving DecidableEq

/-- The events, by number. -/
abbrev EventStore := Nat → Event

/-- An event whose fields have been written. -/
def setEvent (events : EventStore) (e : Nat) (ev : Event) : EventStore := Function.update events e ev

/-! ## Event processors -/

/-- Where a thread is in `process_event`. -/
inductive ProcessorPc where
  | idle
  /-- At the head of the loop, with `curr_tics`. -/
  | looping (currTics : Int)
  /-- The event has been erased from the set, and its `process` is running. -/
  | processing (currTics : Int) (e : Nat)
deriving DecidableEq

/-- `EventProcessor` -/
structure EventProcessor where
  eventSet : List Nat := []
  pendingEvents : List Nat := []
  /-- The `next_tics` of the job `process_event`. -/
  nextTics : Int := maxLongLong
  pc : ProcessorPc := .idle
deriving DecidableEq

/-- The key of `CompareEventPtrs`. -/
def key (events : EventStore) (e : Nat) : Int := (events e).nextTics

/-- `event_set.insert` -/
def insertEvent (events : EventStore) (e : Nat) (l : List Nat) : List Nat :=
  insertAt (upperBound (key events) e l) e l

/-- The next tics of the first event of the set. -/
def firstTics (events : EventStore) (l : List Nat) : Int :=
  match l with
  | [] => maxLongLong
  | e :: _ => key events e

namespace EventProcessor

/-- `add_event` -/
def addEvent (p : EventProcessor) (e : Nat) : EventProcessor :=
  { p with pendingEvents := p.pendingEvents ++ [e] }

/-- `remove_event`: the set is searched, and the first entry is erased. -/
def removeEvent (events : EventStore) (p : EventProcessor) (e : Nat) : EventProcessor :=
  { p with
    eventSet := p.eventSet.erase e
    nextTics := firstTics events (p.eventSet.erase e) }

/-- `preload_checkpoint` -/
def preloadCheckpoint (p : EventProcessor) : EventProcessor := { p with eventSet := [] }

/-- The event that is being processed. -/
def held (p : EventProcessor) : List Nat :=
  match p.pc with
  | .processing _ e => [e]
  | _ => []

/-- All places of a processor that an event can be in. -/
def queued (p : EventProcessor) : List Nat := p.pendingEvents ++ p.eventSet ++ p.held

/-- One turn of the loop of `add_pending_events`. -/
def addPending (currTics : Int) (isRestart : Bool) (ep : EventStore × EventProcessor) (e : Nat) :
    EventStore × EventProcessor :=
  let (events, p) := ep
  if (events e).cycleTics ≠ 0 then
    let events := if isRestart then events else setEvent events e { events e with nextTics := currTics }
    (events, { p with
      eventSet := insertEvent events e p.eventSet
      nextTics := firstTics events (insertEvent events e p.eventSet) })
  else if (events e).nextTics < currTics then ep
  else
    (events, { p with
      eventSet := insertEvent events e p.eventSet
      nextTics := firstTics events (insertEvent events e p.eventSet) })

/-- **`add_pending_events`** -/
def addPendingEvents (currTics : Int) (isRestart : Bool) (events : EventStore) (p : EventProcessor) :
    EventStore × EventProcessor :=
  p.pendingEvents.foldl (addPending currTics isRestart) (events, { p with pendingEvents := [] })

/-- `process_event` is called. -/
def processEvent (currTics : Int) (p : EventProcessor) : EventProcessor :=
  match p.pc with
  | .idle => { p with pc := .looping currTics }
  | _ => p

/-- **One step of `process_event`**, and the event that is processed in it: the head of the loop with the
    erasure, or the rest of the body. -/
def processStep (events : EventStore) (p : EventProcessor) : EventStore × EventProcessor × Option Nat :=
  match p.pc with
  | .idle => (events, p, none)
  | .looping currTics =>
    match p.eventSet with
    | [] =>
      (events, { p with
        nextTics := maxLongLong
        pc := .idle }, none)
    | e :: l =>
      if (events e).nextTics = currTics then
        (events, { p with
          eventSet := l
          pc := .processing currTics e }, if (events e).active then some e else none)
      else
        (events, { p with
          nextTics := (events e).nextTics
          pc := .idle }, none)
  | .processing currTics e =>
    if (events e).cycleTics ≠ 0 then
      let events := setEvent events e { events e with
        nextTics := (events e).nextTics + (events e).cycleTics }
      (events, { p with
        eventSet := insertEvent events e p.eventSet
        pc := .looping currTics }, none)
    else (events, { p with pc := .looping currTics }, none)

end EventProcessor

/-! ## The event manager -/

/-- What a checkpoint restores: the events, and the list of those that are active. -/
structure Checkpoint where
  events : EventStore
  activeEvents : List Nat
  /-- An event is in the list once (`addToActiveEvents`). -/
  nodup : activeEvents.Nodup

/-- `EventManager`, with the events, the instruments of the jobs and the events that have been processed. -/
structure EventManager where
  events : EventStore
  activeEvents : List Nat := []
  eventProcessors : List EventProcessor
  /-- The event and the target job of each instrument. -/
  eventsInstrumented : List (Nat × Nat) := []
  /-- The events of the instruments of a job. -/
  instruments : Nat → List Nat := fun _ => []
  processed : List Nat := []
  /-- From `preload_checkpoint` to `restart`. -/
  reloading : Bool := false

namespace EventManager

/-- `add_to_active_events` -/
def addToActiveEvents (m : EventManager) (e : Nat) : EventManager :=
  if e ∈ m.activeEvents then m else { m with activeEvents := m.activeEvents ++ [e] }

/-- **`add_event`**: an event whose thread is out of range only becomes active. -/
def addEvent (m : EventManager) (e : Nat) : EventManager :=
  let m := m.addToActiveEvents e
  { m with eventProcessors := m.eventProcessors.modify (m.events e).threadId (·.addEvent e) }

/-- A new `EventInstrument` of a job. -/
def addInstrument (m : EventManager) (e : Nat) (place : EventBeforeAfter) (job : Nat) : EventManager :=
  { m with
    events := setEvent m.events e { m.events e with
      beforeAfter := place
      target := job }
    instruments := Function.update m.instruments job (m.instruments job ++ [e])
    eventsInstrumented := m.eventsInstrumented ++ [(e, job)] }

/-- `add_event_before`, where `exec_get_job` has found the job or not. -/
def addEventBefore (m : EventManager) (e job : Nat) (found : Bool) : EventManager :=
  if found then (m.addInstrument e .beforeTarget job).addToActiveEvents e else m

/-- `add_event_after` -/
def addEventAfter (m : EventManager) (e job : Nat) (found : Bool) : EventManager :=
  if found then (m.addInstrument e .afterTarget job).addToActiveEvents e else m

/-- The target jobs of the instruments of an event. -/
def targets (m : EventManager) (e : Nat) : List Nat :=
  (m.eventsInstrumented.filter fun i => i.1 = e).map Prod.snd

/-- The instruments of an event are removed; `remove_inst` removes all those of its name. -/
def removeInstruments (m : EventManager) (e : Nat) : EventManager :=
  { m with
    eventsInstrumented := m.eventsInstrumented.filter fun i => i.1 ≠ e
    instruments := fun job => if job ∈ m.targets e then [] else m.instruments job }

/-- **`remove_event`** -/
def removeEvent (m : EventManager) (e : Nat) : EventManager :=
  let m :=
    if (m.events e).beforeAfter = .noTarget then
      { m with
        eventProcessors := m.eventProcessors.modify (m.events e).threadId (·.removeEvent m.events e) }
    else m.removeInstruments e
  { m with activeEvents := m.activeEvents.erase e }

/-- `time_tic_changed`; the quotient is one of integers. -/
def timeTicChanged (m : EventManager) (oldTt tt : Int) : EventManager :=
  { m with
    events := m.activeEvents.foldl (fun events e =>
      setEvent events e { events e with nextTics := (events e).nextTics.tdiv oldTt * tt }) m.events }

/-- `preload_checkpoint` of the manager and of all processors. -/
def preloadCheckpoint (m : EventManager) : EventManager :=
  { m with
    eventsInstrumented := []
    instruments := fun job => if job ∈ m.eventsInstrumented.map Prod.snd then [] else m.instruments job
    eventProcessors := m.eventProcessors.map (·.preloadCheckpoint)
    reloading := true }

/-- The checkpoint is read. -/
def loadCheckpoint (m : EventManager) (c : Checkpoint) : EventManager :=
  { m with
    events := c.events
    activeEvents := c.activeEvents }

/-- One event is added again. -/
def restartEvent (jobExists : Nat → Bool) (m : EventManager) (e : Nat) : EventManager :=
  match (m.events e).beforeAfter with
  | .beforeTarget => m.addEventBefore e (m.events e).target (jobExists (m.events e).target)
  | .afterTarget => m.addEventAfter e (m.events e).target (jobExists (m.events e).target)
  | .noTarget => m.addEvent e

/-- `restart` -/
def restart (m : EventManager) (jobExists : Nat → Bool) : EventManager :=
  { m.activeEvents.foldl (restartEvent jobExists) m with reloading := false }

/-- A processor has been called, and has written to the events. -/
def setProcessor (m : EventManager) (i : Nat) (events : EventStore) (p : EventProcessor) : EventManager :=
  { m with
    events := events
    eventProcessors := m.eventProcessors.modify i fun _ => p }

/-- `add_pending_events` of the processor `i`. -/
def addPendingEvents (m : EventManager) (i : Nat) (currTics : Int) (isRestart : Bool) : EventManager :=
  match m.eventProcessors[i]? with
  | none => m
  | some p => m.setProcessor i (p.addPendingEvents currTics isRestart m.events).1
      (p.addPendingEvents currTics isRestart m.events).2

/-- One step of `process_event` of the processor `i`. -/
def processStep (m : EventManager) (i : Nat) : EventManager :=
  match m.eventProcessors[i]? with
  | none => m
  | some p =>
    { m.setProcessor i (p.processStep m.events).1 (p.processStep m.events).2.1 with
      processed := m.processed ++ (p.processStep m.events).2.2.toList }

/-- A job calls one of its instruments, which processes its event. -/
def callInstrument (m : EventManager) (job k : Nat) : EventManager :=
  { m with processed := m.processed ++ (m.instruments job)[k]?.toList }

end EventManager

/-! ## Runs -/

/-- A call, or a step of `process_event`. -/
inductive Call where
  | addEvent (e : Nat)
  | addEventBefore (e job : Nat) (found : Bool)
  | addEventAfter (e job : Nat) (found : Bool)
  | removeEvent (e : Nat)
  | setActive (e : Nat) (active : Bool)
  | setCycle (e : Nat) (cycleTics : Int)
  | setNextTics (e : Nat) (nextTics : Int)
  | setThread (e : Nat) (threadId : Nat)
  | addPendingEvents (i : Nat) (currTics : Int) (isRestart : Bool)
  | processEvent (i : Nat) (currTics : Int)
  | processStep (i : Nat)
  | callInstrument (job k : Nat)
  | timeTicChanged (oldTt tt : Int)
  | preloadCheckpoint
  | loadCheckpoint (c : Checkpoint)
  | restart (jobExists : Nat → Bool)

namespace EventManager

/-- **One call.** -/
def step (m : EventManager) : Call → EventManager
  | .addEvent e => m.addEvent e
  | .addEventBefore e job found => m.addEventBefore e job found
  | .addEventAfter e job found => m.addEventAfter e job found
  | .removeEvent e => m.removeEvent e
  | .setActive e active => { m with events := setEvent m.events e { m.events e with active := active } }
  | .setCycle e cycleTics =>
    { m with events := setEvent m.events e { m.events e with cycleTics := cycleTics } }
  | .setNextTics e nextTics =>
    { m with events := setEvent m.events e { m.events e with nextTics := nextTics } }
  | .setThread e threadId =>
    { m with events := setEvent m.events e { m.events e with threadId := threadId } }
  | .addPendingEvents i currTics isRestart => m.addPendingEvents i currTics isRestart
  | .processEvent i currTics =>
    { m with eventProcessors := m.eventProcessors.modify i (·.processEvent currTics) }
  | .processStep i => m.processStep i
  | .callInstrument job k => m.callInstrument job k
  | .timeTicChanged oldTt tt => m.timeTicChanged oldTt tt
  | .preloadCheckpoint => m.preloadCheckpoint
  | .loadCheckpoint c => m.loadCheckpoint c
  | .restart jobExists => m.restart jobExists

/-- An event manager for some threads, to which nothing has been added. -/
def start (events : EventStore) (threads : Nat) : EventManager where
  events := events
  eventProcessors := List.replicate threads {}

end EventManager

end Trick.Events
