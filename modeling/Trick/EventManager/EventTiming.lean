/-
  Events are processed at their times.

  The processor of one thread and the scheduler's clock.  An event is entered when `add_pending_events` moves
  it to the set; its turn comes when it is the first of the set at the current tic, and then it is processed
  if it is active.

  1. **Data.**  `Timed`: the events, their processor, the clock, and for each event that has been entered the
     turns it has had since then (`Entry`).

  2. **Program.**  The functions of the processor, taken over, with a step for each of their calls (`step`).
     What an event does while it is being processed are the calls before the next `processStep`.

  3. **Specification.**  `OnTime`: the turns of a cyclic event are at its first time and at every whole number
     of cycles after it, the turn of a one-time event is at its time, and nothing else is processed
     (`Timing`).

  4. **Invariant.**  `TimedInv`, what holds between two steps, and what it says about one event.
-/
import Trick.EventManager.EventQueue

namespace Trick.Events

open Trick.Lib Trick.Exec

/-! ## Program -/

/-- A turn: its tic, whether the event was active then, and whether it was processed. -/
structure Turn where
  tic : Int
  active : Bool
  processed : Bool
deriving DecidableEq

/-- An event that has been entered: its first time, its cycle, and its turns. -/
structure Entry where
  first : Int
  cycle : Int
  turns : List Turn := []
deriving DecidableEq

/-- **A processor with the clock.** -/
structure Timed where
  events : EventStore
  processor : EventProcessor := {}
  time : Int
  /-- The scheduler has looked at the job `process_event` in this pass. -/
  looked : Bool := false
  /-- Not in the source: what has been added, and has not been removed since then. -/
  added : Nat → Bool := fun _ => false
  /-- Not in the source: what has been entered, and has not been removed. -/
  entries : Nat → Option Entry := fun _ => none
  /-- Not in the source: what has been processed without being entered. -/
  stray : List Nat := []
  /-- Not in the source: the one-time events that were added, active, before their time. -/
  asked : List Nat := []

inductive Action where
  | addEvent (e : Nat)
  | removeEvent (e : Nat)
  | setActive (e : Nat) (active : Bool)
  | setNextTics (e : Nat) (nextTics : Int)
  | setCycle (e : Nat) (cycleTics : Int)
  | addPendingEvents
  | look
  | processStep
  | advance (time : Int)
deriving DecidableEq

namespace Timed

/-- The event whose turn it is in a step of `process_event`. -/
def turnOf (s : Timed) : Option Nat :=
  match s.processor.pc, s.processor.eventSet with
  | .looping currTics, e :: _ => if (s.events e).nextTics = currTics then some e else none
  | _, _ => none

/-- A turn is written to the entry of its event. -/
def addTurn (s : Timed) (e : Nat) (processed : Bool) : Timed :=
  match s.entries e with
  | some entry =>
    let turn : Turn := ⟨s.time, (s.events e).active, processed⟩
    { s with entries := Function.update s.entries e (some { entry with turns := entry.turns ++ [turn] }) }
  | none => { s with stray := if processed then s.stray ++ [e] else s.stray }

/-- One step of `process_event`. -/
def processStep (s : Timed) : Timed :=
  let done := s.processor.processStep s.events
  let s' := match s.turnOf with
    | some e => s.addTurn e (done.2.2 = some e)
    | none => s
  { s' with
    events := done.1
    processor := done.2.1 }

/-- `add_pending_events`: what is in the set then is entered; a one-time event that is past is dropped. -/
def addPendingEvents (s : Timed) : Timed :=
  let done := s.processor.addPendingEvents s.time false s.events
  { s with
    events := done.1
    processor := done.2
    entries := fun e =>
      if e ∈ s.processor.pendingEvents then
        if e ∈ done.2.eventSet ∧ s.added e = true then some ⟨(done.1 e).nextTics, (done.1 e).cycleTics, []⟩
        else none
      else s.entries e }

/-- `remove_event` -/
def removeEvent (s : Timed) (e : Nat) : Timed :=
  { s with
    processor := s.processor.removeEvent s.events e
    added := Function.update s.added e false
    entries := Function.update s.entries e none }

/-- `add_event` -/
def addEvent (s : Timed) (e : Nat) : Timed :=
  { s with
    processor := s.processor.addEvent e
    added := Function.update s.added e true
    asked :=
      if (s.events e).cycleTics = 0 ∧ (s.events e).active = true ∧ s.time ≤ (s.events e).nextTics then
        s.asked ++ [e]
      else s.asked }

/-- `set_next_tics`: an event that is being processed starts a new schedule with it. -/
def setNextTics (s : Timed) (e : Nat) (nextTics : Int) : Timed :=
  { s with
    events := setEvent s.events e { s.events e with nextTics := nextTics }
    entries :=
      if e ∈ s.processor.held ∧ (s.events e).cycleTics ≠ 0 then
        Function.update s.entries e (some ⟨nextTics + (s.events e).cycleTics, (s.events e).cycleTics, []⟩)
      else s.entries }

def step (s : Timed) : Action → Timed
  | .addEvent e => s.addEvent e
  | .removeEvent e => s.removeEvent e
  | .setActive e active => { s with events := setEvent s.events e { s.events e with active := active } }
  | .setNextTics e nextTics => s.setNextTics e nextTics
  | .setCycle e cycleTics => { s with events := setEvent s.events e { s.events e with cycleTics := cycleTics } }
  | .addPendingEvents => s.addPendingEvents
  | .look =>
    { s with
      looked := true
      processor := if s.processor.nextTics = s.time then s.processor.processEvent s.time else s.processor }
  | .processStep => s.processStep
  | .advance time =>
    { s with
      time := time
      looked := false }

/-- A processor to which nothing has been added. -/
def start (events : EventStore) (time : Int) : Timed where
  events := events
  time := time

end Timed

/-! ## Specification -/

/-- **What the scheduler does**: the pending events are moved at the top of the frame, before the job is looked at;
    this happens once in a pass; and the clock is advanced when the pass is over, to each tic that the job asks
    for. -/
def Scheduled (s : Timed) : Action → Prop
  | .addPendingEvents => s.looked = false
  | .look => s.looked = false
  | .advance time => s.looked = true ∧ s.processor.pc = .idle ∧ s.time < time ∧ time < maxLongLong ∧
      (s.time < s.processor.nextTics → time ≤ s.processor.nextTics)
  | _ => True

instance (s : Timed) : (a : Action) → Decidable (Scheduled s a)
  | .addPendingEvents | .look => inferInstanceAs (Decidable (s.looked = false))
  | .advance time => inferInstanceAs (Decidable (s.looked = true ∧ s.processor.pc = .idle ∧ s.time < time ∧
      time < maxLongLong ∧ (s.time < s.processor.nextTics → time ≤ s.processor.nextTics)))
  | .addEvent _ | .removeEvent _ | .setActive .. | .setNextTics .. | .setCycle .. | .processStep => isTrue trivial

/-- The `k`-th turn of an entry is due by the tic `t`; a one-time event has one turn. -/
def Entry.Due (entry : Entry) (t : Int) (k : Nat) : Prop :=
  (k = 0 ∨ entry.cycle ≠ 0) ∧ entry.first + k * entry.cycle ≤ t

/-- **An entry that is served on time**: the turns so far are those that are due, each at its tic, and the event
    was processed in those in which it was active. -/
structure OnTime (s : Timed) (entry : Entry) : Prop where
  tic : ∀ (k : Nat) (turn : Turn), entry.turns[k]? = some turn → turn.tic = entry.first + k * entry.cycle
  processed : ∀ turn ∈ entry.turns, turn.processed = turn.active
  /-- No turn comes early, and none twice. -/
  due : ∀ k, k < entry.turns.length → entry.Due s.time k
  /-- No turn that is behind the clock is left out. -/
  done : ∀ k, entry.Due (s.time - 1) k → k < entry.turns.length
  /-- When the pass is over, all turns that are due have been taken in it. -/
  pass : s.looked = true → s.processor.pc = .idle → ∀ k, entry.Due s.time k → k < entry.turns.length

/-- **Every event is on time**, nothing else is processed, and every pass ends. -/
structure Timing (s : Timed) : Prop where
  entries : ∀ e entry, s.entries e = some entry → OnTime s entry
  stray : s.stray = []
  ends : ∃ n, (run Timed.step s (List.replicate n .processStep)).processor.pc = .idle

/-- **The condition of a call**: an event is added when it is in no place, and with no negative cycle; it is not
    removed while it is pending, or while it is cyclic and being processed; its cycle is not written while it
    is in the set or being processed, and its next tics not while it is in the set; a cyclic event that is being
    processed may write them so that it is next called in the future. -/
def CallOk (s : Timed) : Action → Prop
  | .addEvent e => e ∉ s.processor.queued ∧ 0 ≤ (s.events e).cycleTics
  | .removeEvent e => e ∉ s.processor.pendingEvents ∧ (e ∈ s.processor.held → (s.events e).cycleTics = 0)
  | .setNextTics e nextTics => e ∉ s.processor.eventSet ∧
      (e ∈ s.processor.held → (s.events e).cycleTics ≠ 0 → s.time < nextTics + (s.events e).cycleTics)
  | .setCycle e cycleTics => 0 ≤ cycleTics ∧ e ∉ s.processor.eventSet ∧ e ∉ s.processor.held
  | _ => True

instance (s : Timed) : (a : Action) → Decidable (CallOk s a)
  | .addEvent e => inferInstanceAs (Decidable (e ∉ s.processor.queued ∧ 0 ≤ (s.events e).cycleTics))
  | .removeEvent e => inferInstanceAs (Decidable (e ∉ s.processor.pendingEvents ∧
      (e ∈ s.processor.held → (s.events e).cycleTics = 0)))
  | .setNextTics e nextTics => inferInstanceAs (Decidable (e ∉ s.processor.eventSet ∧
      (e ∈ s.processor.held → (s.events e).cycleTics ≠ 0 → s.time < nextTics + (s.events e).cycleTics)))
  | .setCycle e cycleTics => inferInstanceAs (Decidable (0 ≤ cycleTics ∧ e ∉ s.processor.eventSet ∧
      e ∉ s.processor.held))
  | .setActive .. | .addPendingEvents | .look | .processStep | .advance _ => isTrue trivial

/-- A step of the scheduler, or a call that meets its condition. -/
def StepOk (s : Timed) (a : Action) : Prop := Scheduled s a ∧ CallOk s a

instance (s : Timed) (a : Action) : Decidable (StepOk s a) := inferInstanceAs (Decidable (_ ∧ _))

/-! ## The invariant -/

/-- The turns of an entry so far. -/
structure Entry.Ok (entry : Entry) (time : Int) : Prop where
  cycle : 0 ≤ entry.cycle
  tic : ∀ (k : Nat) (turn : Turn), entry.turns[k]? = some turn →
    turn.tic = entry.first + k * entry.cycle ∧ turn.tic ≤ time
  processed : ∀ turn ∈ entry.turns, turn.processed = turn.active

/-- An event in the set is called next for its next turn. -/
def Entry.Waits (entry : Entry) (ev : Event) : Prop :=
  entry.cycle = ev.cycleTics ∧ ev.nextTics = entry.first + entry.turns.length * entry.cycle ∧
    (entry.cycle = 0 → entry.turns = [])

/-- A cyclic event that is being processed is called next for its next turn when its next tics have been advanced. -/
def Entry.Advances (entry : Entry) (ev : Event) (time : Int) : Prop :=
  entry.cycle = ev.cycleTics ∧ ev.nextTics + ev.cycleTics = entry.first + entry.turns.length * entry.cycle ∧
    time < ev.nextTics + ev.cycleTics

/-- **The processor and the entries between two steps.** -/
structure TimedInv (s : Timed) : Prop where
  time : s.time < maxLongLong
  sorted : SortedBy (key s.events) s.processor.eventSet
  once : s.processor.queued.Nodup
  cycles : ∀ e ∈ s.processor.queued, 0 ≤ (s.events e).cycleTics
  /-- The set is not behind the clock, and ahead of it when the pass is over. -/
  ahead : ∀ e ∈ s.processor.eventSet, s.time ≤ (s.events e).nextTics
  passed : s.looked = true → s.processor.pc = .idle → ∀ e ∈ s.processor.eventSet, s.time < (s.events e).nextTics
  pass : s.processor.pc ≠ .idle →
    s.looked = true ∧ (s.processor.pc = .looping s.time ∨ ∃ e, s.processor.pc = .processing s.time e)
  job : s.processor.pc = .idle → s.processor.nextTics = firstTics s.events s.processor.eventSet
  added : ∀ e ∈ s.processor.pendingEvents, s.added e = true
  /-- Where the entries are. -/
  inSet : ∀ e ∈ s.processor.eventSet, ∃ entry, s.entries e = some entry ∧ entry.Waits (s.events e)
  inHand : ∀ e ∈ s.processor.held, (s.events e).cycleTics ≠ 0 →
    ∃ entry, s.entries e = some entry ∧ entry.Advances (s.events e) s.time
  entries : ∀ e entry, s.entries e = some entry → entry.Ok s.time ∧
    (e ∈ s.processor.eventSet ∨ (e ∈ s.processor.held ∧ (s.events e).cycleTics ≠ 0) ∨
      (entry.cycle = 0 ∧ entry.turns.length = 1))
  stray : s.stray = []

theorem Entry.Ok.mono {entry : Entry} {time time' : Int} (h : entry.Ok time) (hle : time ≤ time') : entry.Ok time' :=
  ⟨h.cycle, fun k turn hturn => ⟨(h.tic k turn hturn).1, le_trans (h.tic k turn hturn).2 hle⟩, h.processed⟩

/-- A later turn is not due before the one that the event waits for. -/
theorem Entry.Ok.due_lt {entry : Entry} {time t : Int} (h : entry.Ok time) {k : Nat} (hdue : entry.Due t k)
    (hnext : (entry.cycle = 0 → entry.turns = []) → t < entry.first + entry.turns.length * entry.cycle)
    (hwaits : entry.cycle = 0 → entry.turns = []) : k < entry.turns.length := by
  by_contra hge
  have hlater := hnext hwaits
  have hmul : (entry.turns.length : Int) * entry.cycle ≤ k * entry.cycle :=
    Int.mul_le_mul_of_nonneg_right (by omega) h.cycle
  have hle := hdue.2
  omega

/-- **What the invariant says about one event.** -/
theorem TimedInv.onTime {s : Timed} (h : TimedInv s) {e : Nat} {entry : Entry} (hentry : s.entries e = some entry) :
    OnTime s entry := by
  obtain ⟨hok, hplace⟩ := h.entries e entry hentry
  -- the turn that is next, wherever the event is
  have hnext : ∀ {t k}, t ≤ s.time → entry.Due t k →
      (e ∈ s.processor.eventSet → t < (s.events e).nextTics) → k < entry.turns.length := by
    intro t k hle hdue hset
    rcases hplace with hin | ⟨hheld, hcycle⟩ | ⟨hone, hlength⟩
    · obtain ⟨entry', hentry', -, htics, hnone⟩ := h.inSet e hin
      obtain rfl := Option.some.inj (hentry.symm.trans hentry')
      refine hok.due_lt hdue (fun _ => ?_) hnone
      rw [← htics]
      exact hset hin
    · obtain ⟨entry', hentry', hsame, htics, hlt⟩ := h.inHand e hheld hcycle
      obtain rfl := Option.some.inj (hentry.symm.trans hentry')
      refine hok.due_lt hdue (fun _ => ?_) fun hzero => absurd (hsame ▸ hzero) hcycle
      omega
    · have hk : k = 0 := hdue.1.resolve_right fun hne => hne hone
      omega
  refine ⟨fun k turn hturn => (hok.tic k turn hturn).1, hok.processed, ?_, ?_, ?_⟩
  · intro k hk
    obtain ⟨turn, hturn⟩ : ∃ turn, entry.turns[k]? = some turn := ⟨_, List.getElem?_eq_getElem hk⟩
    obtain ⟨htic, hle⟩ := hok.tic k turn hturn
    refine ⟨?_, by omega⟩
    rw [or_iff_not_imp_right, not_not]
    intro hone
    -- a one-time event has one turn at most
    rcases hplace with hin | ⟨hheld, hcycle⟩ | ⟨-, hlength⟩
    · obtain ⟨entry', hentry', -, -, hnone⟩ := h.inSet e hin
      obtain rfl := Option.some.inj (hentry.symm.trans hentry')
      rw [hnone hone] at hk
      exact absurd hk (Nat.not_lt_zero k)
    · obtain ⟨entry', hentry', hsame, -⟩ := h.inHand e hheld hcycle
      obtain rfl := Option.some.inj (hentry.symm.trans hentry')
      exact absurd (hsame ▸ hone) hcycle
    · omega
  · intro k hdue
    refine hnext (by omega) hdue fun hin => ?_
    have hge := h.ahead e hin
    omega
  · intro hlooked hidle k hdue
    exact hnext le_rfl hdue (h.passed hlooked hidle e)

end Trick.Events
