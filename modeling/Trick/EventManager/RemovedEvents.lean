/-
  A removed event is not processed again.

  `remove_event` searches the set of one processor, or the instruments.  `RemoveOk` says that the event is
  nowhere else: then it is nowhere afterwards (`Absent`), and no call but one that adds it changes that.

  `removed_event_stays_removed` is the result; in `removedPending_run` an event is removed that is pending,
  and one that is being processed.
-/
import Trick.EventManager.EventManager
import Trick.Lib.Modify
import Trick.Lib.Run

namespace Trick.Events

open Trick.Lib Trick.Exec

variable {events : EventStore} {p : EventProcessor} {m : EventManager} {e : Nat}

/-! ## The event of a turn -/

@[simp] theorem insertEvent_count (events : EventStore) (a e : Nat) (l : List Nat) :
    (insertEvent events a l).count e = l.count e + if a = e then 1 else 0 := by
  unfold insertEvent
  rw [(insertAt_perm _ a l).count_eq, List.count_cons]
  simp only [beq_iff_eq]

/-- A field that is written with its own value. -/
theorem setEvent_cycleTics (events : EventStore) (a e : Nat) {ev : Event}
    (h : ev.cycleTics = (events a).cycleTics) :
    (setEvent events a ev e).cycleTics = (events e).cycleTics := by
  unfold setEvent
  by_cases he : e = a
  · subst he
    rw [Function.update_self, h]
  · rw [Function.update_of_ne he]

/-- Only next tics have been written. -/
def TicsOnly (events events' : EventStore) : Prop :=
  ∀ e, events' e = { events e with nextTics := (events' e).nextTics }

theorem TicsOnly.refl (events : EventStore) : TicsOnly events events := fun _ => rfl

theorem TicsOnly.trans {events' events'' : EventStore} (h : TicsOnly events events')
    (h' : TicsOnly events' events'') : TicsOnly events events'' := by
  intro e
  rw [h' e, h e]

theorem TicsOnly.cycleTics {events' : EventStore} (h : TicsOnly events events') (e : Nat) :
    (events' e).cycleTics = (events e).cycleTics := by
  rw [h e]

theorem TicsOnly.beforeAfter {events' : EventStore} (h : TicsOnly events events') (e : Nat) :
    (events' e).beforeAfter = (events e).beforeAfter := by
  rw [h e]

theorem ticsOnly_setEvent (events : EventStore) (a : Nat) (t : Int) :
    TicsOnly events (setEvent events a { events a with nextTics := t }) := by
  intro e
  unfold setEvent
  by_cases he : e = a
  · subst he
    rw [Function.update_self]
  · rw [Function.update_of_ne he]

namespace EventProcessor

/-- What is left of one pending event after its turn: it is in the set, or it has been dropped. -/
theorem addPending_spec (currTics : Int) (isRestart : Bool) (events : EventStore) (p : EventProcessor)
    (a : Nat) :
    (addPending currTics isRestart (events, p) a).2.pendingEvents = p.pendingEvents ∧
      (addPending currTics isRestart (events, p) a).2.pc = p.pc ∧
      TicsOnly events (addPending currTics isRestart (events, p) a).1 ∧
      (∀ e, e ≠ a → (addPending currTics isRestart (events, p) a).1 e = events e) ∧
      ((addPending currTics isRestart (events, p) a).2.eventSet =
          insertEvent (addPending currTics isRestart (events, p) a).1 a p.eventSet ∨
        (events a).cycleTics = 0 ∧ addPending currTics isRestart (events, p) a = (events, p)) := by
  unfold addPending
  dsimp only
  by_cases hcycle : (events a).cycleTics ≠ 0
  · rw [if_pos hcycle]
    cases isRestart with
    | true => exact ⟨rfl, rfl, .refl events, fun _ _ => rfl, Or.inl rfl⟩
    | false =>
      refine ⟨rfl, rfl, ticsOnly_setEvent events a currTics, ?_, Or.inl rfl⟩
      intro e he
      exact Function.update_of_ne he _ _
  · rw [if_neg hcycle]
    split
    · exact ⟨rfl, rfl, .refl events, fun _ _ => rfl, Or.inr ⟨not_not.mp hcycle, rfl⟩⟩
    · exact ⟨rfl, rfl, .refl events, fun _ _ => rfl, Or.inl rfl⟩

/-- The turns together: no event is in the set more often than it was there and pending. -/
theorem foldl_addPending (currTics : Int) (isRestart : Bool) (l : List Nat) :
    ∀ (events : EventStore) (p : EventProcessor),
      (l.foldl (addPending currTics isRestart) (events, p)).2.pendingEvents = p.pendingEvents ∧
        (l.foldl (addPending currTics isRestart) (events, p)).2.pc = p.pc ∧
        TicsOnly events (l.foldl (addPending currTics isRestart) (events, p)).1 ∧
        ∀ e, (l.foldl (addPending currTics isRestart) (events, p)).2.eventSet.count e ≤
          p.eventSet.count e + l.count e := by
  induction l with
  | nil => exact fun events p => ⟨rfl, rfl, .refl events, fun _ => Nat.le_refl _⟩
  | cons a l ih =>
    intro events p
    obtain ⟨hpending, hpc, htics, -, hset⟩ := addPending_spec currTics isRestart events p a
    obtain ⟨ihpending, ihpc, ihtics, ihset⟩ := ih (addPending currTics isRestart (events, p) a).1
      (addPending currTics isRestart (events, p) a).2
    rw [List.foldl_cons]
    refine ⟨ihpending.trans hpending, ihpc.trans hpc, htics.trans ihtics, ?_⟩
    intro e
    have ihset : (l.foldl (addPending currTics isRestart)
          (addPending currTics isRestart (events, p) a)).2.eventSet.count e ≤
        (addPending currTics isRestart (events, p) a).2.eventSet.count e + l.count e := ihset e
    have hone : (addPending currTics isRestart (events, p) a).2.eventSet.count e ≤
        p.eventSet.count e + if a = e then 1 else 0 := by
      rcases hset with h | ⟨-, h⟩
      · rw [h, insertEvent_count]
      · rw [h]
        exact Nat.le_add_right _ _
    rw [List.count_cons]
    simp only [beq_iff_eq]
    omega

/-- The cases of a step of `process_event`. -/
inductive Stepped (events : EventStore) (p : EventProcessor) :
    EventStore × EventProcessor × Option Nat → Prop where
  | idle (hpc : p.pc = .idle) : Stepped events p (events, p, none)
  /-- The set is empty. -/
  | empty {currTics : Int} (hpc : p.pc = .looping currTics) (hl : p.eventSet = []) :
      Stepped events p (events, { p with nextTics := maxLongLong, pc := .idle }, none)
  /-- The time of the first event has not come. -/
  | later {currTics : Int} {a : Nat} {l : List Nat} (hpc : p.pc = .looping currTics)
      (hl : p.eventSet = a :: l) (ha : (events a).nextTics ≠ currTics) :
      Stepped events p (events, { p with nextTics := (events a).nextTics, pc := .idle }, none)
  /-- The first event is taken out of the set, and processed if it is active. -/
  | taken {currTics : Int} {a : Nat} {l : List Nat} (hpc : p.pc = .looping currTics)
      (hl : p.eventSet = a :: l) (ha : (events a).nextTics = currTics) :
      Stepped events p (events, { p with eventSet := l, pc := .processing currTics a },
        if (events a).active then some a else none)
  /-- A cyclic event is put back. -/
  | putBack {currTics : Int} {a : Nat} (hpc : p.pc = .processing currTics a)
      (ha : (events a).cycleTics ≠ 0) :
      Stepped events p (
        setEvent events a { events a with nextTics := (events a).nextTics + (events a).cycleTics },
        { p with
          eventSet := insertEvent (setEvent events a { events a with
            nextTics := (events a).nextTics + (events a).cycleTics }) a p.eventSet
          pc := .looping currTics }, none)
  | dropped {currTics : Int} {a : Nat} (hpc : p.pc = .processing currTics a)
      (ha : (events a).cycleTics = 0) :
      Stepped events p (events, { p with pc := .looping currTics }, none)

theorem stepped (events : EventStore) (p : EventProcessor) :
    Stepped events p (p.processStep events) := by
  unfold processStep
  cases hpc : p.pc with
  | idle => exact .idle hpc
  | looping currTics =>
    dsimp only
    cases hl : p.eventSet with
    | nil =>
      dsimp only
      rw [← hl]
      exact .empty hpc hl
    | cons a l =>
      dsimp only
      split
      · exact .taken hpc hl ‹_›
      · rw [← hl]
        exact .later hpc hl ‹_›
  | processing currTics a =>
    dsimp only
    split
    · exact .putBack hpc ‹_›
    · exact .dropped hpc (not_not.mp ‹_›)

end EventProcessor

/-! ## Where an event comes back from -/

namespace EventProcessor

/-- The events that are in a processor, or will be put back into it. -/
def waiting (events : EventStore) (p : EventProcessor) : List Nat :=
  p.pendingEvents ++ p.eventSet ++ p.held.filter fun e => (events e).cycleTics ≠ 0

theorem mem_waiting : e ∈ p.waiting events ↔
    e ∈ p.pendingEvents ∨ e ∈ p.eventSet ∨ e ∈ p.held ∧ (events e).cycleTics ≠ 0 := by
  unfold waiting
  rw [List.mem_append, List.mem_append, List.mem_filter, or_assoc]
  simp only [ne_eq, decide_not, Bool.not_eq_eq_eq_not, Bool.not_true, decide_eq_false_iff_not]

/-- Only the cycles of the events matter. -/
theorem waiting_congr {events' : EventStore} (h : ∀ e, (events' e).cycleTics = (events e).cycleTics) :
    p.waiting events' = p.waiting events := by
  unfold waiting
  simp only [h]

theorem addEvent_waiting {a : Nat} (h : e ∉ p.waiting events) (ha : e ≠ a) :
    e ∉ (p.addEvent a).waiting events := by
  rw [mem_waiting] at h ⊢
  unfold addEvent
  rw [List.mem_append, List.mem_singleton]
  rintro ((hp | hp) | hs)
  · exact h (Or.inl hp)
  · exact ha hp
  · exact h (Or.inr hs)

theorem removeEvent_waiting {a : Nat} (h : e ∉ p.waiting events) :
    e ∉ (removeEvent events p a).waiting events := by
  rw [mem_waiting] at h ⊢
  rintro (hp | hs | hh)
  · exact h (Or.inl hp)
  · exact h (Or.inr (Or.inl (List.mem_of_mem_erase hs)))
  · exact h (Or.inr (Or.inr hh))

theorem preloadCheckpoint_waiting (h : e ∉ p.waiting events) :
    e ∉ p.preloadCheckpoint.waiting events := by
  rw [mem_waiting] at h ⊢
  rintro (hp | hs | hh)
  · exact h (Or.inl hp)
  · cases hs
  · exact h (Or.inr (Or.inr hh))

theorem processEvent_waiting {currTics : Int} (h : e ∉ p.waiting events) :
    e ∉ (p.processEvent currTics).waiting events := by
  unfold processEvent
  cases hpc : p.pc with
  | looping | processing => exact h
  | idle =>
    rw [mem_waiting] at h ⊢
    rintro (hp | hs | ⟨hh, -⟩)
    · exact h (Or.inl hp)
    · exact h (Or.inr (Or.inl hs))
    · cases hh

/-- The pending events together: no event is in the set more often than it was there and pending. -/
theorem addPendingEvents_spec (currTics : Int) (isRestart : Bool) (events : EventStore)
    (p : EventProcessor) :
    (p.addPendingEvents currTics isRestart events).2.pendingEvents = [] ∧
      (p.addPendingEvents currTics isRestart events).2.pc = p.pc ∧
      TicsOnly events (p.addPendingEvents currTics isRestart events).1 ∧
      ∀ e, (p.addPendingEvents currTics isRestart events).2.eventSet.count e ≤
        p.eventSet.count e + p.pendingEvents.count e :=
  foldl_addPending currTics isRestart p.pendingEvents events { p with pendingEvents := [] }

theorem addPendingEvents_waiting {currTics : Int} {isRestart : Bool} (h : e ∉ p.waiting events) :
    e ∉ (p.addPendingEvents currTics isRestart events).2.waiting
      (p.addPendingEvents currTics isRestart events).1 := by
  obtain ⟨hpending, hpc, htics, hset⟩ := addPendingEvents_spec currTics isRestart events p
  rw [mem_waiting] at h
  rw [waiting_congr htics.cycleTics, mem_waiting]
  rintro (hp | hs | hh)
  · rw [hpending] at hp
    cases hp
  · have hcount := hset e
    rw [List.count_eq_zero.mpr fun hp => h (Or.inl hp)] at hcount
    have hpos := List.count_pos_iff.mpr hs
    apply h
    apply Or.inr
    apply Or.inl
    apply List.count_pos_iff.mp
    omega
  · unfold held at hh
    rw [hpc] at hh
    exact h (Or.inr (Or.inr hh))

/-- One step of `process_event`: an event that is not waiting stays out, and is not processed. -/
theorem processStep_waiting (h : e ∉ p.waiting events) :
    e ∉ (p.processStep events).2.1.waiting (p.processStep events).1 ∧
      (p.processStep events).2.2 ≠ some e := by
  rw [mem_waiting] at h
  have hstep : Stepped events p (p.processStep events) := stepped events p
  generalize p.processStep events = r at hstep ⊢
  rcases hstep with hpc | ⟨hpc, hl⟩ | ⟨hpc, hl, ha⟩ | ⟨hpc, hl, ha⟩ | ⟨hpc, ha⟩ | ⟨hpc, ha⟩
  · exact ⟨mem_waiting.not.mpr h, nofun⟩
  · refine ⟨?_, nofun⟩
    rw [mem_waiting]
    rintro (hp | hs | ⟨hh, -⟩)
    · exact h (Or.inl hp)
    · exact h (Or.inr (Or.inl hs))
    · cases hh
  · refine ⟨?_, nofun⟩
    rw [mem_waiting]
    rintro (hp | hs | ⟨hh, -⟩)
    · exact h (Or.inl hp)
    · exact h (Or.inr (Or.inl hs))
    · cases hh
  · rename_i a l
    -- the event that is taken was in the set
    have hne : e ≠ a := fun he => h (Or.inr (Or.inl (by rw [hl, he]; exact List.mem_cons_self)))
    refine ⟨?_, ?_⟩
    · rw [mem_waiting]
      rintro (hp | hs | ⟨hh, -⟩)
      · exact h (Or.inl hp)
      · exact h (Or.inr (Or.inl (hl ▸ List.mem_cons_of_mem a hs)))
      · exact hne (List.mem_singleton.mp hh)
    · dsimp only
      split
      · intro h
        cases h
        exact hne rfl
      · nofun
  · rename_i currTics a
    have hheld : p.held = [a] := by
      unfold held
      rw [hpc]
    have hne : e ≠ a := by
      intro he
      subst he
      exact h (Or.inr (Or.inr ⟨hheld ▸ List.mem_singleton.mpr rfl, ha⟩))
    refine ⟨?_, nofun⟩
    rw [mem_waiting]
    rintro (hp | hs | ⟨hh, -⟩)
    · exact h (Or.inl hp)
    · rcases mem_insertAt.mp hs with hs | hs
      · exact hne hs
      · exact h (Or.inr (Or.inl hs))
    · cases hh
  · refine ⟨?_, nofun⟩
    rw [mem_waiting]
    rintro (hp | hs | ⟨hh, -⟩)
    · exact h (Or.inl hp)
    · exact h (Or.inr (Or.inl hs))
    · cases hh

end EventProcessor

/-! ## An event that is nowhere -/

namespace EventManager

/-- How often an event is in the processors, or will be put back into them. -/
def waiting (m : EventManager) (e : Nat) : Nat :=
  (m.eventProcessors.map fun p => (p.waiting m.events).count e).sum

/-- The set that `remove_event` searches. -/
def ownSet (m : EventManager) (e : Nat) : List Nat :=
  match m.eventProcessors[(m.events e).threadId]? with
  | none => []
  | some p => p.eventSet

/-- **An event that is nowhere.** -/
def Absent (m : EventManager) (e : Nat) : Prop :=
  (∀ p ∈ m.eventProcessors, e ∉ p.waiting m.events) ∧ (∀ job, e ∉ m.instruments job) ∧
    e ∉ m.activeEvents

/-- What holds in every run: no event is active twice, and the manager knows all instruments. -/
def Known (m : EventManager) : Prop :=
  m.activeEvents.Nodup ∧ ∀ job, ∀ e ∈ m.instruments job, (e, job) ∈ m.eventsInstrumented

/-! ## Conditions of a call -/

/-- **`remove_event` finds the event**: an event without a target job is in the set of the processor of its
    thread if it is anywhere, and there once; one with a target job is only in the instruments. -/
def RemoveOk (m : EventManager) (e : Nat) : Prop :=
  if (m.events e).beforeAfter = .noTarget then
    (m.events e).threadId < m.eventProcessors.length ∧ m.targets e = [] ∧
      m.waiting e = (m.ownSet e).count e ∧ (m.ownSet e).count e ≤ 1
  else m.waiting e = 0

/-- A one-time event does not become cyclic while it is being processed. -/
def CycleOk (m : EventManager) (e : Nat) (cycleTics : Int) : Prop :=
  cycleTics = 0 ∨ (m.events e).cycleTics ≠ 0 ∨ ∀ p ∈ m.eventProcessors, e ∉ p.held

/-- The condition of a call. -/
def CallOk (m : EventManager) : Call → Prop
  | .removeEvent e => m.RemoveOk e
  | .setCycle e cycleTics => m.CycleOk e cycleTics
  | .loadCheckpoint c =>
    ∀ p ∈ m.eventProcessors, ∀ e ∈ p.held, (m.events e).cycleTics = 0 → (c.events e).cycleTics = 0
  | _ => True

instance (m : EventManager) (e : Nat) : Decidable (m.RemoveOk e) :=
  inferInstanceAs (Decidable (if (m.events e).beforeAfter = .noTarget then
    (m.events e).threadId < m.eventProcessors.length ∧ m.targets e = [] ∧
      m.waiting e = (m.ownSet e).count e ∧ (m.ownSet e).count e ≤ 1
  else m.waiting e = 0))

instance (m : EventManager) (e : Nat) (cycleTics : Int) : Decidable (m.CycleOk e cycleTics) :=
  inferInstanceAs (Decidable (cycleTics = 0 ∨ (m.events e).cycleTics ≠ 0 ∨
    ∀ p ∈ m.eventProcessors, e ∉ p.held))

instance CallOk.decidable (m : EventManager) : ∀ call, Decidable (m.CallOk call)
  | .removeEvent e => inferInstanceAs (Decidable (m.RemoveOk e))
  | .setCycle e cycleTics => inferInstanceAs (Decidable (m.CycleOk e cycleTics))
  | .loadCheckpoint c => inferInstanceAs (Decidable (∀ p ∈ m.eventProcessors, ∀ e ∈ p.held,
      (m.events e).cycleTics = 0 → (c.events e).cycleTics = 0))
  | .addEvent _ | .addEventBefore .. | .addEventAfter .. | .setActive .. | .setNextTics .. | .setThread ..
  | .addPendingEvents .. | .processEvent .. | .processStep _ | .callInstrument .. | .timeTicChanged ..
  | .preloadCheckpoint | .restart _ => isTrue trivial

/-- A call that adds an event. -/
def Adds (e : Nat) : Call → Prop
  | .addEvent a | .addEventBefore a .. | .addEventAfter a .. => a = e
  | .loadCheckpoint c => e ∈ c.activeEvents
  | _ => False

/-! ## All instruments are known -/

@[simp] theorem addToActiveEvents_events (m : EventManager) (e : Nat) :
    (m.addToActiveEvents e).events = m.events := by
  unfold addToActiveEvents
  split <;> rfl

@[simp] theorem addToActiveEvents_eventProcessors (m : EventManager) (e : Nat) :
    (m.addToActiveEvents e).eventProcessors = m.eventProcessors := by
  unfold addToActiveEvents
  split <;> rfl

@[simp] theorem addToActiveEvents_instruments (m : EventManager) (e : Nat) :
    (m.addToActiveEvents e).instruments = m.instruments := by
  unfold addToActiveEvents
  split <;> rfl

@[simp] theorem addToActiveEvents_eventsInstrumented (m : EventManager) (e : Nat) :
    (m.addToActiveEvents e).eventsInstrumented = m.eventsInstrumented := by
  unfold addToActiveEvents
  split <;> rfl

@[simp] theorem addToActiveEvents_processed (m : EventManager) (e : Nat) :
    (m.addToActiveEvents e).processed = m.processed := by
  unfold addToActiveEvents
  split <;> rfl

theorem mem_addToActiveEvents {a : Nat} :
    e ∈ (m.addToActiveEvents a).activeEvents ↔ e ∈ m.activeEvents ∨ e = a := by
  unfold addToActiveEvents
  split
  · rename_i h
    constructor
    · exact Or.inl
    · rintro (h' | rfl)
      · exact h'
      · exact h
  · rw [List.mem_append, List.mem_singleton]

theorem addToActiveEvents_nodup (h : m.activeEvents.Nodup) (e : Nat) :
    (m.addToActiveEvents e).activeEvents.Nodup := by
  unfold addToActiveEvents
  split
  · exact h
  · rename_i he
    apply List.Nodup.append h (List.nodup_singleton e)
    intro a ha hae
    rw [List.mem_singleton.mp hae] at ha
    exact he ha

theorem Known.addToActiveEvents (h : m.Known) (e : Nat) : (m.addToActiveEvents e).Known := by
  refine ⟨addToActiveEvents_nodup h.1 e, ?_⟩
  rw [addToActiveEvents_instruments, addToActiveEvents_eventsInstrumented]
  exact h.2

theorem Known.addInstrument (h : m.Known) (e : Nat) (place : EventBeforeAfter) (job : Nat) :
    (m.addInstrument e place job).Known := by
  refine ⟨h.1, ?_⟩
  intro job' a ha
  have ha : a ∈ Function.update m.instruments job (m.instruments job ++ [e]) job' := ha
  show (a, job') ∈ m.eventsInstrumented ++ [(e, job)]
  rw [List.mem_append, List.mem_singleton]
  by_cases hjob : job' = job
  · subst hjob
    rw [Function.update_self, List.mem_append, List.mem_singleton] at ha
    rcases ha with ha | rfl
    · exact Or.inl (h.2 _ a ha)
    · exact Or.inr rfl
  · rw [Function.update_of_ne hjob] at ha
    exact Or.inl (h.2 _ a ha)

theorem Known.addEventBefore (h : m.Known) (e job : Nat) (found : Bool) :
    (m.addEventBefore e job found).Known := by
  unfold EventManager.addEventBefore
  split
  · exact (h.addInstrument e .beforeTarget job).addToActiveEvents e
  · exact h

theorem Known.addEventAfter (h : m.Known) (e job : Nat) (found : Bool) :
    (m.addEventAfter e job found).Known := by
  unfold EventManager.addEventAfter
  split
  · exact (h.addInstrument e .afterTarget job).addToActiveEvents e
  · exact h

theorem mem_targets {job : Nat} : job ∈ m.targets e ↔ (e, job) ∈ m.eventsInstrumented := by
  unfold targets
  rw [List.mem_map]
  constructor
  · rintro ⟨⟨a, j⟩, hmem, rfl⟩
    rw [List.mem_filter, decide_eq_true_eq] at hmem
    obtain ⟨hmem, rfl⟩ := hmem
    exact hmem
  · intro hmem
    refine ⟨(e, job), ?_, rfl⟩
    rw [List.mem_filter, decide_eq_true_eq]
    exact ⟨hmem, rfl⟩

theorem Known.removeInstruments (h : m.Known) (e : Nat) : (m.removeInstruments e).Known := by
  obtain ⟨hnodup, hknown⟩ := h
  refine ⟨hnodup, ?_⟩
  intro job a ha
  unfold EventManager.removeInstruments at ha ⊢
  dsimp only at ha ⊢
  split at ha
  · cases ha
  · rename_i hjob
    have hmem : (a, job) ∈ m.eventsInstrumented := hknown job a ha
    rw [List.mem_filter, decide_eq_true_eq]
    refine ⟨hmem, ?_⟩
    rintro rfl
    exact hjob (mem_targets.mpr hmem)

theorem Known.removeEvent (h : m.Known) (e : Nat) : (m.removeEvent e).Known := by
  unfold EventManager.removeEvent
  dsimp only
  split
  · exact ⟨h.1.erase e, h.2⟩
  · exact ⟨(h.removeInstruments e).1.erase e, (h.removeInstruments e).2⟩

theorem Known.preloadCheckpoint (h : m.Known) : m.preloadCheckpoint.Known := by
  obtain ⟨hnodup, hknown⟩ := h
  refine ⟨hnodup, ?_⟩
  intro job a ha
  unfold EventManager.preloadCheckpoint at ha
  dsimp only at ha
  split at ha
  · cases ha
  · rename_i hjob
    exact absurd (List.mem_map_of_mem (hknown job a ha)) hjob

theorem Known.restart (h : m.Known) (jobExists : Nat → Bool) : (m.restart jobExists).Known := by
  have hfold : ∀ (l : List Nat) (m : EventManager), m.Known →
      (l.foldl (restartEvent jobExists) m).Known := by
    intro l
    induction l with
    | nil => exact fun m h => h
    | cons e l ih =>
      intro m h
      apply ih
      unfold restartEvent
      split
      · exact h.addEventBefore ..
      · exact h.addEventAfter ..
      · exact h.addToActiveEvents e
  exact hfold m.activeEvents m h

/-- **Every call keeps the instruments known.** -/
theorem Known.step (h : m.Known) (call : Call) : (m.step call).Known := by
  cases call with
  | addEvent e => exact h.addToActiveEvents e
  | addEventBefore e job found => exact h.addEventBefore e job found
  | addEventAfter e job found => exact h.addEventAfter e job found
  | removeEvent e => exact h.removeEvent e
  | addPendingEvents i currTics isRestart =>
    unfold EventManager.step EventManager.addPendingEvents
    dsimp only
    split <;> exact h
  | processStep i =>
    unfold EventManager.step EventManager.processStep
    dsimp only
    split <;> exact h
  | preloadCheckpoint => exact h.preloadCheckpoint
  | loadCheckpoint c => exact ⟨c.nodup, h.2⟩
  | restart jobExists => exact h.restart jobExists
  | setActive | setCycle | setNextTics | setThread | processEvent | callInstrument | timeTicChanged => exact h

/-! ## An absent event stays absent -/

/-- Only the processors, the cycles, the instruments and the active events matter. -/
theorem Absent.addToActiveEvents {a : Nat} (h : m.Absent e) (ha : a = e → a ∈ m.activeEvents) :
    (m.addToActiveEvents a).Absent e := by
  obtain ⟨hwaiting, hinstruments, hactive⟩ := h
  refine ⟨?_, ?_, ?_⟩
  · rw [addToActiveEvents_eventProcessors, addToActiveEvents_events]
    exact hwaiting
  · rw [addToActiveEvents_instruments]
    exact hinstruments
  · rw [mem_addToActiveEvents]
    rintro (h | rfl)
    · exact hactive h
    · exact hactive (ha rfl)

theorem Absent.modify {i : Nat} {f : EventProcessor → EventProcessor} (h : m.Absent e)
    (hf : ∀ p, e ∉ p.waiting m.events → e ∉ (f p).waiting m.events) :
    { m with eventProcessors := m.eventProcessors.modify i f }.Absent e := by
  refine ⟨?_, h.2⟩
  intro p hp
  rcases mem_modify hp with hp | ⟨q, hq, rfl⟩
  · exact h.1 p hp
  · exact hf q (h.1 q (List.mem_of_getElem? hq))

theorem Absent.addEvent {a : Nat} (h : m.Absent e) (ha : a ≠ e) : (m.addEvent a).Absent e := by
  apply Absent.modify (h.addToActiveEvents fun hae => absurd hae ha)
  intro p hp
  exact EventProcessor.addEvent_waiting hp ha.symm

/-- A field other than the cycle is written. -/
theorem Absent.setEvents {events : EventStore} (h : m.Absent e)
    (hcycle : ∀ a, (events a).cycleTics = (m.events a).cycleTics) :
    { m with events := events }.Absent e := by
  refine ⟨?_, h.2⟩
  intro p hp
  show e ∉ p.waiting events
  rw [EventProcessor.waiting_congr hcycle]
  exact h.1 p hp

theorem Absent.addInstrument {a : Nat} (h : m.Absent e) (ha : a ≠ e) (place : EventBeforeAfter)
    (job : Nat) : (m.addInstrument a place job).Absent e := by
  have hevents : { m with events := setEvent m.events a { m.events a with
      beforeAfter := place
      target := job } }.Absent e := h.setEvents fun b => setEvent_cycleTics _ _ _ rfl
  refine ⟨hevents.1, ?_, h.2.2⟩
  intro job'
  show e ∉ Function.update m.instruments job (m.instruments job ++ [a]) job'
  by_cases hjob : job' = job
  · subst hjob
    rw [Function.update_self, List.mem_append, List.mem_singleton]
    rintro (he | he)
    · exact h.2.1 _ he
    · exact ha he.symm
  · rw [Function.update_of_ne hjob]
    exact h.2.1 job'

theorem Absent.addEventBefore {a : Nat} (h : m.Absent e) (ha : a ≠ e) (job : Nat) (found : Bool) :
    (m.addEventBefore a job found).Absent e ∧
      (m.addEventBefore a job found).processed = m.processed := by
  unfold EventManager.addEventBefore
  split
  · refine ⟨(h.addInstrument ha .beforeTarget job).addToActiveEvents fun hae => absurd hae ha, ?_⟩
    rw [addToActiveEvents_processed]
    rfl
  · exact ⟨h, rfl⟩

theorem Absent.addEventAfter {a : Nat} (h : m.Absent e) (ha : a ≠ e) (job : Nat) (found : Bool) :
    (m.addEventAfter a job found).Absent e ∧
      (m.addEventAfter a job found).processed = m.processed := by
  unfold EventManager.addEventAfter
  split
  · refine ⟨(h.addInstrument ha .afterTarget job).addToActiveEvents fun hae => absurd hae ha, ?_⟩
    rw [addToActiveEvents_processed]
    rfl
  · exact ⟨h, rfl⟩

theorem Absent.removeEvent (h : m.Absent e) (a : Nat) : (m.removeEvent a).Absent e := by
  obtain ⟨hwaiting, hinstruments, hactive⟩ := h
  have hactive' : e ∉ m.activeEvents.erase a := fun he => hactive (List.mem_of_mem_erase he)
  unfold EventManager.removeEvent
  dsimp only
  split
  · refine ⟨?_, hinstruments, hactive'⟩
    intro p hp
    rcases mem_modify hp with hp | ⟨q, hq, rfl⟩
    · exact hwaiting p hp
    · exact EventProcessor.removeEvent_waiting (hwaiting q (List.mem_of_getElem? hq))
  · refine ⟨hwaiting, ?_, hactive'⟩
    intro job he
    have he : e ∈ if job ∈ m.targets a then [] else m.instruments job := he
    split at he
    · cases he
    · exact hinstruments job he

theorem Absent.preloadCheckpoint (h : m.Absent e) : m.preloadCheckpoint.Absent e := by
  refine ⟨?_, ?_, h.2.2⟩
  · intro p hp
    obtain ⟨q, hq, rfl⟩ := List.mem_map.mp hp
    exact EventProcessor.preloadCheckpoint_waiting (h.1 q hq)
  · intro job he
    have he : e ∈ if job ∈ m.eventsInstrumented.map Prod.snd then [] else m.instruments job := he
    split at he
    · cases he
    · exact h.2.1 job he

theorem Absent.loadCheckpoint {c : Checkpoint} (h : m.Absent e)
    (hheld : ∀ p ∈ m.eventProcessors, ∀ a ∈ p.held, (m.events a).cycleTics = 0 →
      (c.events a).cycleTics = 0) (hc : e ∉ c.activeEvents) : (m.loadCheckpoint c).Absent e := by
  refine ⟨?_, h.2.1, hc⟩
  intro p hp
  have h := h.1 p hp
  rw [EventProcessor.mem_waiting] at h ⊢
  rintro (hp' | hs | ⟨hh, hcycle⟩)
  · exact h (Or.inl hp')
  · exact h (Or.inr (Or.inl hs))
  · by_cases hzero : (m.events e).cycleTics = 0
    · exact hcycle (hheld p hp e hh hzero)
    · exact h (Or.inr (Or.inr ⟨hh, hzero⟩))

theorem Absent.setCycle {a : Nat} {cycleTics : Int} (h : m.Absent e) (ha : m.CycleOk a cycleTics) :
    (m.step (.setCycle a cycleTics)).Absent e := by
  refine ⟨?_, h.2⟩
  intro p hp
  have h := h.1 p hp
  rw [EventProcessor.mem_waiting] at h ⊢
  rintro (hp' | hs | ⟨hh, hcycle⟩)
  · exact h (Or.inl hp')
  · exact h (Or.inr (Or.inl hs))
  · have hcycle : (setEvent m.events a { m.events a with cycleTics := cycleTics } e).cycleTics ≠ 0 :=
      hcycle
    apply h
    refine Or.inr (Or.inr ⟨hh, ?_⟩)
    unfold setEvent at hcycle
    by_cases hea : e = a
    · subst hea
      rw [Function.update_self] at hcycle
      rcases ha with ha | ha | ha
      · exact absurd ha hcycle
      · exact ha
      · exact absurd hh (ha p hp)
    · rw [Function.update_of_ne hea] at hcycle
      exact hcycle

theorem Absent.setProcessor {i : Nat} {events : EventStore} {p : EventProcessor} (h : m.Absent e)
    (hcycle : ∀ a, (events a).cycleTics = (m.events a).cycleTics) (hp : e ∉ p.waiting events) :
    (m.setProcessor i events p).Absent e := by
  refine ⟨?_, h.2⟩
  intro q hq
  rcases mem_modify hq with hq | ⟨-, -, rfl⟩
  · rw [show (m.setProcessor i events p).events = events from rfl,
      EventProcessor.waiting_congr hcycle]
    exact h.1 q hq
  · exact hp

theorem Absent.addPendingEvents (h : m.Absent e) (i : Nat) (currTics : Int) (isRestart : Bool) :
    (m.addPendingEvents i currTics isRestart).Absent e := by
  unfold EventManager.addPendingEvents
  split
  · exact h
  · rename_i p hp
    apply h.setProcessor
    · exact (EventProcessor.addPendingEvents_spec currTics isRestart m.events p).2.2.1.cycleTics
    · exact EventProcessor.addPendingEvents_waiting (h.1 p (List.mem_of_getElem? hp))

theorem count_processed {l : List Nat} {o : Option Nat} (h : o ≠ some e) :
    (l ++ o.toList).count e = l.count e := by
  have hzero : o.toList.count e = 0 := List.count_eq_zero.mpr fun he => h (Option.mem_toList.mp he)
  rw [List.count_append, hzero, Nat.add_zero]

/-- A pass writes next tics only. -/
theorem processStep_ticsOnly (events : EventStore) (p : EventProcessor) :
    TicsOnly events (p.processStep events).1 := by
  have hstep : EventProcessor.Stepped events p (p.processStep events) := EventProcessor.stepped events p
  generalize p.processStep events = r at hstep ⊢
  cases hstep with
  | putBack => exact ticsOnly_setEvent events _ _
  | idle | empty | later | taken | dropped => exact .refl events

theorem Absent.processStep (h : m.Absent e) (i : Nat) :
    (m.processStep i).Absent e ∧ (m.processStep i).processed.count e = m.processed.count e := by
  unfold EventManager.processStep
  split
  · exact ⟨h, rfl⟩
  · rename_i p hp
    obtain ⟨hwaiting, hprocessed⟩ :=
      EventProcessor.processStep_waiting (h.1 p (List.mem_of_getElem? hp))
    refine ⟨h.setProcessor (processStep_ticsOnly m.events p).cycleTics hwaiting, ?_⟩
    exact count_processed hprocessed

theorem timeTicChanged_ticsOnly (m : EventManager) (oldTt tt : Int) :
    TicsOnly m.events (m.timeTicChanged oldTt tt).events := by
  have hfold : ∀ (l : List Nat) (events : EventStore),
      TicsOnly events (l.foldl (fun events e => setEvent events e { events e with
        nextTics := (events e).nextTics.tdiv oldTt * tt }) events) := by
    intro l
    induction l with
    | nil => exact fun events => .refl events
    | cons e l ih =>
      intro events
      exact (ticsOnly_setEvent events e _).trans (ih _)
  exact hfold m.activeEvents m.events

theorem Absent.restart (h : m.Absent e) (jobExists : Nat → Bool) :
    (m.restart jobExists).Absent e ∧ (m.restart jobExists).processed = m.processed := by
  have hfold : ∀ (l : List Nat) (m : EventManager), e ∉ l → m.Absent e →
      (l.foldl (restartEvent jobExists) m).Absent e ∧
        (l.foldl (restartEvent jobExists) m).processed = m.processed := by
    intro l
    induction l with
    | nil => exact fun m _ h => ⟨h, rfl⟩
    | cons a l ih =>
      intro m he h
      rw [List.mem_cons, not_or] at he
      have hone : (restartEvent jobExists m a).Absent e ∧
          (restartEvent jobExists m a).processed = m.processed := by
        unfold restartEvent
        split
        · exact h.addEventBefore (Ne.symm he.1) ..
        · exact h.addEventAfter (Ne.symm he.1) ..
        · exact ⟨h.addEvent (Ne.symm he.1), addToActiveEvents_processed m a⟩
      obtain ⟨habsent, hprocessed⟩ := ih _ he.2 hone.1
      exact ⟨habsent, hprocessed.trans hone.2⟩
  exact hfold m.activeEvents m h.2.2 h

/-- **No call but one that adds it brings an absent event back, or processes it.** -/
theorem Absent.step {call : Call} (h : m.Absent e) (hok : m.CallOk call) (hadds : ¬ Adds e call) :
    (m.step call).Absent e ∧ (m.step call).processed.count e = m.processed.count e := by
  cases call with
  | addEvent a =>
    refine ⟨h.addEvent hadds, ?_⟩
    show (m.addToActiveEvents a).processed.count e = _
    rw [addToActiveEvents_processed]
  | addEventBefore a job found =>
    obtain ⟨habsent, hprocessed⟩ := h.addEventBefore hadds job found
    exact ⟨habsent, congrArg (List.count e) hprocessed⟩
  | addEventAfter a job found =>
    obtain ⟨habsent, hprocessed⟩ := h.addEventAfter hadds job found
    exact ⟨habsent, congrArg (List.count e) hprocessed⟩
  | removeEvent a =>
    refine ⟨h.removeEvent a, ?_⟩
    show (m.removeEvent a).processed.count e = _
    unfold EventManager.removeEvent
    dsimp only
    split <;> rfl
  | setActive a active => exact ⟨h.setEvents fun b => setEvent_cycleTics _ _ _ rfl, rfl⟩
  | setNextTics a nextTics => exact ⟨h.setEvents fun b => setEvent_cycleTics _ _ _ rfl, rfl⟩
  | setThread a threadId => exact ⟨h.setEvents fun b => setEvent_cycleTics _ _ _ rfl, rfl⟩
  | setCycle a cycleTics => exact ⟨h.setCycle hok, rfl⟩
  | addPendingEvents i currTics isRestart =>
    refine ⟨h.addPendingEvents i currTics isRestart, ?_⟩
    show (m.addPendingEvents i currTics isRestart).processed.count e = _
    unfold EventManager.addPendingEvents
    split <;> rfl
  | processEvent i currTics =>
    refine ⟨h.modify ?_, rfl⟩
    exact fun p hp => EventProcessor.processEvent_waiting hp
  | processStep i => exact h.processStep i
  | callInstrument job k =>
    refine ⟨h, count_processed ?_⟩
    exact fun hk => h.2.1 job (List.mem_of_getElem? hk)
  | timeTicChanged oldTt tt => exact ⟨h.setEvents (timeTicChanged_ticsOnly m oldTt tt).cycleTics, rfl⟩
  | preloadCheckpoint => exact ⟨h.preloadCheckpoint, rfl⟩
  | loadCheckpoint c => exact ⟨h.loadCheckpoint hok hadds, rfl⟩
  | restart jobExists =>
    obtain ⟨habsent, hprocessed⟩ := h.restart jobExists
    exact ⟨habsent, congrArg (List.count e) hprocessed⟩

theorem absent_run {ds : List Call} : ∀ {m : EventManager}, m.Absent e → Guarded CallOk step m ds →
    (∀ call ∈ ds, ¬ Adds e call) →
      (run step m ds).processed.count e = m.processed.count e := by
  induction ds with
  | nil => exact fun _ _ _ => rfl
  | cons call ds ih =>
    intro m h hok hadds
    obtain ⟨habsent, hcount⟩ := h.step hok.1 (hadds call List.mem_cons_self)
    rw [run_cons, ← hcount]
    exact ih habsent hok.2 fun call hcall => hadds call (List.mem_cons_of_mem _ hcall)

/-! ## The event that is removed -/

theorem waiting_eq_zero : m.waiting e = 0 ↔ ∀ p ∈ m.eventProcessors, e ∉ p.waiting m.events := by
  unfold waiting
  rw [List.sum_eq_zero_iff]
  simp only [List.mem_map, forall_exists_index, and_imp, forall_apply_eq_imp_iff₂, List.count_eq_zero]

theorem removeEvent_count (events : EventStore) (p : EventProcessor) (e : Nat) :
    ((EventProcessor.removeEvent events p e).waiting events).count e + min 1 (p.eventSet.count e) =
      (p.waiting events).count e := by
  have hset : (p.eventSet.erase e).count e = p.eventSet.count e - 1 := List.count_erase_self
  unfold EventProcessor.waiting
  rw [List.count_append, List.count_append, List.count_append, List.count_append]
  show p.pendingEvents.count e + (p.eventSet.erase e).count e + _ + _ = _
  rw [hset]
  show _ + (p.held.filter fun e => (events e).cycleTics ≠ 0).count e + _ = _
  omega

/-- **`remove_event` leaves the event nowhere.** -/
theorem absent_of_removeOk (h : m.Known) (hok : m.RemoveOk e) : (m.removeEvent e).Absent e := by
  have hactive : e ∉ m.activeEvents.erase e := fun he => (h.1.mem_erase_iff.mp he).1 rfl
  unfold RemoveOk at hok
  unfold removeEvent
  dsimp only
  by_cases hplace : (m.events e).beforeAfter = .noTarget
  · rw [if_pos hplace] at hok ⊢
    obtain ⟨hthread, htargets, hcount, hone⟩ := hok
    refine ⟨?_, ?_, hactive⟩
    · apply waiting_eq_zero.mp
      obtain ⟨p, hp⟩ : ∃ p, m.eventProcessors[(m.events e).threadId]? = some p :=
        ⟨_, List.getElem?_eq_getElem hthread⟩
      have hown : m.ownSet e = p.eventSet := by
        unfold ownSet
        rw [hp]
      rw [hown] at hcount hone
      -- all of them were in the set, and one has been erased
      have hsum := sum_modify (f := fun p => EventProcessor.removeEvent m.events p e)
        (fun p => (p.waiting m.events).count e) hp
      have herase := removeEvent_count m.events p e
      unfold waiting at hcount ⊢
      dsimp only at hsum ⊢
      omega
    · intro job he
      have hmem : job ∈ m.targets e := mem_targets.mpr (h.2 job e he)
      rw [htargets] at hmem
      cases hmem
  · rw [if_neg hplace] at hok ⊢
    refine ⟨waiting_eq_zero.mp hok, ?_, hactive⟩
    intro job he
    have he : e ∈ if job ∈ m.targets e then [] else m.instruments job := he
    split at he
    · cases he
    · rename_i hjob
      exact hjob (mem_targets.mpr (h.2 job e he))

theorem known_start (events : EventStore) (threads : Nat) : (start events threads).Known :=
  ⟨List.nodup_nil, fun _ _ he => (by cases he)⟩

/-! ## All runs -/

/-- **The claim on a run**: after the removal the event is processed no more, as long as nothing adds
    it. -/
def StaysRemoved (m : EventManager) (cs : List Call) (e : Nat) (ds : List Call) : Prop :=
  (∀ call ∈ ds, ¬ Adds e call) →
    (run step m (cs ++ .removeEvent e :: ds)).processed.count e =
      (run step m (cs ++ [.removeEvent e])).processed.count e

instance Adds.decidable (e : Nat) : ∀ call, Decidable (Adds e call)
  | .addEvent a | .addEventBefore a .. | .addEventAfter a .. => inferInstanceAs (Decidable (a = e))
  | .loadCheckpoint c => inferInstanceAs (Decidable (e ∈ c.activeEvents))
  | .removeEvent _ | .setActive .. | .setCycle .. | .setNextTics .. | .setThread ..
  | .addPendingEvents .. | .processEvent .. | .processStep _ | .callInstrument .. | .timeTicChanged ..
  | .preloadCheckpoint | .restart _ => isFalse not_false

instance (m : EventManager) (cs : List Call) (e : Nat) (ds : List Call) :
    Decidable (m.StaysRemoved cs e ds) :=
  inferInstanceAs (Decidable ((∀ call ∈ ds, ¬ Adds e call) →
    (run step m (cs ++ .removeEvent e :: ds)).processed.count e =
      (run step m (cs ++ [.removeEvent e])).processed.count e))

/-- **In a run whose calls meet their conditions a removed event stays removed.** -/
theorem removed_event_stays_removed (events : EventStore) (threads : Nat) (cs : List Call) (e : Nat)
    (ds : List Call)
    (hok : Guarded CallOk step (start events threads) (cs ++ .removeEvent e :: ds)) :
    (start events threads).StaysRemoved cs e ds := by
  intro hadds
  rw [guarded_append] at hok
  obtain ⟨hcs, hremove, hds⟩ := hok
  have hknown : (run step (start events threads) cs).Known :=
    Guarded.invariant (fun _ call h _ => h.step call) cs _ (known_start events threads) hcs
  have habsent : ((run step (start events threads) cs).step (.removeEvent e)).Absent e :=
    absent_of_removeOk hknown hremove
  rw [run_append, run_append, run_cons, run_cons, run_nil]
  exact absent_run habsent hds hadds

/-! ## Some runs -/

/-- Event 0 has a cycle, and event 1 has none. -/
def someEvents : EventStore := fun e =>
  if e = 0 then { active := true, cycleTics := 10 } else { active := true, cycleTics := 0, nextTics := 10 }

/-- A removal between two passes, and one by a one-time event that is being processed. -/
def removeBetweenPasses : List Call :=
  [.addEvent 0, .addEvent 1, .addPendingEvents 0 0 false, .processEvent 0 0, .processStep 0,
    .processStep 0, .processStep 0]

def removeOnce : List Call :=
  [.processEvent 0 10, .processStep 0, .removeEvent 1, .processStep 0, .processStep 0]

theorem removed_event_stays_removed_run :
    (start someEvents 1).StaysRemoved removeBetweenPasses 0 removeOnce ∧
      (start someEvents 1).StaysRemoved
        (removeBetweenPasses ++ .removeEvent 0 :: removeOnce.take 2) 1 (removeOnce.drop 3) :=
  ⟨removed_event_stays_removed someEvents 1 removeBetweenPasses 0 removeOnce (by decide +kernel),
    removed_event_stays_removed someEvents 1 _ 1 (removeOnce.drop 3) (by decide +kernel)⟩

/-- An event that is still pending when it is removed, and a cyclic event that is removed while it is being
    processed: both are processed afterwards. -/
theorem removedPending_run :
    ¬ (start someEvents 1).StaysRemoved [.addEvent 0] 0
        [.addPendingEvents 0 0 false, .processEvent 0 0, .processStep 0] ∧
      ¬ (start someEvents 1).StaysRemoved
        [.addEvent 0, .addPendingEvents 0 0 false, .processEvent 0 0, .processStep 0] 0
        [.processStep 0, .processStep 0, .processEvent 0 10, .processStep 0] := by
  constructor
  · decide +kernel
  · decide +kernel

end EventManager

end Trick.Events
