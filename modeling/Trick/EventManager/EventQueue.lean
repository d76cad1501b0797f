/-
  Every event is queued at most once, and the sets are ordered.

  The keys of a set are fields of its events.  They are written when an event becomes pending again, when
  its cycle is over, by the user and when the time tic changes; `QueueInv` says that an event is in one
  place at most, so that a write to an event which is in no set leaves all sets ordered.

  A one-time event that has been processed stays active, and is in no set; `QueueInv` says of the cyclic
  events that each active one is in its place.  `event_queue_invariant` is the result.
-/
import Trick.EventManager.RemovedEvents

namespace Trick.Events

open Trick.Lib Trick.Exec

variable {events events' : EventStore} {p q : EventProcessor} {m : EventManager} {e : Nat}

/-! ## The order of a set -/

/-- A write to an event that is not in the set. -/
theorem ordered_of_not_mem {l : List Nat} (h : SortedBy (key events) l)
    (hsame : ∀ a ∈ l, events' a = events a) : SortedBy (key events') l := by
  apply h.of_le
  intro a ha b hb hab
  show (events' a).nextTics ≤ (events' b).nextTics
  rw [hsame a ha, hsame b hb]
  exact hab

namespace EventProcessor

theorem waiting_count (events : EventStore) (p : EventProcessor) (e : Nat) :
    (p.waiting events).count e = p.pendingEvents.count e + p.eventSet.count e +
      (p.held.filter fun e => (events e).cycleTics ≠ 0).count e := by
  unfold waiting
  rw [List.count_append, List.count_append]

/-- **The pending events are moved to the set**: it stays in order, as they are not in it. -/
theorem foldl_addPending_ordered (currTics : Int) (isRestart : Bool) (l : List Nat) :
    ∀ (events : EventStore) (p : EventProcessor), SortedBy (key events) p.eventSet →
      (∀ a, l.count a + p.eventSet.count a ≤ 1) →
      SortedBy (key (l.foldl (addPending currTics isRestart) (events, p)).1)
          (l.foldl (addPending currTics isRestart) (events, p)).2.eventSet ∧
        (∀ a, a ∉ l → (l.foldl (addPending currTics isRestart) (events, p)).1 a = events a) ∧
        ∀ a, (events a).cycleTics ≠ 0 →
          (l.foldl (addPending currTics isRestart) (events, p)).2.eventSet.count a =
            l.count a + p.eventSet.count a := by
  induction l with
  | nil =>
    intro events p hs _
    refine ⟨hs, fun _ _ => rfl, ?_⟩
    intro a _
    rw [List.count_nil, Nat.zero_add]
    rfl
  | cons b l ih =>
    intro events p hs hone
    obtain ⟨-, -, htics, hsame, hset⟩ := addPending_spec currTics isRestart events p b
    rw [List.foldl_cons]
    generalize addPending currTics isRestart (events, p) b = r at htics hsame hset ⊢
    have hb : b ∉ p.eventSet := by
      intro hb
      have hpos := List.count_pos_iff.mpr hb
      have hone := hone b
      rw [List.count_cons_self] at hone
      omega
    have hordered : SortedBy (key r.1) r.2.eventSet := by
      rcases hset with hset | ⟨-, hset⟩
      · rw [hset]
        apply SortedBy.insertAt_upperBound
        exact ordered_of_not_mem hs fun a ha => hsame a fun hab => hb (hab ▸ ha)
      · rw [hset]
        exact hs
    have hcount : ∀ a, r.2.eventSet.count a ≤ p.eventSet.count a + (if b = a then 1 else 0) ∧
        ((events a).cycleTics ≠ 0 →
          r.2.eventSet.count a = p.eventSet.count a + if b = a then 1 else 0) := by
      intro a
      rcases hset with hset | ⟨hcycle, hset⟩
      · rw [hset, insertEvent_count]
        exact ⟨Nat.le_refl _, fun _ => rfl⟩
      · rw [hset]
        refine ⟨Nat.le_add_right _ _, ?_⟩
        intro ha
        rw [if_neg, Nat.add_zero]
        rintro rfl
        exact ha hcycle
    have hcons : ∀ a, (b :: l).count a = l.count a + if b = a then 1 else 0 := by
      intro a
      rw [List.count_cons]
      simp only [beq_iff_eq]
    obtain ⟨ihordered, ihsame, ihcount⟩ := ih r.1 r.2 hordered (by
      intro a
      have hone := hone a
      have hle := (hcount a).1
      rw [hcons] at hone
      omega)
    refine ⟨ihordered, ?_, ?_⟩
    · intro a ha
      rw [List.mem_cons, not_or] at ha
      rw [ihsame a ha.2, hsame a ha.1]
    · intro a ha
      rw [ihcount a (by rw [htics.cycleTics]; exact ha), (hcount a).2 ha, hcons]
      omega

theorem addPendingEvents_ordered (currTics : Int) (isRestart : Bool) (events : EventStore)
    (p : EventProcessor) (hs : SortedBy (key events) p.eventSet)
    (hone : ∀ a, p.pendingEvents.count a + p.eventSet.count a ≤ 1) :
    SortedBy (key (p.addPendingEvents currTics isRestart events).1)
        (p.addPendingEvents currTics isRestart events).2.eventSet ∧
      (∀ a, a ∉ p.pendingEvents → (p.addPendingEvents currTics isRestart events).1 a = events a) ∧
      ∀ a, (events a).cycleTics ≠ 0 →
        (p.addPendingEvents currTics isRestart events).2.eventSet.count a =
          p.pendingEvents.count a + p.eventSet.count a :=
  foldl_addPending_ordered currTics isRestart p.pendingEvents events { p with pendingEvents := [] } hs hone

/-- The held event is put back if it has a cycle. -/
theorem waiting_count_of_processing {currTics : Int} {b : Nat} (hpc : p.pc = .processing currTics b)
    (events : EventStore) (a : Nat) :
    (p.waiting events).count a = p.pendingEvents.count a + p.eventSet.count a +
      if b = a ∧ (events b).cycleTics ≠ 0 then 1 else 0 := by
  have hheld : p.held = [b] := by
    unfold held
    rw [hpc]
  rw [waiting_count, hheld]
  by_cases hcycle : (events b).cycleTics ≠ 0
  · rw [List.filter_cons_of_pos (by simp only [hcycle, decide_true, ne_eq, not_false_eq_true]),
      List.filter_nil, List.count_singleton]
    simp only [beq_iff_eq, hcycle, ne_eq, not_false_eq_true, and_true]
  · rw [List.filter_cons_of_neg (by simp only [hcycle, decide_false, Bool.false_eq_true,
      not_false_eq_true]), List.filter_nil, List.count_nil]
    simp only [hcycle, and_false, if_false]

theorem waiting_count_of_not_processing (hheld : p.held = []) (events : EventStore) (a : Nat) :
    (p.waiting events).count a = p.pendingEvents.count a + p.eventSet.count a := by
  rw [waiting_count, hheld]
  rfl

/-- **One step of `process_event`**: the set stays in order, and a cyclic event is taken out of it and put
    back. -/
theorem processStep_ordered (events : EventStore) (p : EventProcessor)
    (hs : SortedBy (key events) p.eventSet) (hone : ∀ a, (p.waiting events).count a ≤ 1) :
    SortedBy (key (p.processStep events).1) (p.processStep events).2.1.eventSet ∧
      (∀ a, a ∉ p.waiting events → (p.processStep events).1 a = events a) ∧
      (∀ a, ((p.processStep events).2.1.waiting events).count a ≤ (p.waiting events).count a) ∧
      ∀ a, (events a).cycleTics ≠ 0 →
        ((p.processStep events).2.1.waiting events).count a = (p.waiting events).count a := by
  have hstep : Stepped events p (p.processStep events) := stepped events p
  generalize p.processStep events = r at hstep ⊢
  have hheld : ∀ {t : Int}, p.pc = .looping t → p.held = [] := by
    intro t hpc
    unfold held
    rw [hpc]
  rcases hstep with hpc | ⟨hpc, hl⟩ | ⟨hpc, hl, ha⟩ | ⟨hpc, hl, ha⟩ | ⟨hpc, ha⟩ | ⟨hpc, ha⟩
  · exact ⟨hs, fun _ _ => rfl, fun _ => Nat.le_refl _, fun _ _ => rfl⟩
  · have hcount : ∀ a, ({ p with nextTics := maxLongLong, pc := .idle : EventProcessor }.waiting
        events).count a = (p.waiting events).count a := by
      intro a
      rw [waiting_count_of_not_processing (hheld hpc), waiting_count_of_not_processing rfl]
    exact ⟨hs, fun _ _ => rfl, fun a => Nat.le_of_eq (hcount a), fun a _ => hcount a⟩
  · rename_i b l
    have hcount : ∀ a, ({ p with nextTics := (events b).nextTics, pc := .idle : EventProcessor }.waiting
        events).count a = (p.waiting events).count a := by
      intro a
      rw [waiting_count_of_not_processing (hheld hpc), waiting_count_of_not_processing rfl]
    exact ⟨hs, fun _ _ => rfl, fun a => Nat.le_of_eq (hcount a), fun a _ => hcount a⟩
  · rename_i currTics b l
    have hcons : ∀ a, (p.waiting events).count a =
        p.pendingEvents.count a + l.count a + if b = a then 1 else 0 := by
      intro a
      rw [waiting_count_of_not_processing (hheld hpc), hl, List.count_cons]
      simp only [beq_iff_eq, Nat.add_assoc]
    rw [hl] at hs
    refine ⟨hs.of_cons, fun _ _ => rfl, ?_, ?_⟩
    · intro a
      rw [waiting_count_of_processing rfl, hcons]
      apply Nat.add_le_add_left
      split
      · rename_i h
        rw [if_pos h.1]
      · exact Nat.zero_le _
    · intro a hcycle
      rw [waiting_count_of_processing rfl, hcons]
      apply congrArg
      by_cases hba : b = a
      · subst hba
        rw [if_pos rfl, if_pos ⟨rfl, hcycle⟩]
      · rw [if_neg hba, if_neg fun h => hba h.1]
  · rename_i currTics b
    have hb : b ∈ p.waiting events := by
      apply List.count_pos_iff.mp
      rw [waiting_count_of_processing hpc, if_pos ⟨rfl, ha⟩]
      omega
    have hnot : b ∉ p.eventSet := by
      intro hmem
      have hpos := List.count_pos_iff.mpr hmem
      have hone := hone b
      rw [waiting_count_of_processing hpc, if_pos ⟨rfl, ha⟩] at hone
      omega
    have hsame : ∀ a, a ≠ b → setEvent events b { events b with
        nextTics := (events b).nextTics + (events b).cycleTics } a = events a :=
      fun a hab => Function.update_of_ne hab _ _
    have hcount : ∀ a, ({ p with
          eventSet := insertEvent (setEvent events b { events b with
            nextTics := (events b).nextTics + (events b).cycleTics }) b p.eventSet
          pc := .looping currTics : EventProcessor }.waiting events).count a =
        (p.waiting events).count a := by
      intro a
      rw [waiting_count_of_processing hpc, waiting_count_of_not_processing rfl, insertEvent_count]
      simp only [ha, ne_eq, not_false_eq_true, and_true, Nat.add_assoc]
    refine ⟨?_, ?_, fun a => Nat.le_of_eq (hcount a), fun a _ => hcount a⟩
    · apply SortedBy.insertAt_upperBound
      exact ordered_of_not_mem hs fun a ha => hsame a fun hab => hnot (hab ▸ ha)
    · intro a ha
      exact hsame a fun hab => ha (hab ▸ hb)
  · rename_i currTics b
    refine ⟨hs, fun _ _ => rfl, ?_, ?_⟩
    · intro a
      rw [waiting_count_of_processing hpc, waiting_count_of_not_processing rfl]
      exact Nat.le_add_right _ _
    · intro a hcycle
      rw [waiting_count_of_processing hpc, waiting_count_of_not_processing rfl, if_neg]
      · rfl
      · rintro ⟨rfl, -⟩
        exact hcycle ha

end EventProcessor

namespace EventManager

/-! ## The invariant -/

/-- An event that `process_event` is to process: it is active, it has no target job and it has a cycle. -/
def Cyclic (m : EventManager) (e : Nat) : Prop :=
  e ∈ m.activeEvents ∧ (m.events e).beforeAfter = .noTarget ∧ (m.events e).cycleTics ≠ 0

/-- **The queues of events.** -/
structure QueueInv (m : EventManager) : Prop where
  /-- No event is in two places. -/
  once : ∀ e, m.waiting e ≤ 1
  /-- What is queued is active. -/
  active : ∀ p ∈ m.eventProcessors, ∀ e ∈ p.waiting m.events, e ∈ m.activeEvents
  /-- Every cyclic event is in its place. -/
  cyclic : m.reloading = false → ∀ e, m.Cyclic e → m.waiting e = 1
  /-- The sets are ordered by the next tics that their events have now. -/
  ordered : ∀ p ∈ m.eventProcessors, SortedBy (key m.events) p.eventSet

/-- The least next tics of a set. -/
def minTics (events : EventStore) (l : List Nat) : Int := ((l.map (key events)).min?).getD maxLongLong

/-- A pass ends: the step leaves the loop. -/
def PassEnds (m : EventManager) (i : Nat) : Prop :=
  ∃ p, m.eventProcessors[i]? = some p ∧ p.pc ≠ .idle ∧ (p.processStep m.events).2.1.pc = .idle

/-- The job of a processor is called next for the first event of its set. -/
def JobOnTime (m : EventManager) (i : Nat) : Prop :=
  ∀ p, m.eventProcessors[i]? = some p → p.nextTics = minTics m.events p.eventSet

/-! ## Conditions of a call -/

/-- An event is added while it is nowhere, and its thread has a processor. -/
def AddOk (m : EventManager) (e : Nat) : Prop :=
  m.waiting e = 0 ∧ (m.events e).threadId < m.eventProcessors.length

/-- An event does not become cyclic while it is active and nowhere. -/
def SetCycleOk (m : EventManager) (e : Nat) (cycleTics : Int) : Prop :=
  cycleTics = 0 ∨ (m.events e).cycleTics ≠ 0 ∨
    (∀ p ∈ m.eventProcessors, e ∉ p.held) ∧
      (e ∉ m.activeEvents ∨ (m.events e).beforeAfter ≠ .noTarget ∨ m.waiting e = 1)

/-- **The condition of a call**: the keys of a set are not written from outside, and what is added is
    nowhere before. -/
def QueueOk (m : EventManager) : Call → Prop
  | .addEvent e => m.AddOk e
  | .removeEvent e => m.RemoveOk e
  | .setCycle e cycleTics => m.SetCycleOk e cycleTics
  | .setNextTics e _ => ∀ p ∈ m.eventProcessors, e ∉ p.eventSet
  | .timeTicChanged oldTt tt => 0 < oldTt ∧ 0 ≤ tt
  | .loadCheckpoint _ => m.reloading = true ∧ ∀ p ∈ m.eventProcessors, p.queued = []
  | .restart _ => ∀ e ∈ m.activeEvents, (m.events e).beforeAfter = .noTarget → m.AddOk e
  | _ => True

instance (m : EventManager) (e : Nat) : Decidable (m.AddOk e) :=
  inferInstanceAs (Decidable (m.waiting e = 0 ∧ (m.events e).threadId < m.eventProcessors.length))

instance (m : EventManager) (e : Nat) (cycleTics : Int) : Decidable (m.SetCycleOk e cycleTics) :=
  inferInstanceAs (Decidable (cycleTics = 0 ∨ (m.events e).cycleTics ≠ 0 ∨
    (∀ p ∈ m.eventProcessors, e ∉ p.held) ∧
      (e ∉ m.activeEvents ∨ (m.events e).beforeAfter ≠ .noTarget ∨ m.waiting e = 1)))

instance QueueOk.decidable (m : EventManager) : ∀ call, Decidable (m.QueueOk call)
  | .addEvent e => inferInstanceAs (Decidable (m.AddOk e))
  | .removeEvent e => inferInstanceAs (Decidable (m.RemoveOk e))
  | .setCycle e cycleTics => inferInstanceAs (Decidable (m.SetCycleOk e cycleTics))
  | .setNextTics e _ => inferInstanceAs (Decidable (∀ p ∈ m.eventProcessors, e ∉ p.eventSet))
  | .timeTicChanged oldTt tt => inferInstanceAs (Decidable (0 < oldTt ∧ 0 ≤ tt))
  | .loadCheckpoint _ => inferInstanceAs (Decidable (m.reloading = true ∧
      ∀ p ∈ m.eventProcessors, p.queued = []))
  | .restart _ => inferInstanceAs (Decidable (∀ e ∈ m.activeEvents,
      (m.events e).beforeAfter = .noTarget → m.AddOk e))
  | .addEventBefore .. | .addEventAfter .. | .setActive .. | .setThread .. | .addPendingEvents ..
  | .processEvent .. | .processStep _ | .callInstrument .. | .preloadCheckpoint => isTrue trivial

/-! ## A processor that has been called -/

theorem waiting_modify {i : Nat} {f : EventProcessor → EventProcessor}
    (hp : m.eventProcessors[i]? = some p)
    (hcycle : ∀ a, (events a).cycleTics = (m.events a).cycleTics) (e : Nat) :
    { m with
      events := events
      eventProcessors := m.eventProcessors.modify i f }.waiting e + (p.waiting m.events).count e =
        m.waiting e + ((f p).waiting events).count e := by
  have hsum := sum_modify (f := f) (fun p => (p.waiting events).count e) hp
  rw [EventProcessor.waiting_congr hcycle] at hsum
  unfold waiting
  dsimp only
  rw [hsum]
  simp only [EventProcessor.waiting_congr hcycle]

/-- An event of one processor is in no other one. -/
theorem QueueInv.not_mem {i j : Nat} (h : m.QueueInv) (hij : i ≠ j)
    (hp : m.eventProcessors[i]? = some p) (hq : m.eventProcessors[j]? = some q)
    (he : e ∈ p.waiting m.events) : e ∉ q.waiting m.events := by
  intro he'
  have hle := add_le_sum (fun p => (p.waiting m.events).count e) hij hp hq
  have hone : (m.eventProcessors.map fun p => (p.waiting m.events).count e).sum ≤ 1 := h.once e
  have hpos : 0 < (p.waiting m.events).count e := List.count_pos_iff.mpr he
  have hpos' : 0 < (q.waiting m.events).count e := List.count_pos_iff.mpr he'
  omega

theorem count_le_waiting {i : Nat} (hp : m.eventProcessors[i]? = some p) (e : Nat) :
    (p.waiting m.events).count e ≤ m.waiting e :=
  List.le_sum_of_mem (List.mem_map_of_mem (List.mem_of_getElem? hp))

/-- **A call of one processor**: it writes the tics of its own events only, keeps its set in order and
    drops no cyclic event. -/
theorem QueueInv.setProcessor {i : Nat} (h : m.QueueInv) (hp : m.eventProcessors[i]? = some p)
    (htics : TicsOnly m.events events) (hsame : ∀ a, a ∉ p.waiting m.events → events a = m.events a)
    (hle : ∀ a, (q.waiting events).count a ≤ (p.waiting m.events).count a)
    (hcyclic : ∀ a, (m.events a).cycleTics ≠ 0 →
      (q.waiting events).count a = (p.waiting m.events).count a)
    (hordered : SortedBy (key events) q.eventSet) : (m.setProcessor i events q).QueueInv := by
  have hsum : ∀ e, (m.setProcessor i events q).waiting e + (p.waiting m.events).count e =
      m.waiting e + (q.waiting events).count e := waiting_modify hp htics.cycleTics
  constructor
  · intro e
    have hone := h.once e
    have hsum := hsum e
    have hle := hle e
    omega
  · intro r hr e he
    have he : e ∈ r.waiting events := he
    rcases mem_modify hr with hr | ⟨-, -, rfl⟩
    · rw [EventProcessor.waiting_congr htics.cycleTics] at he
      exact h.active r hr e he
    · have hpos := List.count_pos_iff.mpr he
      exact h.active p (List.mem_of_getElem? hp) e
        (List.count_pos_iff.mp (Nat.lt_of_lt_of_le hpos (hle e)))
  · intro hreloading e he
    obtain ⟨hactive, hplace, hcycle⟩ := he
    have hplace : (events e).beforeAfter = .noTarget := hplace
    have hcycle : (events e).cycleTics ≠ 0 := hcycle
    rw [htics.beforeAfter] at hplace
    rw [htics.cycleTics] at hcycle
    have hone := h.cyclic hreloading e ⟨hactive, hplace, hcycle⟩
    have hsum := hsum e
    have heq := hcyclic e hcycle
    omega
  · intro r hr
    obtain ⟨j, hj⟩ := List.mem_iff_getElem?.mp hr
    have hj : (m.eventProcessors.modify i fun _ => q)[j]? = some r := hj
    by_cases hij : i = j
    · subst hij
      rw [getElem?_modify_self, hp] at hj
      cases hj
      exact hordered
    · rw [getElem?_modify_of_ne hij] at hj
      -- the set of another processor: its keys have not been written
      have hkey : ∀ a ∈ r.eventSet, key events a = key m.events a := by
        intro a ha
        have hmem : a ∈ r.waiting m.events := EventProcessor.mem_waiting.mpr (Or.inr (Or.inl ha))
        have hnot := h.not_mem (Ne.symm hij) hj hp hmem
        exact congrArg Event.nextTics (hsame a hnot)
      apply (h.ordered r (List.mem_of_getElem? hj)).of_le
      intro a ha b hb hab
      rw [show (m.setProcessor i events q).events = events from rfl, hkey a ha, hkey b hb]
      exact hab

theorem QueueInv.addPendingEvents (h : m.QueueInv) (i : Nat) (currTics : Int) (isRestart : Bool) :
    (m.addPendingEvents i currTics isRestart).QueueInv := by
  unfold EventManager.addPendingEvents
  cases hp : m.eventProcessors[i]? with
  | none => exact h
  | some p =>
    have hone : ∀ a, p.pendingEvents.count a + p.eventSet.count a ≤ 1 := by
      intro a
      have hle := count_le_waiting hp a
      have hone := h.once a
      rw [EventProcessor.waiting_count] at hle
      omega
    obtain ⟨hpending, hpc, htics, hcount⟩ :=
      EventProcessor.addPendingEvents_spec currTics isRestart m.events p
    obtain ⟨hordered, hsame, hcyclic⟩ := EventProcessor.addPendingEvents_ordered currTics isRestart
      m.events p (h.ordered p (List.mem_of_getElem? hp)) hone
    have hheld : (p.addPendingEvents currTics isRestart m.events).2.held = p.held := by
      unfold EventProcessor.held
      rw [hpc]
    dsimp only
    apply h.setProcessor hp htics
    · intro a ha
      apply hsame
      intro hmem
      exact ha (EventProcessor.mem_waiting.mpr (Or.inl hmem))
    · intro a
      rw [EventProcessor.waiting_congr htics.cycleTics, EventProcessor.waiting_count,
        EventProcessor.waiting_count, hpending, hheld, List.count_nil]
      have hcount := hcount a
      omega
    · intro a ha
      rw [EventProcessor.waiting_congr htics.cycleTics, EventProcessor.waiting_count,
        EventProcessor.waiting_count, hpending, hheld, List.count_nil, hcyclic a ha]
      omega
    · exact hordered

theorem QueueInv.processStep (h : m.QueueInv) (i : Nat) : (m.processStep i).QueueInv := by
  unfold EventManager.processStep
  cases hp : m.eventProcessors[i]? with
  | none => exact h
  | some p =>
    have hone : ∀ a, (p.waiting m.events).count a ≤ 1 :=
      fun a => Nat.le_trans (count_le_waiting hp a) (h.once a)
    obtain ⟨hordered, hsame, hle, hcyclic⟩ :=
      EventProcessor.processStep_ordered m.events p (h.ordered p (List.mem_of_getElem? hp)) hone
    have htics : TicsOnly m.events (p.processStep m.events).1 := processStep_ticsOnly m.events p
    have hnext : (m.setProcessor i (p.processStep m.events).1 (p.processStep m.events).2.1).QueueInv := by
      apply h.setProcessor hp htics hsame
      · intro a
        rw [EventProcessor.waiting_congr htics.cycleTics]
        exact hle a
      · intro a ha
        rw [EventProcessor.waiting_congr htics.cycleTics]
        exact hcyclic a ha
      · exact hordered
    exact ⟨hnext.once, hnext.active, hnext.cyclic, hnext.ordered⟩

/-! ## Adding an event -/

@[simp] theorem addToActiveEvents_waiting (m : EventManager) (a e : Nat) :
    (m.addToActiveEvents a).waiting e = m.waiting e := by
  unfold addToActiveEvents
  split <;> rfl

@[simp] theorem addToActiveEvents_reloading (m : EventManager) (a : Nat) :
    (m.addToActiveEvents a).reloading = m.reloading := by
  unfold addToActiveEvents
  split <;> rfl

theorem addEvent_waiting (hthread : (m.events e).threadId < m.eventProcessors.length) (a : Nat) :
    (m.addEvent e).waiting a = m.waiting a + if e = a then 1 else 0 := by
  obtain ⟨p, hp⟩ : ∃ p, m.eventProcessors[(m.events e).threadId]? = some p :=
    ⟨_, List.getElem?_eq_getElem hthread⟩
  rw [← addToActiveEvents_eventProcessors m e, ← addToActiveEvents_events m e] at hp
  have hsum : (m.addEvent e).waiting a + (p.waiting (m.addToActiveEvents e).events).count a =
      (m.addToActiveEvents e).waiting a + ((p.addEvent e).waiting (m.addToActiveEvents e).events).count a :=
    waiting_modify hp (fun _ => rfl) a
  have hone : ((p.addEvent e).waiting (m.addToActiveEvents e).events).count a =
      (p.waiting (m.addToActiveEvents e).events).count a + if e = a then 1 else 0 := by
    rw [EventProcessor.waiting_count, EventProcessor.waiting_count]
    show (p.pendingEvents ++ [e]).count a + _ + _ = _
    rw [List.count_append, List.count_singleton]
    simp only [beq_iff_eq]
    show _ + p.eventSet.count a + (p.held.filter _).count a = _
    omega
  rw [addToActiveEvents_waiting] at hsum
  omega

/-- `add_event` of an event that is nowhere. -/
theorem QueueInv.addEvent (h : m.QueueInv) (hok : m.AddOk e) : (m.addEvent e).QueueInv := by
  obtain ⟨hzero, hthread⟩ := hok
  have hmem : ∀ p ∈ (m.addEvent e).eventProcessors,
      ∃ q ∈ m.eventProcessors, p = q ∨ p = q.addEvent e := by
    intro p hp
    have hp : p ∈ (m.addToActiveEvents e).eventProcessors.modify
        ((m.addToActiveEvents e).events e).threadId (·.addEvent e) := hp
    rw [addToActiveEvents_eventProcessors] at hp
    rcases mem_modify hp with hp | ⟨q, hq, rfl⟩
    · exact ⟨p, hp, Or.inl rfl⟩
    · exact ⟨q, List.mem_of_getElem? hq, Or.inr rfl⟩
  have hevents : (m.addEvent e).events = m.events := addToActiveEvents_events m e
  constructor
  · intro a
    rw [addEvent_waiting hthread]
    split
    · rename_i hea
      rw [← hea, hzero]
    · exact h.once a
  · intro p hp a ha
    rw [hevents] at ha
    apply mem_addToActiveEvents.mpr
    obtain ⟨q, hq, rfl | rfl⟩ := hmem p hp
    · exact Or.inl (h.active p hq a ha)
    · by_cases hae : a = e
      · exact Or.inr hae
      · have hnot : a ∈ q.waiting m.events := by
          by_contra hnot
          exact EventProcessor.addEvent_waiting hnot hae ha
        exact Or.inl (h.active q hq a hnot)
  · intro hreloading a ha
    have hreloading : (m.addToActiveEvents e).reloading = false := hreloading
    rw [addToActiveEvents_reloading] at hreloading
    rw [addEvent_waiting hthread]
    obtain ⟨hactive, hplace, hcycle⟩ := ha
    rw [hevents] at hplace hcycle
    by_cases hea : e = a
    · rw [if_pos hea, ← hea, hzero]
    · rw [if_neg hea]
      rcases mem_addToActiveEvents.mp hactive with hactive | rfl
      · exact h.cyclic hreloading a ⟨hactive, hplace, hcycle⟩
      · exact absurd rfl hea
  · intro p hp
    rw [hevents]
    obtain ⟨q, hq, rfl | rfl⟩ := hmem p hp
    · exact h.ordered p hq
    · exact h.ordered q hq

/-- Fields other than the cycles are written, and no event loses its target. -/
theorem QueueInv.setEvents (h : m.QueueInv)
    (hcycle : ∀ a, (events a).cycleTics = (m.events a).cycleTics)
    (hplace : ∀ a, (events a).beforeAfter = .noTarget → (m.events a).beforeAfter = .noTarget)
    (hordered : ∀ p ∈ m.eventProcessors, SortedBy (key events) p.eventSet) :
    { m with events := events }.QueueInv := by
  have hwaiting : ∀ p : EventProcessor, p.waiting events = p.waiting m.events :=
    fun p => EventProcessor.waiting_congr hcycle
  have hsum : ∀ a, { m with events := events }.waiting a = m.waiting a := by
    intro a
    unfold waiting
    simp only [hwaiting]
  constructor
  · intro a
    rw [hsum]
    exact h.once a
  · intro p hp a ha
    have ha : a ∈ p.waiting events := ha
    rw [hwaiting] at ha
    exact h.active p hp a ha
  · intro hreloading a ha
    rw [hsum]
    have hne : (events a).cycleTics ≠ 0 := ha.2.2
    rw [hcycle] at hne
    exact h.cyclic hreloading a ⟨ha.1, hplace a ha.2.1, hne⟩
  · exact hordered

/-- An instrument of an event: the event has a target. -/
theorem QueueInv.addInstrument (h : m.QueueInv) (place : EventBeforeAfter) (hplace : place ≠ .noTarget)
    (e job : Nat) : ((m.addInstrument e place job).addToActiveEvents e).QueueInv := by
  have hself : (setEvent m.events e { m.events e with
      beforeAfter := place
      target := job } e).beforeAfter = place := by
    unfold setEvent
    rw [Function.update_self]
  have hne : ∀ a, a ≠ e → setEvent m.events e { m.events e with
      beforeAfter := place
      target := job } a = m.events a := fun a ha => Function.update_of_ne ha _ _
  have hevents : { m with events := setEvent m.events e { m.events e with
      beforeAfter := place
      target := job } }.QueueInv := by
    apply h.setEvents
    · exact fun a => setEvent_cycleTics _ _ _ rfl
    · intro a ha
      by_cases hae : a = e
      · subst hae
        rw [hself] at ha
        exact absurd ha hplace
      · rw [hne a hae] at ha
        exact ha
    · intro p hp
      apply (h.ordered p hp).of_le
      have hkey : ∀ a, key (setEvent m.events e { m.events e with
          beforeAfter := place
          target := job }) a = key m.events a := by
        intro a
        by_cases hae : a = e
        · subst hae
          unfold key setEvent
          rw [Function.update_self]
        · exact congrArg Event.nextTics (hne a hae)
      intro a _ b _ hab
      rw [hkey, hkey]
      exact hab
  have hinv : (m.addInstrument e place job).QueueInv :=
    ⟨hevents.once, hevents.active, hevents.cyclic, hevents.ordered⟩
  constructor
  · intro a
    rw [addToActiveEvents_waiting]
    exact hinv.once a
  · intro p hp a ha
    rw [addToActiveEvents_eventProcessors] at hp
    rw [addToActiveEvents_events] at ha
    exact mem_addToActiveEvents.mpr (Or.inl (hinv.active p hp a ha))
  · intro hreloading a ha
    rw [addToActiveEvents_reloading] at hreloading
    rw [addToActiveEvents_waiting]
    obtain ⟨hactive, hnoTarget, hcycle⟩ := ha
    rw [addToActiveEvents_events] at hnoTarget hcycle
    rcases mem_addToActiveEvents.mp hactive with hactive | rfl
    · exact hinv.cyclic hreloading a ⟨hactive, hnoTarget, hcycle⟩
    · have hnoTarget : (setEvent m.events a { m.events a with
          beforeAfter := place
          target := job } a).beforeAfter = .noTarget := hnoTarget
      rw [hself] at hnoTarget
      exact absurd hnoTarget hplace
  · intro p hp
    rw [addToActiveEvents_eventProcessors] at hp
    rw [addToActiveEvents_events]
    exact hinv.ordered p hp

theorem QueueInv.addEventBefore (h : m.QueueInv) (e job : Nat) (found : Bool) :
    (m.addEventBefore e job found).QueueInv := by
  unfold EventManager.addEventBefore
  split
  · exact h.addInstrument .beforeTarget (by decide) e job
  · exact h

theorem QueueInv.addEventAfter (h : m.QueueInv) (e job : Nat) (found : Bool) :
    (m.addEventAfter e job found).QueueInv := by
  unfold EventManager.addEventAfter
  split
  · exact h.addInstrument .afterTarget (by decide) e job
  · exact h

/-! ## Removing an event -/

/-- The other events stay where they are. -/
theorem removeEvent_waiting_of_ne {a : Nat} (hae : a ≠ e) : (m.removeEvent e).waiting a = m.waiting a := by
  unfold removeEvent
  dsimp only
  split
  · cases hp : m.eventProcessors[(m.events e).threadId]? with
    | none =>
      rw [modify_eq_self hp]
      rfl
    | some p =>
      have hsum := sum_modify (f := fun p => EventProcessor.removeEvent m.events p e)
        (fun p => (p.waiting m.events).count a) hp
      have hone : ((EventProcessor.removeEvent m.events p e).waiting m.events).count a =
          (p.waiting m.events).count a := by
        have herase : (p.eventSet.erase e).count a = p.eventSet.count a := List.count_erase_of_ne hae
        rw [EventProcessor.waiting_count, EventProcessor.waiting_count]
        show p.pendingEvents.count a + (p.eventSet.erase e).count a + _ = _
        rw [herase]
        rfl
      rw [hone] at hsum
      exact Nat.add_right_cancel hsum
  · rfl

theorem removeEvent_events (m : EventManager) (e : Nat) : (m.removeEvent e).events = m.events := by
  unfold removeEvent
  dsimp only
  split <;> rfl

theorem removeEvent_reloading (m : EventManager) (e : Nat) : (m.removeEvent e).reloading = m.reloading := by
  unfold removeEvent
  dsimp only
  split <;> rfl

theorem removeEvent_activeEvents (m : EventManager) (e : Nat) :
    (m.removeEvent e).activeEvents = m.activeEvents.erase e := by
  unfold removeEvent
  dsimp only
  split <;> rfl

/-- A processor after the removal. -/
theorem mem_removeEvent (h : p ∈ (m.removeEvent e).eventProcessors) :
    p ∈ m.eventProcessors ∨ ∃ q ∈ m.eventProcessors, p = EventProcessor.removeEvent m.events q e := by
  unfold removeEvent at h
  dsimp only at h
  split at h
  · rcases mem_modify h with hp | ⟨q, hq, rfl⟩
    · exact Or.inl hp
    · exact Or.inr ⟨q, List.mem_of_getElem? hq, rfl⟩
  · exact Or.inl h

theorem QueueInv.removeEvent (h : m.QueueInv) (hknown : m.Known) (hok : m.RemoveOk e) :
    (m.removeEvent e).QueueInv := by
  have habsent : (m.removeEvent e).Absent e := absent_of_removeOk hknown hok
  have hzero : (m.removeEvent e).waiting e = 0 := waiting_eq_zero.mpr habsent.1
  constructor
  · intro a
    by_cases hae : a = e
    · subst hae
      rw [hzero]
      exact Nat.zero_le 1
    · rw [removeEvent_waiting_of_ne hae]
      exact h.once a
  · intro p hp a ha
    have hae : a ≠ e := by
      rintro rfl
      exact habsent.1 p hp ha
    rw [removeEvent_events] at ha
    rw [removeEvent_activeEvents, List.mem_erase_of_ne hae]
    rcases mem_removeEvent hp with hp | ⟨q, hq, rfl⟩
    · exact h.active p hp a ha
    · by_contra hnot
      exact EventProcessor.removeEvent_waiting (fun ha' => hnot (h.active q hq a ha')) ha
  · intro hreloading a ha
    rw [removeEvent_reloading] at hreloading
    obtain ⟨hactive, hplace, hcycle⟩ := ha
    rw [removeEvent_events] at hplace hcycle
    have hae : a ≠ e := by
      rintro rfl
      exact habsent.2.2 hactive
    rw [removeEvent_activeEvents, List.mem_erase_of_ne hae] at hactive
    rw [removeEvent_waiting_of_ne hae]
    exact h.cyclic hreloading a ⟨hactive, hplace, hcycle⟩
  · intro p hp
    rw [removeEvent_events]
    rcases mem_removeEvent hp with hp | ⟨q, hq, rfl⟩
    · exact h.ordered p hp
    · exact List.Pairwise.sublist List.erase_sublist (h.ordered q hq)

/-! ## A checkpoint -/

theorem QueueInv.preloadCheckpoint (h : m.QueueInv) : m.preloadCheckpoint.QueueInv := by
  have hle : ∀ (p : EventProcessor) (a : Nat),
      (p.preloadCheckpoint.waiting m.events).count a ≤ (p.waiting m.events).count a := by
    intro p a
    rw [EventProcessor.waiting_count, EventProcessor.waiting_count]
    show p.pendingEvents.count a + ([] : List Nat).count a + (p.held.filter _).count a ≤ _
    rw [List.count_nil]
    omega
  constructor
  · intro a
    refine Nat.le_trans ?_ (h.once a)
    show ((m.eventProcessors.map EventProcessor.preloadCheckpoint).map
      fun p => (p.waiting m.events).count a).sum ≤ _
    rw [List.map_map]
    exact List.sum_le_sum fun p _ => hle p a
  · intro p hp a ha
    obtain ⟨q, hq, rfl⟩ := List.mem_map.mp hp
    have hpos : 0 < (q.preloadCheckpoint.waiting m.events).count a := List.count_pos_iff.mpr ha
    exact h.active q hq a (List.count_pos_iff.mp (Nat.lt_of_lt_of_le hpos (hle q a)))
  · intro hreloading
    cases hreloading
  · intro p hp
    obtain ⟨q, hq, rfl⟩ := List.mem_map.mp hp
    exact List.Pairwise.nil

theorem QueueInv.loadCheckpoint (hreloading : m.reloading = true)
    (hempty : ∀ p ∈ m.eventProcessors, p.queued = []) (c : Checkpoint) : (m.loadCheckpoint c).QueueInv := by
  have hnone : ∀ p ∈ (m.loadCheckpoint c).eventProcessors,
      p.eventSet = [] ∧ ∀ a, a ∉ p.waiting (m.loadCheckpoint c).events := by
    intro p hp
    have hqueued := hempty p hp
    unfold EventProcessor.queued at hqueued
    obtain ⟨hboth, hheld⟩ := List.append_eq_nil_iff.mp hqueued
    obtain ⟨hpending, hset⟩ := List.append_eq_nil_iff.mp hboth
    refine ⟨hset, ?_⟩
    intro a
    rw [EventProcessor.mem_waiting, hpending, hset, hheld]
    rintro (ha | ha | ⟨ha, -⟩) <;> cases ha
  constructor
  · intro a
    rw [waiting_eq_zero.mpr fun p hp => (hnone p hp).2 a]
    exact Nat.zero_le 1
  · intro p hp a ha
    exact absurd ha ((hnone p hp).2 a)
  · intro hreloading'
    have hreloading' : m.reloading = false := hreloading'
    rw [hreloading] at hreloading'
    cases hreloading'
  · intro p hp
    rw [(hnone p hp).1]
    exact List.Pairwise.nil

/-- The active events `l` have been added again: those without a target are queued. -/
structure Restarted (l : List Nat) (m m' : EventManager) : Prop where
  activeEvents : m'.activeEvents = m.activeEvents
  length : m'.eventProcessors.length = m.eventProcessors.length
  beforeAfter : ∀ a, (m'.events a).beforeAfter = (m.events a).beforeAfter
  threadId : ∀ a, (m'.events a).threadId = (m.events a).threadId
  waiting : ∀ a, m'.waiting a =
    m.waiting a + if a ∈ l ∧ (m.events a).beforeAfter = .noTarget then 1 else 0

theorem addToActiveEvents_eq_self (he : e ∈ m.activeEvents) : m.addToActiveEvents e = m := by
  unfold addToActiveEvents
  rw [if_pos he]

/-- An instrument is added where the event has its target. -/
theorem restarted_addInstrument {place : EventBeforeAfter} (he : e ∈ m.activeEvents)
    (hplace : (m.events e).beforeAfter = place) (hne : place ≠ .noTarget) (found : Bool) :
    Restarted [e] m
      (if found then (m.addInstrument e place (m.events e).target).addToActiveEvents e else m) := by
  have hzero : ∀ a, ¬ (a ∈ [e] ∧ (m.events a).beforeAfter = .noTarget) := by
    rintro a ⟨ha, hnoTarget⟩
    rw [List.mem_singleton.mp ha, hplace] at hnoTarget
    exact hne hnoTarget
  cases found with
  | false =>
    refine ⟨rfl, rfl, fun _ => rfl, fun _ => rfl, ?_⟩
    intro a
    rw [if_neg (hzero a)]
    rfl
  | true =>
    have hactive : e ∈ (m.addInstrument e place (m.events e).target).activeEvents := he
    have hevents : (m.addInstrument e place (m.events e).target).events = m.events := by
      apply Function.update_eq_self_iff.mpr
      rw [← hplace]
    rw [if_pos rfl, addToActiveEvents_eq_self hactive]
    refine ⟨rfl, rfl, ?_, ?_, ?_⟩
    · intro a
      rw [hevents]
    · intro a
      rw [hevents]
    · intro a
      rw [if_neg (hzero a)]
      unfold waiting
      rw [hevents]
      rfl

/-- One event is added again. -/
theorem restartEvent_queueInv (jobExists : Nat → Bool) (h : m.QueueInv) (he : e ∈ m.activeEvents)
    (hok : (m.events e).beforeAfter = .noTarget → m.AddOk e) :
    (restartEvent jobExists m e).QueueInv ∧ Restarted [e] m (restartEvent jobExists m e) := by
  unfold restartEvent
  cases hplace : (m.events e).beforeAfter with
  | beforeTarget =>
    exact ⟨h.addEventBefore .., restarted_addInstrument he hplace (by decide) _⟩
  | afterTarget =>
    exact ⟨h.addEventAfter .., restarted_addInstrument he hplace (by decide) _⟩
  | noTarget =>
    refine ⟨h.addEvent (hok hplace), ?_⟩
    have hevents : (m.addEvent e).events = m.events := addToActiveEvents_events m e
    refine ⟨?_, ?_, ?_, ?_, ?_⟩
    · show (m.addToActiveEvents e).activeEvents = _
      rw [addToActiveEvents_eq_self he]
    · show ((m.addToActiveEvents e).eventProcessors.modify _ _).length = _
      rw [List.length_modify, addToActiveEvents_eventProcessors]
    · intro a
      rw [hevents]
    · intro a
      rw [hevents]
    · intro a
      rw [addEvent_waiting (hok hplace).2]
      by_cases hea : e = a
      · subst hea
        rw [if_pos rfl, if_pos ⟨List.mem_singleton.mpr rfl, hplace⟩]
      · rw [if_neg hea, if_neg]
        exact fun ha => hea (List.mem_singleton.mp ha.1).symm

/-- All events of a list are added again, by induction on it: each was nowhere when its turn came. -/
theorem foldl_restartEvent (jobExists : Nat → Bool) (l : List Nat) :
    ∀ m : EventManager, l.Nodup → m.QueueInv → (∀ e ∈ l, e ∈ m.activeEvents) →
      (∀ e ∈ l, (m.events e).beforeAfter = .noTarget → m.AddOk e) →
      (l.foldl (restartEvent jobExists) m).QueueInv ∧
        Restarted l m (l.foldl (restartEvent jobExists) m) := by
  induction l with
  | nil =>
    intro m _ h _ _
    refine ⟨h, rfl, rfl, fun _ => rfl, fun _ => rfl, ?_⟩
    intro a
    rw [if_neg fun ha => List.not_mem_nil ha.1]
    rfl
  | cons e l ih =>
    intro m hnodup h hactive hok
    obtain ⟨he, hnodup⟩ := List.nodup_cons.mp hnodup
    obtain ⟨hone, hframe⟩ := restartEvent_queueInv jobExists h (hactive e List.mem_cons_self)
      (hok e List.mem_cons_self)
    have hwaiting : ∀ a ∈ l, (restartEvent jobExists m e).waiting a = m.waiting a := by
      intro a ha
      rw [hframe.waiting, if_neg]
      · rfl
      · rintro ⟨hae, -⟩
        rw [List.mem_singleton.mp hae] at ha
        exact he ha
    obtain ⟨ihinv, ihframe⟩ := ih (restartEvent jobExists m e) hnodup hone
      (by
        intro a ha
        rw [hframe.activeEvents]
        exact hactive a (List.mem_cons_of_mem e ha))
      (by
        intro a ha hplace
        rw [hframe.beforeAfter] at hplace
        have hok := hok a (List.mem_cons_of_mem e ha) hplace
        unfold AddOk at hok ⊢
        rw [hwaiting a ha, hframe.threadId, hframe.length]
        exact hok)
    rw [List.foldl_cons]
    refine ⟨ihinv, ihframe.activeEvents.trans hframe.activeEvents, ihframe.length.trans hframe.length,
      ?_, ?_, ?_⟩
    · intro a
      rw [ihframe.beforeAfter, hframe.beforeAfter]
    · intro a
      rw [ihframe.threadId, hframe.threadId]
    · intro a
      rw [ihframe.waiting, hframe.waiting, hframe.beforeAfter]
      by_cases hplace : (m.events a).beforeAfter = .noTarget
      · simp only [hplace, and_true, List.mem_cons, List.not_mem_nil, or_false]
        by_cases hae : a = e
        · subst hae
          rw [if_pos rfl, if_neg he, if_pos (Or.inl rfl)]
        · simp only [hae, if_false, false_or, Nat.add_zero]
      · simp only [hplace, and_false, if_false, Nat.add_zero]

/-- **`restart`**: every active event without a target is in its place again. -/
theorem QueueInv.restart (h : m.QueueInv) (hnodup : m.activeEvents.Nodup)
    (hok : ∀ e ∈ m.activeEvents, (m.events e).beforeAfter = .noTarget → m.AddOk e)
    (jobExists : Nat → Bool) : (m.restart jobExists).QueueInv := by
  obtain ⟨hinv, hframe⟩ := foldl_restartEvent jobExists m.activeEvents m hnodup h (fun _ he => he) hok
  refine ⟨hinv.once, hinv.active, ?_, hinv.ordered⟩
  rintro - a ⟨hactive, hplace, -⟩
  have hactive : a ∈ (m.activeEvents.foldl (restartEvent jobExists) m).activeEvents := hactive
  have hplace : ((m.activeEvents.foldl (restartEvent jobExists) m).events a).beforeAfter = .noTarget :=
    hplace
  rw [hframe.activeEvents] at hactive
  rw [hframe.beforeAfter] at hplace
  show (m.activeEvents.foldl (restartEvent jobExists) m).waiting a = 1
  rw [hframe.waiting, if_pos ⟨hactive, hplace⟩, (hok a hactive hplace).1]

/-! ## Fields that are written -/

/-- A write that leaves all keys alone, and the cycles and the targets. -/
theorem QueueInv.setField (h : m.QueueInv) (e : Nat) {ev : Event}
    (hcycle : ev.cycleTics = (m.events e).cycleTics) (hplace : ev.beforeAfter = (m.events e).beforeAfter)
    (hnext : ev.nextTics = (m.events e).nextTics) :
    { m with events := setEvent m.events e ev }.QueueInv := by
  apply h.setEvents
  · exact fun a => setEvent_cycleTics _ _ _ hcycle
  · intro a ha
    unfold setEvent at ha
    by_cases hae : a = e
    · subst hae
      rw [Function.update_self, hplace] at ha
      exact ha
    · rw [Function.update_of_ne hae] at ha
      exact ha
  · intro p hp
    have hkey : ∀ a, key (setEvent m.events e ev) a = key m.events a := by
      intro a
      unfold key setEvent
      by_cases hae : a = e
      · subst hae
        rw [Function.update_self, hnext]
      · rw [Function.update_of_ne hae]
    apply (h.ordered p hp).of_le
    intro a _ b _ hab
    rw [hkey, hkey]
    exact hab

theorem QueueInv.setNextTics (h : m.QueueInv) (hok : ∀ p ∈ m.eventProcessors, e ∉ p.eventSet) (t : Int) :
    (m.step (.setNextTics e t)).QueueInv := by
  have htics := ticsOnly_setEvent m.events e t
  apply h.setEvents htics.cycleTics
  · intro a ha
    rw [htics.beforeAfter] at ha
    exact ha
  · intro p hp
    apply ordered_of_not_mem (h.ordered p hp)
    intro a ha
    apply Function.update_of_ne
    rintro rfl
    exact hok p hp ha

/-- What the cycle of an event does to the processors: with no cycle it is not put back, and with one it is
    where it was. -/
theorem setCycle_waiting {cycleTics : Int} (hok : m.SetCycleOk e cycleTics) (hp : p ∈ m.eventProcessors)
    (a : Nat) :
    (p.waiting (setEvent m.events e { m.events e with cycleTics := cycleTics })).count a ≤
        (p.waiting m.events).count a ∧
      (cycleTics ≠ 0 ∨ a ≠ e →
        (p.waiting (setEvent m.events e { m.events e with cycleTics := cycleTics })).count a =
          (p.waiting m.events).count a) := by
  have hself : (setEvent m.events e { m.events e with cycleTics := cycleTics } e).cycleTics = cycleTics := by
    unfold setEvent
    rw [Function.update_self]
  have hne : ∀ b, b ≠ e →
      (setEvent m.events e { m.events e with cycleTics := cycleTics } b) = m.events b :=
    fun b hb => Function.update_of_ne hb _ _
  -- the processor holds one event at most
  rw [EventProcessor.waiting_count, EventProcessor.waiting_count]
  cases hpc : p.pc with
  | idle | looping =>
    have hheld : p.held = [] := by
      unfold EventProcessor.held
      rw [hpc]
    rw [hheld]
    exact ⟨Nat.le_refl _, fun _ => rfl⟩
  | processing currTics b =>
    rw [← EventProcessor.waiting_count, ← EventProcessor.waiting_count,
      EventProcessor.waiting_count_of_processing hpc, EventProcessor.waiting_count_of_processing hpc]
    have hheld : b ∈ p.held := by
      unfold EventProcessor.held
      rw [hpc]
      exact List.mem_singleton.mpr rfl
    by_cases hbe : b = e
    · subst hbe
      rw [hself]
      rcases hok with hzero | hcycle | ⟨hnone, -⟩
      · refine ⟨?_, ?_⟩
        · rw [if_neg fun h => h.2 hzero]
          exact Nat.le_add_right _ _
        · intro ha
          have hab : ¬ b = a := fun hab => ha.elim (fun h => h hzero) (fun h => h hab.symm)
          rw [if_neg fun h => hab h.1, if_neg fun h => hab h.1]
      · by_cases hzero : cycleTics = 0
        · refine ⟨?_, ?_⟩
          · rw [if_neg fun h => h.2 hzero]
            exact Nat.le_add_right _ _
          · intro ha
            have hab : ¬ b = a := fun hab => ha.elim (fun h => h hzero) (fun h => h hab.symm)
            rw [if_neg fun h => hab h.1, if_neg fun h => hab h.1]
        · simp only [ne_eq, hzero, hcycle, not_false_eq_true, and_true, Nat.le_refl, implies_true,
            and_self]
      · exact absurd hheld (hnone p hp)
    · rw [hne b hbe]
      exact ⟨Nat.le_refl _, fun _ => rfl⟩

theorem QueueInv.setCycle {cycleTics : Int} (h : m.QueueInv) (hok : m.SetCycleOk e cycleTics) :
    (m.step (.setCycle e cycleTics)).QueueInv := by
  have hle : ∀ a, (m.step (.setCycle e cycleTics)).waiting a ≤ m.waiting a :=
    fun a => List.sum_le_sum fun p hp => (setCycle_waiting hok hp a).1
  have heq : ∀ a, cycleTics ≠ 0 ∨ a ≠ e → (m.step (.setCycle e cycleTics)).waiting a = m.waiting a := by
    intro a ha
    unfold waiting
    apply congrArg
    apply List.map_congr_left
    exact fun p hp => (setCycle_waiting hok hp a).2 ha
  have hself : ((m.step (.setCycle e cycleTics)).events e).cycleTics = cycleTics := by
    show (setEvent m.events e _ e).cycleTics = _
    unfold setEvent
    rw [Function.update_self]
  have hplace : ∀ a, ((m.step (.setCycle e cycleTics)).events a).beforeAfter =
      (m.events a).beforeAfter := by
    intro a
    show (setEvent m.events e _ a).beforeAfter = _
    unfold setEvent
    by_cases hae : a = e
    · subst hae
      rw [Function.update_self]
    · rw [Function.update_of_ne hae]
  have hne : ∀ a, a ≠ e → (m.step (.setCycle e cycleTics)).events a = m.events a :=
    fun a ha => Function.update_of_ne ha _ _
  constructor
  · exact fun a => Nat.le_trans (hle a) (h.once a)
  · intro p hp a ha
    have hpos : 0 < (p.waiting (m.step (.setCycle e cycleTics)).events).count a :=
      List.count_pos_iff.mpr ha
    exact h.active p hp a
      (List.count_pos_iff.mp (Nat.lt_of_lt_of_le hpos (setCycle_waiting hok hp a).1))
  · intro hreloading a ha
    obtain ⟨hactive, hnoTarget, hcycle⟩ := ha
    rw [hplace] at hnoTarget
    by_cases hae : a = e
    · subst hae
      rw [hself] at hcycle
      rw [heq a (Or.inl hcycle)]
      rcases hok with hzero | hold | ⟨-, hnot | htarget | hone⟩
      · exact absurd hzero hcycle
      · exact h.cyclic hreloading a ⟨hactive, hnoTarget, hold⟩
      · exact absurd hactive hnot
      · exact absurd hnoTarget htarget
      · exact hone
    · rw [heq a (Or.inr hae)]
      rw [hne a hae] at hcycle
      exact h.cyclic hreloading a ⟨hactive, hnoTarget, hcycle⟩
  · intro p hp
    apply (h.ordered p hp).of_le
    have hkey : ∀ a, key (m.step (.setCycle e cycleTics)).events a = key m.events a := by
      intro a
      by_cases hae : a = e
      · subst hae
        show (setEvent m.events a _ a).nextTics = _
        unfold setEvent
        rw [Function.update_self]
        rfl
      · exact congrArg Event.nextTics (hne a hae)
    intro a _ b _ hab
    rw [hkey, hkey]
    exact hab

/-- The tics of an active event after `time_tic_changed`. -/
theorem timeTicChanged_nextTics (hnodup : m.activeEvents.Nodup) (he : e ∈ m.activeEvents) (oldTt tt : Int) :
    ((m.timeTicChanged oldTt tt).events e).nextTics = (m.events e).nextTics.tdiv oldTt * tt := by
  have hfold : ∀ (l : List Nat) (events : EventStore), l.Nodup →
      (l.foldl (fun events e => setEvent events e { events e with
        nextTics := (events e).nextTics.tdiv oldTt * tt }) events e).nextTics =
        if e ∈ l then (events e).nextTics.tdiv oldTt * tt else (events e).nextTics := by
    intro l
    induction l with
    | nil =>
      intro events _
      rw [if_neg List.not_mem_nil]
      rfl
    | cons a l ih =>
      intro events hnodup
      obtain ⟨ha, hnodup⟩ := List.nodup_cons.mp hnodup
      rw [List.foldl_cons, ih _ hnodup]
      unfold setEvent
      by_cases hea : e = a
      · subst hea
        rw [if_neg ha, if_pos List.mem_cons_self, Function.update_self]
      · rw [Function.update_of_ne hea]
        simp only [List.mem_cons, hea, false_or]
  have hfold := hfold m.activeEvents m.events hnodup
  rw [if_pos he] at hfold
  exact hfold

/-- **`time_tic_changed`**: the quotients are in the order of the tics. -/
theorem QueueInv.timeTicChanged {oldTt tt : Int} (h : m.QueueInv) (hnodup : m.activeEvents.Nodup)
    (hold : 0 < oldTt) (htt : 0 ≤ tt) : (m.timeTicChanged oldTt tt).QueueInv := by
  have htics := timeTicChanged_ticsOnly m oldTt tt
  apply h.setEvents htics.cycleTics
  · intro a ha
    have ha : ((m.timeTicChanged oldTt tt).events a).beforeAfter = .noTarget := ha
    rw [htics.beforeAfter] at ha
    exact ha
  · intro p hp
    apply (h.ordered p hp).of_le
    intro a ha b hb hab
    have hmem : ∀ c ∈ p.eventSet, c ∈ m.activeEvents :=
      fun c hc => h.active p hp c (EventProcessor.mem_waiting.mpr (Or.inr (Or.inl hc)))
    show ((m.timeTicChanged oldTt tt).events a).nextTics ≤ ((m.timeTicChanged oldTt tt).events b).nextTics
    rw [timeTicChanged_nextTics hnodup (hmem a ha), timeTicChanged_nextTics hnodup (hmem b hb)]
    exact Int.mul_le_mul_of_nonneg_right (Int.tdiv_le_tdiv hold hab) htt

theorem QueueInv.processEvent (h : m.QueueInv) (i : Nat) (currTics : Int) :
    (m.step (.processEvent i currTics)).QueueInv := by
  have hcalled : ∀ p : EventProcessor, (p.processEvent currTics).eventSet = p.eventSet ∧
      (p.processEvent currTics).waiting m.events = p.waiting m.events := by
    intro p
    unfold EventProcessor.processEvent
    cases hpc : p.pc with
    | looping | processing => exact ⟨rfl, rfl⟩
    | idle =>
      have hheld : p.held = [] := by
        unfold EventProcessor.held
        rw [hpc]
      refine ⟨rfl, ?_⟩
      unfold EventProcessor.waiting
      rw [hheld]
      rfl
  have hmem : ∀ p ∈ m.eventProcessors.modify i (·.processEvent currTics), ∃ q ∈ m.eventProcessors,
      p.eventSet = q.eventSet ∧ p.waiting m.events = q.waiting m.events := by
    intro p hp
    rcases mem_modify hp with hp | ⟨q, hq, rfl⟩
    · exact ⟨p, hp, rfl, rfl⟩
    · exact ⟨q, List.mem_of_getElem? hq, hcalled q⟩
  have hwaiting : ∀ a, (m.step (.processEvent i currTics)).waiting a = m.waiting a := by
    intro a
    cases hp : m.eventProcessors[i]? with
    | none =>
      show (((m.eventProcessors.modify i (·.processEvent currTics))).map
        fun p => (p.waiting m.events).count a).sum = _
      rw [modify_eq_self hp]
      rfl
    | some p =>
      have hsum : (m.step (.processEvent i currTics)).waiting a + (p.waiting m.events).count a =
          m.waiting a + ((p.processEvent currTics).waiting m.events).count a :=
        waiting_modify hp (fun _ => rfl) a
      rw [(hcalled p).2] at hsum
      exact Nat.add_right_cancel hsum
  constructor
  · intro a
    rw [hwaiting]
    exact h.once a
  · intro p hp a ha
    obtain ⟨q, hq, -, heq⟩ := hmem p hp
    have ha : a ∈ p.waiting m.events := ha
    rw [heq] at ha
    exact h.active q hq a ha
  · intro hreloading a ha
    rw [hwaiting]
    exact h.cyclic hreloading a ha
  · intro p hp
    obtain ⟨q, hq, heq, -⟩ := hmem p hp
    rw [heq]
    exact h.ordered q hq

/-! ## All runs -/

/-- **Every call keeps the queues.** -/
theorem QueueInv.step {call : Call} (h : m.QueueInv) (hknown : m.Known) (hok : m.QueueOk call) :
    (m.step call).QueueInv := by
  cases call with
  | addEvent e => exact h.addEvent hok
  | addEventBefore e job found => exact h.addEventBefore e job found
  | addEventAfter e job found => exact h.addEventAfter e job found
  | removeEvent e => exact h.removeEvent hknown hok
  | setActive e active => exact h.setField e rfl rfl rfl
  | setCycle e cycleTics => exact h.setCycle hok
  | setNextTics e t => exact h.setNextTics hok t
  | setThread e threadId => exact h.setField e rfl rfl rfl
  | addPendingEvents i currTics isRestart => exact h.addPendingEvents i currTics isRestart
  | processEvent i currTics => exact h.processEvent i currTics
  | processStep i => exact h.processStep i
  | callInstrument job k => exact ⟨h.once, h.active, h.cyclic, h.ordered⟩
  | timeTicChanged oldTt tt => exact h.timeTicChanged hknown.1 hok.1 hok.2
  | preloadCheckpoint => exact h.preloadCheckpoint
  | loadCheckpoint c => exact QueueInv.loadCheckpoint hok.1 hok.2 c
  | restart jobExists => exact h.restart hknown.1 hok jobExists

theorem queueInv_start (events : EventStore) (threads : Nat) : (start events threads).QueueInv := by
  have hnone : ∀ p ∈ (start events threads).eventProcessors, p = {} :=
    fun p hp => List.eq_of_mem_replicate hp
  constructor
  · intro a
    rw [waiting_eq_zero.mpr]
    · exact Nat.zero_le 1
    · intro p hp ha
      rw [hnone p hp] at ha
      cases ha
  · intro p hp a ha
    rw [hnone p hp] at ha
    cases ha
  · rintro - a ⟨hactive, -⟩
    cases hactive
  · intro p hp
    rw [hnone p hp]
    exact List.Pairwise.nil

/-- The first event of a set in order has the least next tics. -/
theorem minTics_cons {a : Nat} {l : List Nat} (hs : SortedBy (key events) (a :: l)) :
    minTics events (a :: l) = (events a).nextTics := by
  have hmin : ((a :: l).map (key events)).min? = some (key events a) := by
    rw [List.min?_eq_some_iff]
    refine ⟨List.mem_map_of_mem List.mem_cons_self, ?_⟩
    intro t ht
    obtain ⟨b, hb, rfl⟩ := List.mem_map.mp ht
    rcases List.mem_cons.mp hb with rfl | hb
    · exact le_refl _
    · exact List.rel_of_pairwise_cons hs hb
  unfold minTics
  rw [hmin]
  rfl

/-- **The end of a pass** sets the time of the job to that of the first event. -/
theorem QueueInv.jobOnTime {i : Nat} (h : m.QueueInv) (hend : m.PassEnds i) :
    (m.processStep i).JobOnTime i := by
  obtain ⟨p, hp, hpc, hidle⟩ := hend
  intro q hq
  have hordered : SortedBy (key m.events) p.eventSet := h.ordered p (List.mem_of_getElem? hp)
  unfold EventManager.processStep at hq ⊢
  rw [hp] at hq ⊢
  have hq : (m.eventProcessors.modify i fun _ => (p.processStep m.events).2.1)[i]? = some q := hq
  rw [getElem?_modify_self, hp] at hq
  cases hq
  show (p.processStep m.events).2.1.nextTics =
    minTics (p.processStep m.events).1 (p.processStep m.events).2.1.eventSet
  have hstep : EventProcessor.Stepped m.events p (p.processStep m.events) :=
    EventProcessor.stepped m.events p
  generalize p.processStep m.events = r at hstep hidle ⊢
  cases hstep with
  | idle hnot => exact absurd hnot hpc
  | empty hpc hl =>
    show maxLongLong = minTics m.events p.eventSet
    rw [hl]
    rfl
  | later hpc hl ha =>
    show (m.events _).nextTics = minTics m.events p.eventSet
    rw [hl] at hordered ⊢
    rw [minTics_cons hordered]
  | taken => cases hidle
  | putBack => cases hidle
  | dropped => cases hidle

/-- **In a run whose calls meet their conditions** every event is queued at most once, every cyclic event is
    in its place, the sets are ordered, and each pass leaves the time of the first event. -/
theorem event_queue_invariant (events : EventStore) (threads : Nat) (cs : List Call)
    (hok : Guarded QueueOk step (start events threads) cs) :
    (run step (start events threads) cs).QueueInv ∧
      ∀ i, (run step (start events threads) cs).PassEnds i →
        ((run step (start events threads) cs).step (.processStep i)).JobOnTime i := by
  have hstep : ∀ (m : EventManager) (call : Call), m.Known ∧ m.QueueInv → m.QueueOk call →
      (m.step call).Known ∧ (m.step call).QueueInv :=
    fun m call h hok => ⟨h.1.step call, h.2.step h.1 hok⟩
  have hinv : (run step (start events threads) cs).Known ∧ (run step (start events threads) cs).QueueInv :=
    Guarded.invariant hstep cs _ ⟨known_start events threads, queueInv_start events threads⟩ hok
  exact ⟨hinv.2, fun i hend => hinv.2.jobOnTime hend⟩

/-! ## Some runs -/

/-- Two events are added, and processed at 0 and 10; a checkpoint is read back. -/
def twoPasses : List Call :=
  [.addEvent 0, .addEvent 1, .addPendingEvents 0 0 false, .processEvent 0 0, .processStep 0,
    .processStep 0, .processStep 0, .processEvent 0 10, .processStep 0, .processStep 0, .processStep 0,
    .processStep 0]

def reload : List Call :=
  [.processStep 0, .preloadCheckpoint, .loadCheckpoint ⟨someEvents, [0, 1], (by decide)⟩,
    .restart fun _ => true, .addPendingEvents 0 0 true, .processEvent 0 0]

theorem event_queue_invariant_run :
    (run step (start someEvents 1) (twoPasses ++ reload)).QueueInv ∧
      ∀ i, (run step (start someEvents 1) (twoPasses ++ reload)).PassEnds i →
        ((run step (start someEvents 1) (twoPasses ++ reload)).step (.processStep i)).JobOnTime i :=
  event_queue_invariant someEvents 1 (twoPasses ++ reload) (by decide +kernel)

/-- A one-time event that has been processed is active and not queued, and so is every event between
    `preload_checkpoint` and `restart`. -/
theorem activeNotQueued_run :
    (Guarded QueueOk step (start someEvents 1) (twoPasses ++ reload.take 1) ∧
        1 ∈ (run step (start someEvents 1) (twoPasses ++ reload.take 1)).activeEvents ∧
        ∀ p ∈ (run step (start someEvents 1) (twoPasses ++ reload.take 1)).eventProcessors,
          1 ∉ p.pendingEvents ++ p.eventSet) ∧
      0 ∈ (run step (start someEvents 1) (twoPasses ++ reload.take 2)).activeEvents ∧
      ∀ p ∈ (run step (start someEvents 1) (twoPasses ++ reload.take 2)).eventProcessors,
        0 ∉ p.pendingEvents ++ p.eventSet := by
  constructor
  · decide +kernel
  · decide +kernel

end EventManager

end Trick.Events
