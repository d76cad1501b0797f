/-
  Runs of an event processor.

  1. **The scheduler**: the pending events are entered, the job is looked at, the clock is advanced.

  2. **The pass**: the turn of an event, its way back into the set, and the end.  `stepsLeft` is what is left of
     a pass.

  3. **Result.**  `events_on_time`, for runs of calls that keep an event in one place at most (`StepOk`); and
     `not_served`, an event that is added in time, but is past when the pending events are moved.
-/
import Trick.EventManager.TimedCalls

namespace Trick.Events

open Trick.Lib Trick.Exec

/-! ## Steps of the scheduler -/

section Steps

variable {s : Timed}

theorem TimedInv.nodup (h : TimedInv s) :
    s.processor.pendingEvents.Nodup ∧ s.processor.eventSet.Nodup ∧
      ∀ e ∈ s.processor.pendingEvents, e ∉ s.processor.eventSet := by
  have hboth := (List.nodup_append.mp h.once).1
  obtain ⟨hpending, hset, hne⟩ := List.nodup_append.mp hboth
  exact ⟨hpending, hset, fun e he hin => hne e he e hin rfl⟩

/-- Between two passes nothing is being processed. -/
theorem TimedInv.idle (h : TimedInv s) (hlooked : s.looked = false) :
    s.processor.pc = .idle ∧ s.processor.held = [] := by
  have hpc : s.processor.pc = .idle := by
    by_contra hne
    have htrue := (h.pass hne).1
    rw [hlooked] at htrue
    cases htrue
  refine ⟨hpc, ?_⟩
  unfold EventProcessor.held
  rw [hpc]

/-- **`add_pending_events`**: every event that comes into the set is entered. -/
theorem TimedInv.addPendingEvents (h : TimedInv s) (hlooked : s.looked = false) : TimedInv s.addPendingEvents := by
  obtain ⟨hpc, hheld⟩ := h.idle hlooked
  obtain ⟨hnodup, hnodupSet, hdisjoint⟩ := h.nodup
  have hone : ∀ a, s.processor.pendingEvents.count a + s.processor.eventSet.count a ≤ 1 := by
    intro a
    rw [← List.count_append]
    exact List.nodup_iff_count_le_one.mp (List.nodup_append.mp h.once).1 a
  obtain ⟨hpending', hpc', htics, hcountLe⟩ :=
    EventProcessor.addPendingEvents_spec s.time false s.events s.processor
  obtain ⟨hsorted, hother, -⟩ :=
    EventProcessor.addPendingEvents_ordered s.time false s.events s.processor h.sorted hone
  obtain ⟨hnext, hevents, hmem⟩ := EventProcessor.foldl_addPending_entered s.time s.processor.pendingEvents s.events
    { s.processor with pendingEvents := [] } hnodup hdisjoint
  unfold Timed.addPendingEvents
  change _ → (EventProcessor.addPendingEvents s.time false s.events s.processor).2.nextTics = firstTics
    (EventProcessor.addPendingEvents s.time false s.events s.processor).1
    (EventProcessor.addPendingEvents s.time false s.events s.processor).2.eventSet at hnext
  change ∀ e ∈ s.processor.pendingEvents, (EventProcessor.addPendingEvents s.time false s.events s.processor).1 e = _
    at hevents
  change ∀ e, e ∈ (EventProcessor.addPendingEvents s.time false s.events s.processor).2.eventSet ↔ _ at hmem
  generalize EventProcessor.addPendingEvents s.time false s.events s.processor = done
    at hpending' hpc' htics hcountLe hsorted hother hnext hevents hmem ⊢
  have hheld' : done.2.held = [] := by
    unfold EventProcessor.held
    rw [hpc', hpc]
  -- an event of the new set was in it, or has been entered now
  have hcases : ∀ e ∈ done.2.eventSet, (e ∈ s.processor.eventSet ∧ e ∉ s.processor.pendingEvents ∧ done.1 e = s.events e) ∨
      (e ∈ s.processor.pendingEvents ∧ s.time ≤ (done.1 e).nextTics) := by
    intro e he
    rcases (hmem e).mp he with hin | ⟨hin, hwhy⟩
    · have hnot : e ∉ s.processor.pendingEvents := fun hp => hdisjoint e hp hin
      exact Or.inl ⟨hin, hnot, hother e hnot⟩
    · refine Or.inr ⟨hin, ?_⟩
      rw [hevents e hin]
      split
      · exact le_refl _
      · rename_i hcycle
        exact hwhy.resolve_left hcycle
  have hcycleOf : ∀ e, (done.1 e).cycleTics = (s.events e).cycleTics := htics.cycleTics
  refine ⟨h.time, hsorted, ?_, ?_, ?_, ?_, ?_, ?_, ?_, ?_, ?_, ?_, h.stray⟩
  · show (done.2.pendingEvents ++ done.2.eventSet ++ done.2.held).Nodup
    rw [hpending', hheld', List.nil_append, List.append_nil, List.nodup_iff_count_le_one]
    intro a
    have hle := hcountLe a
    have hsum := hone a
    omega
  · intro e he
    show 0 ≤ (done.1 e).cycleTics
    rw [hcycleOf]
    have he : e ∈ done.2.queued := he
    rw [mem_queued, hpending', hheld'] at he
    rcases he with he | he | he
    · cases he
    · rcases hcases e he with ⟨hin, -⟩ | ⟨hin, -⟩
      · exact h.cycles e (mem_queued.mpr (Or.inr (Or.inl hin)))
      · exact h.cycles e (mem_queued.mpr (Or.inl hin))
    · cases he
  · intro e he
    show s.time ≤ (done.1 e).nextTics
    rcases hcases e he with ⟨hin, -, hsame⟩ | ⟨-, hle⟩
    · rw [hsame]
      exact h.ahead e hin
    · exact hle
  · intro hlooked'
    have hlooked' : s.looked = true := hlooked'
    rw [hlooked] at hlooked'
    cases hlooked'
  · intro hne
    have hne : done.2.pc ≠ .idle := hne
    rw [hpc', hpc] at hne
    exact absurd rfl hne
  · exact fun _ => hnext (h.job hpc)
  · intro e he
    have he : e ∈ done.2.pendingEvents := he
    rw [hpending'] at he
    cases he
  · intro e he
    have he : e ∈ done.2.eventSet := he
    rcases hcases e he with ⟨hin, hnot, hsame⟩ | ⟨hin, -⟩
    · obtain ⟨entry, hentry, hwaits⟩ := h.inSet e hin
      refine ⟨entry, ?_, ?_⟩
      · show (if e ∈ s.processor.pendingEvents then _ else s.entries e) = some entry
        rw [if_neg hnot]
        exact hentry
      · show entry.Waits (done.1 e)
        rw [hsame]
        exact hwaits
    · refine ⟨⟨(done.1 e).nextTics, (done.1 e).cycleTics, []⟩, ?_, rfl, ?_, fun _ => rfl⟩
      · show (if e ∈ s.processor.pendingEvents then if e ∈ done.2.eventSet ∧ s.added e = true then _ else none
          else s.entries e) = _
        rw [if_pos hin, if_pos ⟨he, h.added e hin⟩]
      · show (done.1 e).nextTics = (done.1 e).nextTics + ((0 : Nat) : Int) * (done.1 e).cycleTics
        push_cast
        omega
  · intro e he
    have he : e ∈ done.2.held := he
    rw [hheld'] at he
    cases he
  · intro e entry hentry
    have hentry : (if e ∈ s.processor.pendingEvents then
      if e ∈ done.2.eventSet ∧ s.added e = true then some ⟨(done.1 e).nextTics, (done.1 e).cycleTics, []⟩ else none
      else s.entries e) = some entry := hentry
    by_cases hin : e ∈ s.processor.pendingEvents
    · rw [if_pos hin] at hentry
      split at hentry
      · rename_i hset
        cases hentry
        refine ⟨⟨?_, ?_, ?_⟩, Or.inl hset.1⟩
        · show 0 ≤ (done.1 e).cycleTics
          rw [hcycleOf]
          exact h.cycles e (mem_queued.mpr (Or.inl hin))
        · intro k turn hturn
          rw [List.getElem?_nil] at hturn
          cases hturn
        · intro turn hturn
          cases hturn
      · cases hentry
    · rw [if_neg hin] at hentry
      obtain ⟨hok, hplace⟩ := h.entries e entry hentry
      refine ⟨hok, ?_⟩
      rcases hplace with hset | ⟨hhand, -⟩ | hone
      · exact Or.inl ((hmem e).mpr (Or.inl hset))
      · rw [hheld] at hhand
        cases hhand
      · exact Or.inr (Or.inr hone)

/-- The first event of a set in order. -/
theorem firstTics_le {events : EventStore} {l : List Nat} (hs : SortedBy (key events) l) {e : Nat} (he : e ∈ l) :
    firstTics events l ≤ (events e).nextTics := by
  cases l with
  | nil => cases he
  | cons a l =>
    rcases List.mem_cons.mp he with rfl | he
    · exact le_refl _
    · exact List.rel_of_pairwise_cons hs he

/-- **The look at the job**: the pass begins if the first event is due. -/
theorem TimedInv.look (h : TimedInv s) (hlooked : s.looked = false) : TimedInv (s.step .look) := by
  obtain ⟨hpc, hheld⟩ := h.idle hlooked
  by_cases hdue : s.processor.nextTics = s.time
  · have hstep : s.step .look =
        { s with
          looked := true
          processor := { s.processor with pc := .looping s.time } } := by
      show { s with
        looked := true
        processor := if s.processor.nextTics = s.time then s.processor.processEvent s.time else s.processor } = _
      rw [if_pos hdue]
      unfold EventProcessor.processEvent
      rw [hpc]
    have hqueued : ({ s.processor with pc := .looping s.time } : EventProcessor).queued = s.processor.queued := by
      unfold EventProcessor.queued
      rw [hheld]
      rfl
    rw [hstep]
    refine ⟨h.time, h.sorted, ?_, ?_, h.ahead, fun _ hidle => (nomatch hidle), fun _ => ⟨rfl, Or.inl rfl⟩,
      fun hidle => (nomatch hidle), h.added, h.inSet, fun e he => (nomatch he), ?_, h.stray⟩
    · show ({ s.processor with pc := .looping s.time } : EventProcessor).queued.Nodup
      rw [hqueued]
      exact h.once
    · intro e he
      have he : e ∈ ({ s.processor with pc := .looping s.time } : EventProcessor).queued := he
      rw [hqueued] at he
      exact h.cycles e he
    · intro e entry hentry
      obtain ⟨hok, hplace⟩ := h.entries e entry hentry
      refine ⟨hok, hplace.imp_right fun hplace => hplace.imp_left fun hhand => ?_⟩
      rw [hheld] at hhand
      exact nomatch hhand.1
  · have hstep : s.step .look = { s with looked := true } := by
      show { s with
        looked := true
        processor := if s.processor.nextTics = s.time then s.processor.processEvent s.time else s.processor } = _
      rw [if_neg hdue]
    rw [hstep]
    refine ⟨h.time, h.sorted, h.once, h.cycles, h.ahead, ?_, fun hne => absurd hpc hne, h.job, h.added, h.inSet,
      h.inHand, h.entries, h.stray⟩
    -- the first event is later, and so are the others
    intro _ _ e he
    have hle := firstTics_le h.sorted he
    have hjob := h.job hpc
    cases hl : s.processor.eventSet with
    | nil =>
      rw [hl] at he
      cases he
    | cons a l =>
      have hge := h.ahead a (by rw [hl]; exact List.mem_cons_self)
      have hfirst : firstTics s.events s.processor.eventSet = (s.events a).nextTics := by
        rw [hl]
        rfl
      show s.time < (s.events e).nextTics
      omega

/-- **The clock is advanced.** -/
theorem TimedInv.advance (h : TimedInv s) {time : Int} (hstep : Scheduled s (.advance time)) :
    TimedInv (s.step (.advance time)) := by
  obtain ⟨hlooked, hpc, hlater, hmax, hnext⟩ := hstep
  have hset : ∀ e ∈ s.processor.eventSet, time ≤ (s.events e).nextTics := by
    intro e he
    have hle := firstTics_le h.sorted he
    have hjob := h.job hpc
    have hpassed := h.passed hlooked hpc
    cases hl : s.processor.eventSet with
    | nil =>
      rw [hl] at he
      cases he
    | cons a l =>
      have hgt := hpassed a (by rw [hl]; exact List.mem_cons_self)
      have hfirst : firstTics s.events s.processor.eventSet = (s.events a).nextTics := by
        rw [hl]
        rfl
      have hbound := hnext (by omega)
      omega
  have hheld : s.processor.held = [] := by
    unfold EventProcessor.held
    rw [hpc]
  refine ⟨hmax, h.sorted, h.once, h.cycles, hset, fun hlooked => (nomatch hlooked), fun hne => absurd hpc hne,
    h.job, h.added, h.inSet, ?_, ?_, h.stray⟩
  · intro e he
    have he : e ∈ s.processor.held := he
    rw [hheld] at he
    cases he
  · intro e entry hentry
    obtain ⟨hok, hplace⟩ := h.entries e entry hentry
    exact ⟨hok.mono hlater.le, hplace⟩

/-! ## Steps of `process_event` -/

/-- The steps that are left of a pass: one at the head of the loop, and two for each event that is due. -/
def stepsLeft (s : Timed) : Nat :=
  match s.processor.pc with
  | .idle => 0
  | .looping _ => 2 * s.processor.eventSet.countP (fun e => (s.events e).nextTics = s.time) + 1
  | .processing .. => 2 * s.processor.eventSet.countP (fun e => (s.events e).nextTics = s.time) + 2

/-- **The pass is over** when no event of the set is due. -/
theorem TimedInv.passEnds (h : TimedInv s) {currTics nextTics : Int} (hpc : s.processor.pc = .looping currTics)
    (hlater : ∀ e ∈ s.processor.eventSet, s.time < (s.events e).nextTics)
    (hnext : nextTics = firstTics s.events s.processor.eventSet) :
    TimedInv { s with processor := { s.processor with nextTics := nextTics, pc := .idle } } := by
  have hheld : s.processor.held = [] := by
    unfold EventProcessor.held
    rw [hpc]
  have hqueued : ({ s.processor with nextTics := nextTics, pc := .idle } : EventProcessor).queued =
      s.processor.queued := by
    unfold EventProcessor.queued
    rw [hheld]
    rfl
  refine ⟨h.time, h.sorted, ?_, ?_, h.ahead, fun _ _ => hlater, fun hne => absurd rfl hne, fun _ => hnext, h.added,
    h.inSet, fun e he => (nomatch he), ?_, h.stray⟩
  · show ({ s.processor with nextTics := nextTics, pc := .idle } : EventProcessor).queued.Nodup
    rw [hqueued]
    exact h.once
  · intro e he
    have he : e ∈ ({ s.processor with nextTics := nextTics, pc := .idle } : EventProcessor).queued := he
    rw [hqueued] at he
    exact h.cycles e he
  · intro e entry hentry
    obtain ⟨hok, hplace⟩ := h.entries e entry hentry
    refine ⟨hok, hplace.imp_right fun hplace => hplace.imp_left fun hhand => ?_⟩
    rw [hheld] at hhand
    exact nomatch hhand.1

/-- The turn of an event that waits for it. -/
theorem Entry.Ok.turn {entry : Entry} {time : Int} (h : entry.Ok time) (active : Bool)
    (hnow : time = entry.first + entry.turns.length * entry.cycle) :
    ({ entry with turns := entry.turns ++ [⟨time, active, active⟩] } : Entry).Ok time := by
  refine ⟨h.cycle, ?_, ?_⟩
  · intro k turn hturn
    have hturn : (entry.turns ++ [(⟨time, active, active⟩ : Turn)])[k]? = some turn := hturn
    rcases lt_trichotomy k entry.turns.length with hlt | rfl | hgt
    · rw [List.getElem?_append_left hlt] at hturn
      exact h.tic k turn hturn
    · rw [List.getElem?_concat_length] at hturn
      cases hturn
      exact ⟨hnow, le_refl _⟩
    · rw [List.getElem?_eq_none (by rw [List.length_append, List.length_singleton]; omega)] at hturn
      cases hturn
  · intro turn hturn
    rcases List.mem_append.mp hturn with hturn | hturn
    · exact h.processed turn hturn
    · rw [List.mem_singleton.mp hturn]

/-- **The turn of the first event**: it leaves the set, and is processed if it is active. -/
theorem TimedInv.taken (h : TimedInv s) {e : Nat} {l : List Nat} {entry : Entry}
    (hpc : s.processor.pc = .looping s.time) (hlooked : s.looked = true) (hl : s.processor.eventSet = e :: l)
    (hdue : (s.events e).nextTics = s.time) (hentry : s.entries e = some entry) (hwaits : entry.Waits (s.events e)) :
    TimedInv { s with
      processor := { s.processor with
        eventSet := l
        pc := .processing s.time e }
      entries := Function.update s.entries e
        (some { entry with turns := entry.turns ++ [⟨s.time, (s.events e).active, (s.events e).active⟩] }) } := by
  obtain ⟨hcycle, htics, hnone⟩ := hwaits
  have hmem : ∀ a ∈ l, a ∈ s.processor.eventSet := by
    intro a ha
    rw [hl]
    exact List.mem_cons_of_mem e ha
  have hself : e ∈ s.processor.eventSet := by
    rw [hl]
    exact List.mem_cons_self
  have hne : ∀ a ∈ l, a ≠ e := by
    have hnodup := h.nodup.2.1
    rw [hl] at hnodup
    exact fun a ha hae => (List.nodup_cons.mp hnodup).1 (hae ▸ ha)
  have hqueued : ({ s.processor with eventSet := l, pc := .processing s.time e } : EventProcessor).queued.Perm
      s.processor.queued := by
    show (s.processor.pendingEvents ++ l ++ [e]).Perm (s.processor.pendingEvents ++ s.processor.eventSet ++
      s.processor.held)
    have hheld : s.processor.held = [] := by
      unfold EventProcessor.held
      rw [hpc]
    rw [hl, hheld, List.append_nil, List.append_assoc]
    exact (List.perm_append_singleton e l).append_left _
  have hpos := h.cycles e (mem_queued.mpr (Or.inr (Or.inl hself)))
  have hentries : ∀ a, a ≠ e → Function.update s.entries e
      (some { entry with turns := entry.turns ++ [⟨s.time, (s.events e).active, (s.events e).active⟩] }) a =
        s.entries a := fun a ha => Function.update_of_ne ha _ _
  have hok := (h.entries e entry hentry).1.turn (s.events e).active (by omega)
  refine ⟨h.time, ?_, hqueued.nodup_iff.mpr h.once, fun a ha => h.cycles a (hqueued.mem_iff.mp ha),
    fun a ha => h.ahead a (hmem a ha), fun _ hidle => (nomatch hidle), fun _ => ⟨hlooked, Or.inr ⟨e, rfl⟩⟩,
    fun hidle => (nomatch hidle), h.added, ?_, ?_, ?_, h.stray⟩
  · have hsorted := h.sorted
    rw [hl] at hsorted
    exact hsorted.of_cons
  · intro a ha
    obtain ⟨entry', hentry', hwaits'⟩ := h.inSet a (hmem a ha)
    exact ⟨entry', (hentries a (hne a ha)).trans hentry', hwaits'⟩
  · intro a ha hcyclic
    obtain rfl : a = e := List.mem_singleton.mp ha
    refine ⟨_, Function.update_self .., hcycle, ?_, ?_⟩
    · show (s.events a).nextTics + (s.events a).cycleTics =
        entry.first + ((entry.turns ++ [_]).length : Int) * entry.cycle
      rw [List.length_append, List.length_singleton, htics, ← hcycle]
      push_cast
      ring
    · show s.time < (s.events a).nextTics + (s.events a).cycleTics
      have hcyclic : (s.events a).cycleTics ≠ 0 := hcyclic
      omega
  · intro a entry' hentry'
    by_cases hae : a = e
    · subst hae
      have hentry' : Function.update s.entries a _ a = some entry' := hentry'
      rw [Function.update_self] at hentry'
      cases hentry'
      refine ⟨hok, Or.inr ?_⟩
      by_cases hcyclic : (s.events a).cycleTics ≠ 0
      · exact Or.inl ⟨List.mem_singleton_self a, hcyclic⟩
      · refine Or.inr ⟨hcycle.trans (not_not.mp hcyclic), ?_⟩
        rw [hnone (hcycle.trans (not_not.mp hcyclic))]
        rfl
    · obtain ⟨hok', hplace⟩ := h.entries a entry' ((hentries a hae).symm.trans hentry')
      refine ⟨hok', ?_⟩
      rcases hplace with hset | ⟨hhand, -⟩ | hone
      · rw [hl] at hset
        exact Or.inl ((List.mem_cons.mp hset).resolve_left hae)
      · unfold EventProcessor.held at hhand
        rw [hpc] at hhand
        cases hhand
      · exact Or.inr (Or.inr hone)

/-- **A cyclic event is put back** for its next turn. -/
theorem TimedInv.putBack (h : TimedInv s) {e : Nat} (hpc : s.processor.pc = .processing s.time e)
    (hlooked : s.looked = true) (hcycle : (s.events e).cycleTics ≠ 0) :
    let events := setEvent s.events e { s.events e with nextTics := (s.events e).nextTics + (s.events e).cycleTics }
    TimedInv { s with
      events := events
      processor := { s.processor with
        eventSet := insertEvent events e s.processor.eventSet
        pc := .looping s.time } } := by
  intro events
  have hheld : s.processor.held = [e] := by
    unfold EventProcessor.held
    rw [hpc]
  have hin : e ∈ s.processor.held := by
    rw [hheld]
    exact List.mem_singleton_self e
  obtain ⟨entry, hentry, hsame, htics, hfuture⟩ := h.inHand e hin hcycle
  have hother : ∀ a, a ≠ e → events a = s.events a := fun a ha => Function.update_of_ne ha _ _
  have hself : events e = { s.events e with nextTics := (s.events e).nextTics + (s.events e).cycleTics } :=
    Function.update_self ..
  have hnot : ∀ a ∈ s.processor.eventSet, a ≠ e := fun a ha hae => h.not_held ha (hae ▸ hin)
  have hmem : ∀ a, a ∈ insertEvent events e s.processor.eventSet ↔ a = e ∨ a ∈ s.processor.eventSet :=
    fun a => mem_insertAt
  have hcycleOf : ∀ a, (events a).cycleTics = (s.events a).cycleTics := fun a => setEvent_cycleTics _ _ _ rfl
  have hqueued : ({ s.processor with
      eventSet := insertEvent events e s.processor.eventSet
      pc := .looping s.time } : EventProcessor).queued.Perm s.processor.queued := by
    show (s.processor.pendingEvents ++ insertEvent events e s.processor.eventSet ++ []).Perm
      (s.processor.pendingEvents ++ s.processor.eventSet ++ s.processor.held)
    rw [hheld, List.append_nil, List.append_assoc]
    refine List.Perm.append_left _ ?_
    exact (insertAt_perm _ e s.processor.eventSet).trans (List.perm_append_singleton e s.processor.eventSet).symm
  refine ⟨h.time, ?_, hqueued.nodup_iff.mpr h.once, ?_, ?_, fun _ hidle => (nomatch hidle),
    fun _ => ⟨hlooked, Or.inl rfl⟩, fun hidle => (nomatch hidle), h.added, ?_, fun a ha => (nomatch ha), ?_, h.stray⟩
  · exact SortedBy.insertAt_upperBound (ordered_of_not_mem h.sorted fun a ha => hother a (hnot a ha))
  · intro a ha
    show 0 ≤ (events a).cycleTics
    rw [hcycleOf]
    exact h.cycles a (hqueued.mem_iff.mp ha)
  · intro a ha
    show s.time ≤ (events a).nextTics
    rcases (hmem a).mp ha with rfl | ha
    · rw [hself]
      exact hfuture.le
    · rw [hother a (hnot a ha)]
      exact h.ahead a ha
  · intro a ha
    rcases (hmem a).mp ha with rfl | ha
    · refine ⟨entry, hentry, ?_⟩
      show entry.Waits (events a)
      rw [hself]
      exact ⟨hsame, htics, fun hzero => absurd (hsame ▸ hzero) hcycle⟩
    · obtain ⟨entry', hentry', hwaits⟩ := h.inSet a ha
      refine ⟨entry', hentry', ?_⟩
      show entry'.Waits (events a)
      rw [hother a (hnot a ha)]
      exact hwaits
  · intro a entry' hentry'
    obtain ⟨hok, hplace⟩ := h.entries a entry' hentry'
    refine ⟨hok, ?_⟩
    rcases hplace with hset | ⟨hhand, -⟩ | hone
    · exact Or.inl ((hmem a).mpr (Or.inr hset))
    · exact Or.inl ((hmem a).mpr (Or.inl (ne_of_mem_held hhand hin)))
    · exact Or.inr (Or.inr hone)

/-- A one-time event is not put back. -/
theorem TimedInv.dropped (h : TimedInv s) {e : Nat} (hpc : s.processor.pc = .processing s.time e)
    (hlooked : s.looked = true) (hcycle : (s.events e).cycleTics = 0) :
    TimedInv { s with processor := { s.processor with pc := .looping s.time } } := by
  have hheld : s.processor.held = [e] := by
    unfold EventProcessor.held
    rw [hpc]
  have hqueued : ({ s.processor with pc := .looping s.time } : EventProcessor).queued.Sublist s.processor.queued :=
    (List.Sublist.refl _).append (List.nil_sublist _)
  refine ⟨h.time, h.sorted, h.once.sublist hqueued, fun a ha => h.cycles a (hqueued.subset ha), h.ahead,
    fun _ hidle => (nomatch hidle), fun _ => ⟨hlooked, Or.inl rfl⟩, fun hidle => (nomatch hidle), h.added, h.inSet,
    fun a ha => (nomatch ha), ?_, h.stray⟩
  intro a entry hentry
  obtain ⟨hok, hplace⟩ := h.entries a entry hentry
  refine ⟨hok, hplace.imp_right fun hplace => hplace.imp_left fun hhand => ?_⟩
  obtain ⟨hin, hne⟩ := hhand
  rw [hheld] at hin
  rw [List.mem_singleton.mp hin] at hne
  exact absurd hcycle hne

/-- An event that is later in the set than another one is not due if that one is not. -/
theorem TimedInv.later (h : TimedInv s) {e : Nat} {l : List Nat} (hl : s.processor.eventSet = e :: l)
    (hlater : (s.events e).nextTics ≠ s.time) : ∀ a ∈ s.processor.eventSet, s.time < (s.events a).nextTics := by
  intro a ha
  have hge := h.ahead e (by rw [hl]; exact List.mem_cons_self)
  have hle := firstTics_le h.sorted ha
  have hfirst : firstTics s.events s.processor.eventSet = (s.events e).nextTics := by
    rw [hl]
    rfl
  omega

/-- **One step of `process_event`**: the invariant is kept, and the pass comes nearer to its end. -/
theorem TimedInv.processStep (h : TimedInv s) :
    TimedInv s.processStep ∧ (s.processor.pc ≠ .idle → stepsLeft s.processStep < stepsLeft s) := by
  cases hpc : s.processor.pc with
  | idle =>
    have hstep : s.processStep = s := by
      unfold Timed.processStep Timed.turnOf EventProcessor.processStep
      simp only [hpc]
    rw [hstep]
    exact ⟨h, fun hne => absurd rfl hne⟩
  | looping currTics =>
    obtain ⟨hlooked, hat⟩ := h.pass (by rw [hpc]; exact nofun)
    obtain rfl : currTics = s.time := by
      rw [hpc] at hat
      rcases hat with heq | ⟨e, heq⟩
      · cases heq
        rfl
      · cases heq
    cases hl : s.processor.eventSet with
    | nil =>
      have hstep : s.processStep =
          { s with processor := { s.processor with nextTics := maxLongLong, pc := .idle } } := by
        unfold Timed.processStep Timed.turnOf EventProcessor.processStep
        simp only [hpc, hl]
      rw [hstep]
      refine ⟨h.passEnds hpc ?_ ?_, fun _ => ?_⟩
      · intro e he
        rw [hl] at he
        cases he
      · rw [hl]
        rfl
      · unfold stepsLeft
        rw [hpc]
        exact Nat.succ_pos _
    | cons e l =>
      by_cases hdue : (s.events e).nextTics = s.time
      · obtain ⟨entry, hentry, hwaits⟩ := h.inSet e (by rw [hl]; exact List.mem_cons_self)
        have hstep : s.processStep =
            { s with
              processor := { s.processor with
                eventSet := l
                pc := .processing s.time e }
              entries := Function.update s.entries e
                (some { entry with turns := entry.turns ++ [⟨s.time, (s.events e).active, (s.events e).active⟩] }) } := by
          unfold Timed.processStep Timed.turnOf EventProcessor.processStep Timed.addTurn
          simp only [hpc, hl, if_pos hdue, hentry]
          cases hactive : (s.events e).active <;> simp
        rw [hstep]
        refine ⟨h.taken hpc hlooked hl hdue hentry hwaits, fun _ => ?_⟩
        unfold stepsLeft
        simp only [hpc, hl]
        have hcount : (e :: l).countP (fun a => decide ((s.events a).nextTics = s.time)) =
            l.countP (fun a => decide ((s.events a).nextTics = s.time)) + 1 :=
          List.countP_cons_of_pos (decide_eq_true hdue)
        omega
      · have hstep : s.processStep =
            { s with processor := { s.processor with nextTics := (s.events e).nextTics, pc := .idle } } := by
          unfold Timed.processStep Timed.turnOf EventProcessor.processStep
          simp only [hpc, hl, if_neg hdue]
        rw [hstep]
        refine ⟨h.passEnds hpc (h.later hl hdue) ?_, fun _ => ?_⟩
        · rw [hl]
          rfl
        · unfold stepsLeft
          rw [hpc]
          exact Nat.succ_pos _
  | processing currTics e =>
    obtain ⟨hlooked, hat⟩ := h.pass (by rw [hpc]; exact nofun)
    obtain rfl : currTics = s.time := by
      rw [hpc] at hat
      rcases hat with heq | ⟨e', heq⟩
      · cases heq
      · cases heq
        rfl
    have hheld : e ∈ s.processor.held := by
      unfold EventProcessor.held
      rw [hpc]
      exact List.mem_singleton_self e
    by_cases hcycle : (s.events e).cycleTics ≠ 0
    · have hkept := h.putBack hpc hlooked hcycle
      obtain ⟨entry, -, -, -, hfuture⟩ := h.inHand e hheld hcycle
      have hstep : s.processStep =
          { s with
            events := setEvent s.events e { s.events e with
              nextTics := (s.events e).nextTics + (s.events e).cycleTics }
            processor := { s.processor with
              eventSet := insertEvent (setEvent s.events e { s.events e with
                nextTics := (s.events e).nextTics + (s.events e).cycleTics }) e s.processor.eventSet
              pc := .looping s.time } } := by
        unfold Timed.processStep Timed.turnOf EventProcessor.processStep
        simp only [hpc, if_pos hcycle]
      rw [hstep]
      refine ⟨hkept, fun _ => ?_⟩
      -- it is later now, and the others are where they were
      unfold stepsLeft
      simp only [hpc]
      have hcount : (insertEvent (setEvent s.events e { s.events e with
            nextTics := (s.events e).nextTics + (s.events e).cycleTics }) e s.processor.eventSet).countP
          (fun a => decide ((setEvent s.events e { s.events e with
            nextTics := (s.events e).nextTics + (s.events e).cycleTics } a).nextTics = s.time)) =
          s.processor.eventSet.countP (fun a => decide ((s.events a).nextTics = s.time)) := by
        unfold insertEvent
        rw [(insertAt_perm _ e s.processor.eventSet).countP_eq, List.countP_cons_of_neg]
        · refine List.countP_congr fun a ha => ?_
          have hae : a ≠ e := fun hae => h.not_held ha (hae ▸ hheld)
          unfold setEvent
          rw [Function.update_of_ne hae]
        · unfold setEvent
          rw [Function.update_self, decide_eq_true_eq]
          show ¬ (s.events e).nextTics + (s.events e).cycleTics = s.time
          omega
      rw [hcount]
      omega
    · have hzero := not_not.mp hcycle
      have hstep : s.processStep = { s with processor := { s.processor with pc := .looping s.time } } := by
        unfold Timed.processStep Timed.turnOf EventProcessor.processStep
        simp only [hpc, if_neg hcycle]
      rw [hstep]
      refine ⟨h.dropped hpc hlooked hzero, fun _ => ?_⟩
      unfold stepsLeft
      simp only [hpc]
      omega

end Steps

/-! ## Result -/

theorem start_timed (events : EventStore) {time : Int} (htime : time < maxLongLong) :
    TimedInv (Timed.start events time) :=
  ⟨htime, List.Pairwise.nil, List.nodup_nil, fun _ he => (nomatch he), fun _ he => (nomatch he),
    fun _ _ _ he => (nomatch he), fun hne => absurd rfl hne, fun _ => rfl, fun _ he => (nomatch he),
    fun _ he => (nomatch he), fun _ he => (nomatch he), fun _ _ hentry => (nomatch hentry), rfl⟩

/-- **One step.** -/
theorem TimedInv.step {s : Timed} (h : TimedInv s) {a : Action} (hok : StepOk s a) : TimedInv (s.step a) := by
  obtain ⟨hscheduled, hcall⟩ := hok
  cases a with
  | addEvent e => exact h.addEvent hcall.1 hcall.2
  | removeEvent e => exact h.removeEvent hcall.1 hcall.2
  | setActive e active => exact h.setActive e active
  | setNextTics e nextTics => exact h.setNextTics hcall.1 hcall.2
  | setCycle e cycleTics => exact h.setCycle hcall.1 hcall.2.1 hcall.2.2
  | addPendingEvents => exact h.addPendingEvents hscheduled
  | look => exact h.look hscheduled
  | processStep => exact h.processStep.1
  | advance time => exact h.advance hscheduled

/-- **A pass ends**, if it is let run. -/
theorem TimedInv.ends {s : Timed} (h : TimedInv s) :
    ∃ n, (run Timed.step s (List.replicate n .processStep)).processor.pc = .idle := by
  have hwf : WellFounded fun a b : Timed => stepsLeft a < stepsLeft b := InvImage.wf stepsLeft Nat.lt_wfRel.wf
  have hinv : ∀ a : Timed, TimedInv a → ¬ a.processor.pc = .idle → TimedInv (a.step .processStep) :=
    fun a ha _ => ha.processStep.1
  have hdown : ∀ a : Timed, TimedInv a → ¬ a.processor.pc = .idle → stepsLeft (a.step .processStep) < stepsLeft a :=
    fun a ha hne => ha.processStep.2 hne
  obtain ⟨n, hn, -⟩ := exists_halted hwf hinv hdown s h
  exact ⟨n, hn⟩

/-- **In a run whose calls keep an event in one place** every event has its turns on time: a cyclic one at its first
    time and every cycle after it, a one-time event once at its time, all that are due in the same pass, and an
    event that has been removed has none. -/
theorem events_on_time (events : EventStore) {time : Int} (htime : time < maxLongLong) (actions : List Action)
    (hok : Guarded StepOk Timed.step (Timed.start events time) actions) :
    Timing (run Timed.step (Timed.start events time) actions) := by
  have hstep : ∀ s a, TimedInv s → StepOk s a → TimedInv (s.step a) := fun _ _ h hok => h.step hok
  have hinv := Guarded.invariant hstep actions _ (start_timed events htime) hok
  exact ⟨fun _ _ hentry => hinv.onTime hentry, hinv.stray, hinv.ends⟩

/-- A cyclic event of 10 tics, and a one-time event for the tic 5. -/
def cycleAndOnce : EventStore := fun e =>
  if e = 0 then { active := true, cycleTics := 10 } else { active := true, cycleTics := 0, nextTics := 5 }

/-- Both are processed, and the cyclic one is removed when its second turn is over. -/
def bothOnTime : List Action :=
  [.addEvent 0, .addEvent 1, .addPendingEvents, .look, .processStep, .processStep, .processStep, .advance 5, .look,
    .processStep, .processStep, .processStep, .advance 10, .look, .processStep, .setActive 1 false, .processStep,
    .processStep, .removeEvent 0, .advance 20]

theorem events_on_time_both : Timing (run Timed.step (Timed.start cycleAndOnce 0) bothOnTime) :=
  events_on_time cycleAndOnce (by decide) bothOnTime (by decide +kernel)

/-- **Not always**: while the cyclic event is processed at 0 a one-time event is added for the tic 5; the pending
    events are moved at the top of the next frame, at 10, where its time is past, and it is dropped. -/
theorem not_served :
    ¬ ∀ actions : List Action, Guarded StepOk Timed.step (Timed.start cycleAndOnce 0) actions →
      ∀ e ∈ (run Timed.step (Timed.start cycleAndOnce 0) actions).asked,
        ((run Timed.step (Timed.start cycleAndOnce 0) actions).events e).nextTics <
          (run Timed.step (Timed.start cycleAndOnce 0) actions).time →
        ∃ entry, (run Timed.step (Timed.start cycleAndOnce 0) actions).entries e = some entry ∧
          ∃ turn ∈ entry.turns, turn.processed = true := by
  intro h
  obtain ⟨entry, hentry, -⟩ := h [.addEvent 0, .addPendingEvents, .look, .processStep, .addEvent 1, .processStep,
    .processStep, .advance 10, .addPendingEvents, .look, .processStep, .processStep, .processStep] (by decide +kernel)
    1 (by decide +kernel) (by decide +kernel)
  have hnone : (run Timed.step (Timed.start cycleAndOnce 0) [.addEvent 0, .addPendingEvents, .look, .processStep,
    .addEvent 1, .processStep, .processStep, .advance 10, .addPendingEvents, .look, .processStep, .processStep,
    .processStep]).entries 1 = none := by decide +kernel
  rw [hnone] at hentry
  cases hentry

end Trick.Events
