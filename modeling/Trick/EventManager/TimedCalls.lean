/-
  Calls of an event processor that keep its events on time.

  Each call of the user, made between two steps of a pass or of the scheduler, keeps the invariant of
  `EventTiming` under its condition.

  1. **Fields of events** are written: `setEvents` says which ones do not matter, `setNextTics` is the one that
     begins a new schedule.

  2. **Adding and removing** an event.

  3. **The pending events**, moved to the set one after another.
-/
import Trick.EventManager.EventTiming

namespace Trick.Events

open Trick.Lib Trick.Exec

/-! ## Calls -/

section Calls

variable {s : Timed}

theorem mem_queued {p : EventProcessor} {e : Nat} :
    e ∈ p.queued ↔ e ∈ p.pendingEvents ∨ e ∈ p.eventSet ∨ e ∈ p.held := by
  unfold EventProcessor.queued
  rw [List.mem_append, List.mem_append, or_assoc]

/-- An event of the set is not being processed. -/
theorem TimedInv.not_held (h : TimedInv s) {e : Nat} (he : e ∈ s.processor.eventSet) : e ∉ s.processor.held := by
  have hnodup := (List.nodup_append.mp h.once).2.2
  exact fun hheld => hnodup e (List.mem_append_right _ he) e hheld rfl

/-- The first event of a set is written only with the set. -/
theorem firstTics_congr {events events' : EventStore} {l : List Nat}
    (h : ∀ e ∈ l, (events' e).nextTics = (events e).nextTics) : firstTics events' l = firstTics events l := by
  cases l with
  | nil => rfl
  | cons e l => exact h e List.mem_cons_self

/-- **Fields are written** that do not matter: those of events that are neither in the set nor being processed, the
    time of a one-time event that is being processed, or other fields. -/
theorem TimedInv.setEvents (h : TimedInv s) {events : EventStore}
    (hset : ∀ e ∈ s.processor.eventSet, (events e).nextTics = (s.events e).nextTics ∧
      (events e).cycleTics = (s.events e).cycleTics)
    (hheld : ∀ e ∈ s.processor.held, (events e).cycleTics = (s.events e).cycleTics ∧
      ((s.events e).cycleTics ≠ 0 → (events e).nextTics = (s.events e).nextTics))
    (hcycles : ∀ e ∈ s.processor.queued, 0 ≤ (events e).cycleTics) : TimedInv { s with events := events } := by
  refine ⟨h.time, ?_, h.once, hcycles, ?_, ?_, h.pass, ?_, h.added, ?_, ?_, ?_, h.stray⟩
  · refine h.sorted.of_le fun a ha b hb hab => ?_
    show (events a).nextTics ≤ (events b).nextTics
    rw [(hset a ha).1, (hset b hb).1]
    exact hab
  · intro e he
    show s.time ≤ (events e).nextTics
    rw [(hset e he).1]
    exact h.ahead e he
  · intro hlooked hidle e he
    show s.time < (events e).nextTics
    rw [(hset e he).1]
    exact h.passed hlooked hidle e he
  · intro hidle
    show s.processor.nextTics = firstTics events s.processor.eventSet
    rw [firstTics_congr fun e he => (hset e he).1]
    exact h.job hidle
  · intro e he
    obtain ⟨entry, hentry, hcycle, htics, hnone⟩ := h.inSet e he
    exact ⟨entry, hentry, hcycle.trans (hset e he).2.symm, (hset e he).1.trans htics, hnone⟩
  · intro e he hne
    have hne : (events e).cycleTics ≠ 0 := hne
    obtain ⟨hcycle, htics⟩ := hheld e he
    rw [hcycle] at hne
    obtain ⟨entry, hentry, hadvances⟩ := h.inHand e he hne
    refine ⟨entry, hentry, ?_⟩
    unfold Entry.Advances at hadvances ⊢
    show entry.cycle = (events e).cycleTics ∧ (events e).nextTics + (events e).cycleTics = _ ∧
      s.time < (events e).nextTics + (events e).cycleTics
    rw [htics hne, hcycle]
    exact hadvances
  · intro e entry hentry
    obtain ⟨hok, hplace⟩ := h.entries e entry hentry
    refine ⟨hok, hplace.imp_right (Or.imp_left fun hin => ⟨hin.1, ?_⟩)⟩
    show (events e).cycleTics ≠ 0
    rw [(hheld e hin.1).1]
    exact hin.2

theorem TimedInv.setActive (h : TimedInv s) (e : Nat) (active : Bool) :
    TimedInv { s with events := setEvent s.events e { s.events e with active := active } } := by
  have hsame : ∀ a, (setEvent s.events e { s.events e with active := active } a).nextTics = (s.events a).nextTics ∧
      (setEvent s.events e { s.events e with active := active } a).cycleTics = (s.events a).cycleTics := by
    intro a
    unfold setEvent
    by_cases hae : a = e
    · subst hae
      rw [Function.update_self]
      exact ⟨rfl, rfl⟩
    · rw [Function.update_of_ne hae]
      exact ⟨rfl, rfl⟩
  refine h.setEvents (fun a _ => hsame a) (fun a _ => ⟨(hsame a).2, fun _ => (hsame a).1⟩) fun a ha => ?_
  rw [(hsame a).2]
  exact h.cycles a ha

theorem TimedInv.setCycle (h : TimedInv s) {e : Nat} {cycleTics : Int} (hpos : 0 ≤ cycleTics)
    (hset : e ∉ s.processor.eventSet) (hheld : e ∉ s.processor.held) :
    TimedInv { s with events := setEvent s.events e { s.events e with cycleTics := cycleTics } } := by
  have hother : ∀ a, a ≠ e → setEvent s.events e { s.events e with cycleTics := cycleTics } a = s.events a :=
    fun a ha => Function.update_of_ne ha _ _
  refine h.setEvents (fun a ha => ?_) (fun a ha => ?_) fun a ha => ?_
  · rw [hother a fun hae => hset (hae ▸ ha)]
    exact ⟨rfl, rfl⟩
  · rw [hother a fun hae => hheld (hae ▸ ha)]
    exact ⟨rfl, fun _ => rfl⟩
  · unfold setEvent
    by_cases hae : a = e
    · subst hae
      rw [Function.update_self]
      exact hpos
    · rw [Function.update_of_ne hae]
      exact h.cycles a ha

/-- The event is not the one that is being processed. -/
theorem ne_of_mem_held {p : EventProcessor} {a e : Nat} (ha : a ∈ p.held) (he : e ∈ p.held) : a = e := by
  unfold EventProcessor.held at ha he
  cases hpc : p.pc with
  | idle =>
    rw [hpc] at ha
    cases ha
  | looping =>
    rw [hpc] at ha
    cases ha
  | processing currTics b =>
    rw [hpc] at ha he
    rw [List.mem_singleton.mp ha, List.mem_singleton.mp he]

/-- **`set_next_tics`**: the event that is being processed begins a new schedule. -/
theorem TimedInv.setNextTics (h : TimedInv s) {e : Nat} {nextTics : Int} (hset : e ∉ s.processor.eventSet)
    (hfuture : e ∈ s.processor.held → (s.events e).cycleTics ≠ 0 → s.time < nextTics + (s.events e).cycleTics) :
    TimedInv (s.setNextTics e nextTics) := by
  have hcycleOf : ∀ a, (setEvent s.events e { s.events e with nextTics := nextTics } a).cycleTics =
      (s.events a).cycleTics := fun a => setEvent_cycleTics _ _ _ rfl
  have hother : ∀ a, a ≠ e → setEvent s.events e { s.events e with nextTics := nextTics } a = s.events a :=
    fun a ha => Function.update_of_ne ha _ _
  have hself : (setEvent s.events e { s.events e with nextTics := nextTics } e).nextTics = nextTics := by
    unfold setEvent
    rw [Function.update_self]
  have hne : ∀ a ∈ s.processor.eventSet, a ≠ e := fun a ha hae => hset (hae ▸ ha)
  unfold Timed.setNextTics
  by_cases hnew : e ∈ s.processor.held ∧ (s.events e).cycleTics ≠ 0
  swap
  · -- the event is not cyclic, or not being processed
    rw [if_neg hnew]
    refine h.setEvents (fun a ha => ?_) (fun a ha => ⟨hcycleOf a, fun hcycle => ?_⟩) fun a ha => ?_
    · rw [hother a (hne a ha)]
      exact ⟨rfl, rfl⟩
    · rw [hother a fun hae => hnew (hae ▸ ⟨ha, hcycle⟩)]
    · rw [hcycleOf]
      exact h.cycles a ha
  · -- the new schedule
    rw [if_pos hnew]
    obtain ⟨hheld, hcycle⟩ := hnew
    refine ⟨h.time, ?_, h.once, ?_, ?_, ?_, h.pass, ?_, h.added, ?_, ?_, ?_, h.stray⟩
    · refine h.sorted.of_le fun a ha b hb hab => ?_
      show (setEvent s.events e _ a).nextTics ≤ (setEvent s.events e _ b).nextTics
      rw [hother a (hne a ha), hother b (hne b hb)]
      exact hab
    · intro a ha
      show 0 ≤ (setEvent s.events e _ a).cycleTics
      rw [hcycleOf]
      exact h.cycles a ha
    · intro a ha
      show s.time ≤ (setEvent s.events e _ a).nextTics
      rw [hother a (hne a ha)]
      exact h.ahead a ha
    · intro hlooked hidle a ha
      show s.time < (setEvent s.events e _ a).nextTics
      rw [hother a (hne a ha)]
      exact h.passed hlooked hidle a ha
    · intro hidle
      show s.processor.nextTics = firstTics (setEvent s.events e _) s.processor.eventSet
      rw [firstTics_congr fun a ha => congrArg Event.nextTics (hother a (hne a ha))]
      exact h.job hidle
    · intro a ha
      obtain ⟨entry, hentry, hwaits⟩ := h.inSet a ha
      refine ⟨entry, ?_, ?_⟩
      · show Function.update s.entries e _ a = some entry
        rw [Function.update_of_ne (hne a ha)]
        exact hentry
      · show entry.Waits (setEvent s.events e _ a)
        rw [hother a (hne a ha)]
        exact hwaits
    · intro a ha _
      obtain rfl := ne_of_mem_held ha hheld
      refine ⟨⟨nextTics + (s.events a).cycleTics, (s.events a).cycleTics, []⟩, ?_, ?_, ?_, ?_⟩
      · show Function.update s.entries a _ a = _
        rw [Function.update_self]
      · exact (hcycleOf a).symm
      · show (setEvent s.events a _ a).nextTics + (setEvent s.events a _ a).cycleTics =
          nextTics + (s.events a).cycleTics + ((0 : Nat) : Int) * (s.events a).cycleTics
        rw [hself, hcycleOf]
        push_cast
        omega
      · show s.time < (setEvent s.events a _ a).nextTics + (setEvent s.events a _ a).cycleTics
        rw [hself, hcycleOf]
        exact hfuture hheld hcycle
    · intro a entry hentry
      have hentry : Function.update s.entries e _ a = some entry := hentry
      by_cases hae : a = e
      · subst hae
        rw [Function.update_self] at hentry
        cases hentry
        refine ⟨⟨h.cycles a (mem_queued.mpr (Or.inr (Or.inr hheld))), ?_, ?_⟩, Or.inr (Or.inl ⟨hheld, ?_⟩)⟩
        · intro k turn hturn
          rw [List.getElem?_nil] at hturn
          cases hturn
        · intro turn hturn
          cases hturn
        · show (setEvent s.events a _ a).cycleTics ≠ 0
          rw [hcycleOf]
          exact hcycle
      · rw [Function.update_of_ne hae] at hentry
        obtain ⟨hok, hplace⟩ := h.entries a entry hentry
        exact ⟨hok, hplace.imp_right (Or.imp_left fun hin => absurd (ne_of_mem_held hin.1 hheld) hae)⟩

/-- **`add_event`** -/
theorem TimedInv.addEvent (h : TimedInv s) {e : Nat} (hnew : e ∉ s.processor.queued)
    (hcycle : 0 ≤ (s.events e).cycleTics) : TimedInv (s.addEvent e) := by
  have hperm : (s.processor.addEvent e).queued.Perm (e :: s.processor.queued) := by
    show ((s.processor.pendingEvents ++ [e]) ++ s.processor.eventSet ++ s.processor.held).Perm
      (e :: (s.processor.pendingEvents ++ s.processor.eventSet ++ s.processor.held))
    rw [List.append_assoc, List.append_assoc, List.append_assoc]
    exact List.perm_middle
  refine ⟨h.time, h.sorted, ?_, ?_, h.ahead, h.passed, h.pass, h.job, ?_, h.inSet, h.inHand, h.entries, h.stray⟩
  · exact hperm.nodup_iff.mpr (List.nodup_cons.mpr ⟨hnew, h.once⟩)
  · intro a ha
    rcases List.mem_cons.mp (hperm.mem_iff.mp ha) with rfl | ha
    · exact hcycle
    · exact h.cycles a ha
  · intro a ha
    show Function.update s.added e true a = true
    by_cases hae : a = e
    · rw [hae, Function.update_self]
    · rw [Function.update_of_ne hae]
      exact h.added a ((List.mem_append.mp ha).resolve_right fun hin => hae (List.mem_singleton.mp hin))

/-- **`remove_event`** of an event that is in the set, or nowhere. -/
theorem TimedInv.removeEvent (h : TimedInv s) {e : Nat} (hpending : e ∉ s.processor.pendingEvents)
    (hheld : e ∈ s.processor.held → (s.events e).cycleTics = 0) : TimedInv (s.removeEvent e) := by
  have hnodup : s.processor.eventSet.Nodup := (List.nodup_append.mp (List.nodup_append.mp h.once).1).2.1
  have hsub : (s.processor.eventSet.erase e).Sublist s.processor.eventSet := List.erase_sublist
  have hqueued : ∀ a ∈ (s.processor.removeEvent s.events e).queued, a ∈ s.processor.queued := by
    intro a ha
    rw [mem_queued] at ha ⊢
    exact ha.imp_right (Or.imp_left fun hin => hsub.subset hin)
  have hne : ∀ a ∈ s.processor.eventSet.erase e, a ≠ e := fun a ha hae =>
    hnodup.not_mem_erase (hae ▸ ha)
  refine ⟨h.time, h.sorted.sublist hsub, ?_, fun a ha => h.cycles a (hqueued a ha),
    fun a ha => h.ahead a (hsub.subset ha), fun hlooked hidle a ha => h.passed hlooked hidle a (hsub.subset ha),
    h.pass, fun _ => rfl, ?_, ?_, ?_, ?_, h.stray⟩
  · show (s.processor.pendingEvents ++ s.processor.eventSet.erase e ++ s.processor.held).Nodup
    exact h.once.sublist (((List.Sublist.refl _).append hsub).append (List.Sublist.refl _))
  · intro a ha
    show Function.update s.added e false a = true
    rw [Function.update_of_ne fun hae : a = e => hpending (hae ▸ ha)]
    exact h.added a ha
  · intro a ha
    obtain ⟨entry, hentry, hwaits⟩ := h.inSet a (hsub.subset ha)
    refine ⟨entry, ?_, hwaits⟩
    show Function.update s.entries e none a = some entry
    rw [Function.update_of_ne (hne a ha)]
    exact hentry
  · intro a ha hcycle
    obtain ⟨entry, hentry, hadvances⟩ := h.inHand a ha hcycle
    refine ⟨entry, ?_, hadvances⟩
    show Function.update s.entries e none a = some entry
    rw [Function.update_of_ne fun hae => hcycle (by rw [hae]; exact hheld (hae ▸ ha))]
    exact hentry
  · intro a entry hentry
    have hentry : Function.update s.entries e none a = some entry := hentry
    by_cases hae : a = e
    · rw [hae, Function.update_self] at hentry
      cases hentry
    · rw [Function.update_of_ne hae] at hentry
      obtain ⟨hok, hplace⟩ := h.entries a entry hentry
      exact ⟨hok, hplace.imp_left fun hin => (List.mem_erase_of_ne hae).mpr hin⟩

end Calls

/-! ## The pending events -/

namespace EventProcessor

/-- An event that is not pending is not written. -/
theorem foldl_addPending_of_not_mem (currTics : Int) (l : List Nat) :
    ∀ (events : EventStore) (p : EventProcessor) (e : Nat), e ∉ l →
      (l.foldl (addPending currTics false) (events, p)).1 e = events e := by
  induction l with
  | nil => exact fun _ _ _ _ => rfl
  | cons a l ih =>
    intro events p e he
    rw [List.mem_cons, not_or] at he
    obtain ⟨-, -, -, hsame, -⟩ := addPending_spec currTics false events p a
    rw [List.foldl_cons, ← hsame e he.1]
    exact ih _ _ e he.2

/-- **The pending events one after another**: the cyclic ones get the current tic and are put into the set, and so are
    the one-time events that are not past. -/
theorem foldl_addPending_entered (currTics : Int) (l : List Nat) :
    ∀ (events : EventStore) (p : EventProcessor), l.Nodup → (∀ e ∈ l, e ∉ p.eventSet) →
      (p.nextTics = firstTics events p.eventSet →
        (l.foldl (addPending currTics false) (events, p)).2.nextTics =
          firstTics (l.foldl (addPending currTics false) (events, p)).1
            (l.foldl (addPending currTics false) (events, p)).2.eventSet) ∧
      (∀ e ∈ l, (l.foldl (addPending currTics false) (events, p)).1 e =
        if (events e).cycleTics ≠ 0 then { events e with nextTics := currTics } else events e) ∧
      ∀ e, e ∈ (l.foldl (addPending currTics false) (events, p)).2.eventSet ↔
        e ∈ p.eventSet ∨ (e ∈ l ∧ ((events e).cycleTics ≠ 0 ∨ currTics ≤ (events e).nextTics)) := by
  induction l with
  | nil =>
    intro events p _ _
    refine ⟨fun hnext => hnext, fun e he => (nomatch he), fun e => ⟨Or.inl, ?_⟩⟩
    rintro (hin | ⟨hnil, -⟩)
    · exact hin
    · cases hnil
  | cons a l ih =>
    intro events p hnodup hnew
    obtain ⟨hal, hnodup⟩ := List.nodup_cons.mp hnodup
    have ha := hnew a List.mem_cons_self
    -- the turn of the first one
    have hturn : (p.nextTics = firstTics events p.eventSet →
          (addPending currTics false (events, p) a).2.nextTics =
            firstTics (addPending currTics false (events, p) a).1 (addPending currTics false (events, p) a).2.eventSet) ∧
        (addPending currTics false (events, p) a).1 a =
          (if (events a).cycleTics ≠ 0 then { events a with nextTics := currTics } else events a) ∧
        (∀ e, e ≠ a → (addPending currTics false (events, p) a).1 e = events e) ∧
        ∀ e, e ∈ (addPending currTics false (events, p) a).2.eventSet ↔
          e ∈ p.eventSet ∨ (e = a ∧ ((events a).cycleTics ≠ 0 ∨ currTics ≤ (events a).nextTics)) := by
      unfold addPending
      by_cases hcycle : (events a).cycleTics ≠ 0
      · simp only [if_pos hcycle, Bool.false_eq_true, if_false]
        refine ⟨fun _ => trivial, Function.update_self .., fun e he => Function.update_of_ne he _ _, fun e => ?_⟩
        unfold insertEvent
        rw [mem_insertAt]
        simp only [hcycle, ne_eq, not_false_eq_true, true_or, and_true]
        exact or_comm
      · simp only [if_neg hcycle]
        by_cases hpast : (events a).nextTics < currTics
        · rw [if_pos hpast]
          refine ⟨fun hnext => hnext, rfl, fun _ _ => rfl, fun e => ⟨Or.inl, ?_⟩⟩
          rintro (hin | ⟨-, hne | hle⟩)
          · exact hin
          · exact absurd hne hcycle
          · omega
        · rw [if_neg hpast]
          refine ⟨fun _ => rfl, rfl, fun _ _ => rfl, fun e => ?_⟩
          unfold insertEvent
          rw [mem_insertAt]
          simp only [not_lt.mp hpast, or_true, and_true]
          exact or_comm
    rw [List.foldl_cons]
    generalize addPending currTics false (events, p) a = r at hturn ⊢
    obtain ⟨hnextA, hself, hother, hmem⟩ := hturn
    obtain ⟨ihnext, ihevents, ihmem⟩ := ih r.1 r.2 hnodup (by
      intro e he hin
      rcases (hmem e).mp hin with hin | ⟨rfl, -⟩
      · exact hnew e (List.mem_cons_of_mem _ he) hin
      · exact hal he)
    refine ⟨fun hnext => ihnext (hnextA hnext), ?_, ?_⟩
    · intro e he
      rcases List.mem_cons.mp he with rfl | he
      · -- the later turns do not touch it
        have hkept := (foldl_addPending_of_not_mem currTics l r.1 r.2 e hal)
        rw [hkept, hself]
      · rw [ihevents e he, hother e fun hea => hal (hea ▸ he)]
    · intro e
      rw [ihmem e, hmem e, List.mem_cons, or_assoc]
      refine or_congr_right ?_
      constructor
      · rintro (⟨rfl, hwhy⟩ | ⟨he, hwhy⟩)
        · exact ⟨Or.inl rfl, hwhy⟩
        · rw [hother e fun hea => hal (hea ▸ he)] at hwhy
          exact ⟨Or.inr he, hwhy⟩
      · rintro ⟨rfl | he, hwhy⟩
        · exact Or.inl ⟨rfl, hwhy⟩
        · refine Or.inr ⟨he, ?_⟩
          rw [hother e fun hea => hal (hea ▸ he)]
          exact hwhy

end EventProcessor

end Trick.Events
