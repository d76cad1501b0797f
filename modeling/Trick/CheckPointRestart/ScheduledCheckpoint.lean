/-
  Checkpoints that are requested for a time.

  `checkpoint(time)` puts the tic on a priority queue and lowers the next call time of the job
  `write_checkpoint`; this job writes the checkpoint, takes its tic off the queue, and asks to be called
  again at the one that is on top then.

  1. **Data.**  `State`: the clock, the queue, the next call time of the job, and where the scheduler is: in
     a pass the job is looked at once, and called if its next call time is the current tic, and then the
     clock is advanced, at most to what the scheduler then has for the next call time.

  2. **Program.**  `checkpoint`, `writeCheckpoint`, and a step for each event (`step`).

  3. **Specification.**  `Right`: the next call time is the least tic pending, none of them is passed, and
     every request that was accepted and has been passed was written once, at its tic.

  4. **Result.**  `checkpoints_right`: this holds as long as no request comes too late in its pass
     (`InTime`), which is when the job has been looked at and its tic is the current one, or is jumped over
     when the clock is advanced.
-/
import Trick.Executive.JobData
import Trick.Lib.Run

namespace Trick.CheckPoint

open Trick.Lib Trick.Exec

/-! ## Program -/

/-- `CheckPointRestart`, and what the scheduler has of its job `write_checkpoint`. -/
structure State where
  timeTicValue : Int
  timeTics : Int
  /-- A priority queue with the least tic on top: here in increasing order. -/
  checkpointTimes : List Int := []
  /-- `write_checkpoint_job->next_tics` -/
  nextTics : Int := maxLongLong
  /-- The scheduler has looked at the job in this pass. -/
  looked : Bool := false
  /-- The next call time that the scheduler has from this look. -/
  nextJobTime : Int := maxLongLong
  /-- The requests that were accepted. -/
  requested : List Int := []
  /-- The tics at which a checkpoint has been written. -/
  written : List Int := []

/-- `checkpoint(in_time)`: a time in the past is refused. -/
def checkpoint (s : State) (inTime : ℚ) : State :=
  let newTime := toTics s.timeTicValue inTime
  if newTime ≥ s.timeTics then
    { s with
      checkpointTimes := s.checkpointTimes.orderedInsert (· ≤ ·) newTime
      nextTics := if newTime < s.nextTics then newTime else s.nextTics
      requested := s.requested ++ [newTime] }
  else s

/-- `write_checkpoint` -/
def writeCheckpoint (s : State) : State :=
  if s.checkpointTimes.head? = some s.timeTics then
    let left := s.checkpointTimes.dropWhile (· = s.timeTics)
    { s with
      checkpointTimes := left
      nextTics := left.headD maxLongLong
      written := s.written ++ [s.timeTics] }
  else s

/-- The scheduler comes to the job, and calls it if it is due; a call time in the past does not count. -/
def look (s : State) : State :=
  let s := if s.nextTics = s.timeTics then writeCheckpoint s else s
  { s with
    looked := true
    nextJobTime := if s.nextTics > s.timeTics then s.nextTics else maxLongLong }

/-- The clock is advanced, and the next pass begins. -/
def advance (s : State) (timeTics : Int) : State :=
  { s with
    timeTics := timeTics
    looked := false }

inductive Event where
  | checkpoint (inTime : ℚ)
  | look
  | advance (timeTics : Int)
deriving DecidableEq

def step (s : State) : Event → State
  | .checkpoint inTime => checkpoint s inTime
  | .look => look s
  | .advance timeTics => advance s timeTics

/-- The simulation begins: `find_write_checkpoint_jobs` has set the next call time. -/
def start (timeTicValue timeTics : Int) : State :=
  { timeTicValue := timeTicValue
    timeTics := timeTics }

/-! ## Specification -/

/-- **What the scheduler does**: it comes to the job once in a pass, and then advances the clock to a later tic,
    which is at most the next call time it has from this look. -/
def Scheduled (s : State) : Event → Prop
  | .checkpoint _ => True
  | .look => s.looked = false
  | .advance timeTics => s.looked = true ∧ s.timeTics < timeTics ∧ timeTics ≤ s.nextJobTime

/-- **A request in time**: behind the look it is not for the current tic, and the clock is not advanced beyond it. -/
def InTime (s : State) : Event → Prop
  | .checkpoint inTime => s.looked = true → toTics s.timeTicValue inTime ≠ s.timeTics
  | .look => True
  | .advance timeTics => timeTics ≤ s.nextTics

instance (s : State) : (e : Event) → Decidable (Scheduled s e)
  | .checkpoint _ => isTrue trivial
  | .look => inferInstanceAs (Decidable (s.looked = false))
  | .advance timeTics => inferInstanceAs (Decidable (s.looked = true ∧ s.timeTics < timeTics ∧ timeTics ≤ s.nextJobTime))

instance (s : State) : (e : Event) → Decidable (InTime s e)
  | .checkpoint inTime => inferInstanceAs (Decidable (s.looked = true → toTics s.timeTicValue inTime ≠ s.timeTics))
  | .look => isTrue trivial
  | .advance timeTics => inferInstanceAs (Decidable (timeTics ≤ s.nextTics))

/-- The tic has come, and the scheduler has been at the job. -/
def Passed (s : State) (r : Int) : Prop := r < s.timeTics ∨ (r = s.timeTics ∧ s.looked = true)

/-- **The requests as they should be.** -/
structure Right (s : State) : Prop where
  /-- The next call time is the least pending tic. -/
  next : s.nextTics = s.checkpointTimes.headD maxLongLong
  sorted : s.checkpointTimes.Pairwise (· ≤ ·)
  /-- A pending tic is one of a request, and has not been passed. -/
  pending : ∀ r ∈ s.checkpointTimes, r ∈ s.requested ∧ ¬ Passed s r
  /-- No request is lost. -/
  kept : ∀ r ∈ s.requested, r ∈ s.checkpointTimes ∨ r ∈ s.written
  /-- Every checkpoint is one that was requested, and its tic has been passed. -/
  asked : ∀ r ∈ s.written, r ∈ s.requested ∧ Passed s r
  /-- There is at most one for each tic. -/
  once : s.written.Nodup

/-- **A request whose tic has been passed** has been written, once. -/
theorem Right.count {s : State} (h : Right s) {r : Int} (hr : r ∈ s.requested) (hpassed : Passed s r) :
    s.written.count r = 1 := by
  have hmem : r ∈ s.written := (h.kept r hr).resolve_left fun hp => (h.pending r hp).2 hpassed
  exact List.count_eq_one_of_mem h.once hmem

/-! ## One step -/

theorem start_right (timeTicValue timeTics : Int) : Right (start timeTicValue timeTics) :=
  ⟨rfl, List.Pairwise.nil, fun _ hr => (nomatch hr), fun _ hr => (nomatch hr), fun _ hr => (nomatch hr), List.nodup_nil⟩

/-- The least of a sorted list with one more in it. -/
theorem headD_orderedInsert (l : List Int) (r : Int) (hr : r ≤ maxLongLong) :
    (l.orderedInsert (· ≤ ·) r).headD maxLongLong = if r < l.headD maxLongLong then r else l.headD maxLongLong := by
  cases l with
  | nil =>
    show r = if r < maxLongLong then r else maxLongLong
    split <;> omega
  | cons a rest =>
    rw [List.orderedInsert_cons]
    by_cases hle : r ≤ a
    · rw [if_pos hle]
      show r = if r < a then r else a
      split <;> omega
    · rw [if_neg hle]
      show a = if r < a then r else a
      rw [if_neg (by omega)]

/-- The first of a sorted list is the least. -/
theorem headD_le {l : List Int} (h : l.Pairwise (· ≤ ·)) {r : Int} (hr : r ∈ l) : l.headD maxLongLong ≤ r := by
  cases l with
  | nil => cases hr
  | cons a rest =>
    rcases List.mem_cons.mp hr with rfl | hr
    · exact le_refl _
    · exact (List.pairwise_cons.mp h).1 r hr

theorem head_mem {l : List Int} {r : Int} (hr : r ∈ l) : l.headD maxLongLong ∈ l := by
  cases l with
  | nil => cases hr
  | cons a rest => exact List.mem_cons_self

/-- **A request.** -/
theorem Right.checkpoint {s : State} (h : Right s) {inTime : ℚ} (hfits : toTics s.timeTicValue inTime ≤ maxLongLong)
    (hin : InTime s (.checkpoint inTime)) : Right (checkpoint s inTime) := by
  unfold CheckPoint.checkpoint
  simp only
  have hin : s.looked = true → toTics s.timeTicValue inTime ≠ s.timeTics := hin
  generalize toTics s.timeTicValue inTime = r at hfits hin ⊢
  by_cases hpast : r ≥ s.timeTics
  · rw [if_pos hpast]
    have hnew : ¬ Passed s r := by
      rintro (hlt | ⟨heq, hlooked⟩)
      · omega
      · exact hin hlooked heq
    have hmem : ∀ {x}, x ∈ s.checkpointTimes.orderedInsert (· ≤ ·) r ↔ x = r ∨ x ∈ s.checkpointTimes :=
      List.mem_orderedInsert (· ≤ ·)
    refine ⟨?_, h.sorted.orderedInsert r _, ?_, ?_, ?_, h.once⟩
    · show (if r < s.nextTics then r else s.nextTics) = _
      rw [headD_orderedInsert _ _ hfits, h.next]
    · intro x hx
      rcases hmem.mp hx with rfl | hx
      · exact ⟨List.mem_append_right _ (List.mem_singleton_self _), hnew⟩
      · exact ⟨List.mem_append_left _ (h.pending x hx).1, (h.pending x hx).2⟩
    · intro x hx
      rcases List.mem_append.mp hx with hx | hx
      · exact (h.kept x hx).imp_left fun hp => hmem.mpr (Or.inr hp)
      · exact Or.inl (hmem.mpr (Or.inl (List.mem_singleton.mp hx)))
    · intro x hx
      exact ⟨List.mem_append_left _ (h.asked x hx).1, (h.asked x hx).2⟩
  · rw [if_neg hpast]
    exact h

/-- **The look at the job**: what is due is written, and nothing that is pending is passed. -/
theorem Right.look {s : State} (h : Right s) (hfirst : s.looked = false) (htime : s.timeTics < maxLongLong) :
    Right (look s) := by
  -- nothing that is pending is behind the clock
  have hahead : ∀ r ∈ s.checkpointTimes, s.timeTics ≤ r := by
    intro r hr
    by_contra hlt
    exact (h.pending r hr).2 (Or.inl (by omega))
  have hnotYet : ∀ r ∈ s.written, r < s.timeTics := by
    intro r hr
    rcases (h.asked r hr).2 with hlt | ⟨-, hlooked⟩
    · exact hlt
    · rw [hfirst] at hlooked
      cases hlooked
  unfold CheckPoint.look
  by_cases hdue : s.nextTics = s.timeTics
  · rw [if_pos hdue]
    have hhead : s.checkpointTimes.head? = some s.timeTics := by
      have hnext := h.next
      rw [hdue] at hnext
      cases hl : s.checkpointTimes with
      | nil =>
        rw [hl, List.headD_nil] at hnext
        omega
      | cons a rest =>
        rw [hl, List.headD_cons] at hnext
        rw [hnext]
        rfl
    have hmemTime : s.timeTics ∈ s.checkpointTimes := List.mem_of_mem_head? hhead
    unfold writeCheckpoint
    rw [if_pos hhead]
    -- what is left is later
    have hsplit := List.takeWhile_append_dropWhile (p := (decide <| · = s.timeTics)) (l := s.checkpointTimes)
    have hsorted := h.sorted.sublist (List.dropWhile_sublist (decide <| · = s.timeTics))
    have hlater : ∀ r ∈ s.checkpointTimes.dropWhile (· = s.timeTics), s.timeTics < r := by
      intro r hr
      cases hl : s.checkpointTimes.dropWhile (· = s.timeTics) with
      | nil =>
        rw [hl] at hr
        cases hr
      | cons a rest =>
        have ha : ¬ decide (a = s.timeTics) = true := by
          have hnot := List.head?_dropWhile_not (decide <| · = s.timeTics) s.checkpointTimes
          rw [hl] at hnot
          simpa using hnot
        have hmem : a ∈ s.checkpointTimes := (List.dropWhile_sublist _).subset (by rw [hl]; exact List.mem_cons_self)
        have hlt : s.timeTics < a := lt_of_le_of_ne (hahead a hmem) fun heq => ha (decide_eq_true heq.symm)
        rw [hl] at hr hsorted
        rcases List.mem_cons.mp hr with rfl | hr
        · exact hlt
        · exact lt_of_lt_of_le hlt ((List.pairwise_cons.mp hsorted).1 r hr)
    refine ⟨rfl, hsorted, ?_, ?_, ?_, ?_⟩
    · intro r hr
      refine ⟨(h.pending r ((List.dropWhile_sublist _).subset hr)).1, ?_⟩
      have hlt := hlater r hr
      rintro (hpast | ⟨heq, -⟩)
      · exact lt_asymm hlt hpast
      · exact hlt.ne heq.symm
    · intro r hr
      rcases h.kept r hr with hp | hw
      · rw [← hsplit] at hp
        rcases List.mem_append.mp hp with hp | hp
        · have heq := List.mem_takeWhile_imp (p := (decide <| · = s.timeTics)) hp
          exact Or.inr (List.mem_append_right _ (List.mem_singleton.mpr (of_decide_eq_true heq)))
        · exact Or.inl hp
      · exact Or.inr (List.mem_append_left _ hw)
    · intro r hr
      rcases List.mem_append.mp hr with hr | hr
      · exact ⟨(h.asked r hr).1, Or.inl (hnotYet r hr)⟩
      · obtain rfl := List.mem_singleton.mp hr
        exact ⟨(h.pending _ hmemTime).1, Or.inr ⟨rfl, rfl⟩⟩
    · refine List.nodup_append.mpr ⟨h.once, List.nodup_singleton _, ?_⟩
      intro r hr x hx
      rw [List.mem_singleton.mp hx]
      exact (hnotYet r hr).ne
  · rw [if_neg hdue]
    refine ⟨h.next, h.sorted, ?_, h.kept, ?_, h.once⟩
    · intro r hr
      refine ⟨(h.pending r hr).1, ?_⟩
      -- the least pending tic is later, so all of them are
      have hlt : s.timeTics < r := by
        have hge := hahead _ (head_mem hr)
        have hle := headD_le h.sorted hr
        rw [h.next] at hdue
        omega
      rintro (hpast | ⟨heq, -⟩)
      · exact lt_asymm hlt hpast
      · exact hlt.ne heq.symm
    · intro r hr
      exact ⟨(h.asked r hr).1, Or.inl (hnotYet r hr)⟩

/-- **The clock is advanced** to no later than the least pending tic. -/
theorem Right.advance {s : State} (h : Right s) {timeTics : Int} (hlater : s.timeTics < timeTics)
    (hnext : timeTics ≤ s.nextTics) : Right (advance s timeTics) := by
  refine ⟨h.next, h.sorted, ?_, h.kept, ?_, h.once⟩
  · intro r hr
    refine ⟨(h.pending r hr).1, ?_⟩
    have hle : s.nextTics ≤ r := by
      rw [h.next]
      exact headD_le h.sorted hr
    rintro (hpast | ⟨-, hlooked⟩)
    · have hpast : r < timeTics := hpast
      omega
    · cases hlooked
  · intro r hr
    refine ⟨(h.asked r hr).1, Or.inl ?_⟩
    show r < timeTics
    rcases (h.asked r hr).2 with hlt | ⟨heq, -⟩ <;> omega

/-! ## Result -/

/-- The tics are those of a `long long`. -/
def Fits (s : State) : Event → Prop
  | .checkpoint inTime => toTics s.timeTicValue inTime ≤ maxLongLong
  | .look => True
  | .advance timeTics => timeTics < maxLongLong

instance (s : State) : (e : Event) → Decidable (Fits s e)
  | .checkpoint inTime => inferInstanceAs (Decidable (toTics s.timeTicValue inTime ≤ maxLongLong))
  | .look => isTrue trivial
  | .advance timeTics => inferInstanceAs (Decidable (timeTics < maxLongLong))

/-- A step of a scheduler with tics that fit. -/
def Legal (s : State) (e : Event) : Prop := Scheduled s e ∧ Fits s e

instance (s : State) (e : Event) : Decidable (Legal s e) := inferInstanceAs (Decidable (_ ∧ _))

/-- A step with its requests in time. -/
def StepOk (s : State) (e : Event) : Prop := Legal s e ∧ InTime s e

instance (s : State) (e : Event) : Decidable (StepOk s e) := inferInstanceAs (Decidable (_ ∧ _))

/-- **In every run whose requests come in time**, the next call time is the least tic pending, and every request
    whose tic has been passed has been written once. -/
theorem checkpoints_right {timeTicValue timeTics : Int} (htime : timeTics < maxLongLong) (events : List Event)
    (hok : Guarded StepOk step (start timeTicValue timeTics) events) :
    Right (run step (start timeTicValue timeTics) events) ∧
      ∀ r ∈ (run step (start timeTicValue timeTics) events).requested,
        Passed (run step (start timeTicValue timeTics) events) r →
          (run step (start timeTicValue timeTics) events).written.count r = 1 := by
  have hstep : ∀ s e, (Right s ∧ s.timeTics < maxLongLong) → StepOk s e →
      Right (step s e) ∧ (step s e).timeTics < maxLongLong := by
    rintro s e ⟨h, ht⟩ ⟨⟨hscheduled, hfits⟩, hin⟩
    cases e with
    | checkpoint inTime =>
      refine ⟨h.checkpoint hfits hin, ?_⟩
      show (checkpoint s inTime).timeTics < maxLongLong
      unfold checkpoint
      simp only
      split <;> exact ht
    | look =>
      refine ⟨h.look hscheduled ht, ?_⟩
      show (look s).timeTics < maxLongLong
      unfold look writeCheckpoint
      simp only
      split
      · split <;> exact ht
      · exact ht
    | advance timeTics => exact ⟨h.advance hscheduled.2.1 hin, hfits⟩
  have hright := (Guarded.invariant hstep events _ ⟨start_right timeTicValue timeTics, htime⟩ hok).1
  exact ⟨hright, fun r hr hpassed => hright.count hr hpassed⟩

/-- Three requests, two of them for one tic, the last one made when the job has been looked at. -/
def threeRequests : List Event :=
  [.checkpoint 5, .look, .checkpoint 3, .checkpoint 5, .advance 2, .look, .advance 3, .look, .advance 5, .look]

theorem checkpoints_right_threeRequests :
    Right (run step (start 1 0) threeRequests) ∧
      ∀ r ∈ (run step (start 1 0) threeRequests).requested, Passed (run step (start 1 0) threeRequests) r →
        (run step (start 1 0) threeRequests).written.count r = 1 :=
  checkpoints_right (by decide) threeRequests (by decide +kernel)

/-- **Not always**: a request for the current tic behind the look stays on the queue, and the next call time stays
    at its tic; a later request for tic 5 is never served. -/
theorem not_checkpoints_right :
    ¬ ∀ events : List Event, Guarded Legal step (start 1 0) events →
      ∀ r ∈ (run step (start 1 0) events).requested, Passed (run step (start 1 0) events) r →
        (run step (start 1 0) events).written.count r = 1 := by
  intro h
  have hlost := h [.look, .checkpoint 0, .advance 3, .checkpoint 5, .look, .advance 5, .look, .advance 6]
    (by decide +kernel) 5 (by decide +kernel) (Or.inl (by decide +kernel))
  exact absurd hlost (by decide +kernel)

end Trick.CheckPoint
