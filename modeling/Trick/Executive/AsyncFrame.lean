/-
  The frames of an asynchronous child with a cycle.

  1. Data.  `MainPass`: a pass of the main thread, its tic, whether the child has completed its last
     frame by then, and the jobs that are switched off.
  2. Program.  `asyncPass`: `thread_sync` brings `amf_next_tics` of a completed child up to the
     tic, and a child whose `amf_next_tics` is the tic is released: it brings the call times of its
     jobs up to the frame and runs the frame.  A child that overruns is one that has not completed
     at some of the passes.
  3. Specification.  No job is called behind its stop time; the call times of each job increase.
  4. Result.  `find_next_job` asks for the stop time when it moves a call time; the loop that brings
     the jobs up to a frame does not.  `StopsAhead` says when that is no harm: a job that is behind
     the frame has a call time in between the start of the frame and its stop.
-/
import Trick.Executive.AmfFrame

namespace Trick.Exec

open Trick.Lib MultiThread

/-! ## The passes of the main thread -/

/-- A pass of the main thread. -/
structure MainPass where
  timeTics : Int
  /-- `child_complete` -/
  childComplete : Bool
  disabled : JobId → Bool

/-- `amf_next_tics` behind `thread_sync`. -/
def syncedNext (c : ChildFrame) (p : MainPass) : Int :=
  if p.childComplete = true then
    catchUp c.thread.amfCycleTics p.timeTics (p.timeTics - c.thread.amfNextTics).toNat
      c.thread.amfNextTics
  else c.thread.amfNextTics

/-- `isThreadReadyToRun`, for an asynchronous child with a cycle. -/
def Starts (c : ChildFrame) (p : MainPass) : Prop :=
  p.childComplete = true ∧ syncedNext c p = p.timeTics

instance (c : ChildFrame) (p : MainPass) : Decidable (Starts c p) :=
  inferInstanceAs (Decidable (_ ∧ _))

/-- The main thread releases the child. -/
def ChildFrame.asyncRelease (p : MainPass) (c : ChildFrame) : ChildFrame :=
  let thread := { c.thread with
    currTimeTics := p.timeTics
    amfNextTics := p.timeTics + c.thread.amfCycleTics }
  { c with jobs := fun i => { c.jobs i with disabled := p.disabled i }, thread := thread }

/-- The frame: the call times brought up to it, then the mini scheduler. -/
def ChildFrame.asyncFrame (own : JobId → Int → Int) (c : ChildFrame) : ChildFrame :=
  ChildFrame.frame own { c with jobs := catchUpJobs c.jobs c.thread }

/-- **A pass of the main thread**, with the frame of the child if it begins one. -/
def ChildFrame.asyncPass (own : JobId → Int → Int) (c : ChildFrame) (p : MainPass) : ChildFrame :=
  if Starts c p then (c.asyncRelease p).asyncFrame own
  else { c with thread := { c.thread with amfNextTics := syncedNext c p } }

/-! ## The specification -/

/-- **The calls of the child as they should be.** -/
structure CallsRight (c : ChildFrame) : Prop where
  stops : ∀ call ∈ c.called, call.1 ≤ (c.jobs call.2).stopTics
  increasing : c.called.Pairwise fun a b => a.2 = b.2 → a.1 < b.1

/-- **When a pass brings no job behind its stop.**  A job that is behind a frame that starts has a
    call time between the start of the frame and its stop. -/
def StopsAhead (c : ChildFrame) (p : MainPass) : Prop :=
  p.timeTics + c.thread.amfCycleTics < maxLongLong ∧
  (Starts c p → ∀ i ∈ c.thread.jobQueue.list, p.disabled i = false →
    (c.jobs i).nextTics < p.timeTics →
    ∃ k : ℕ, p.timeTics ≤ (c.jobs i).nextTics + k * (c.jobs i).cycleTics ∧
      (c.jobs i).nextTics + k * (c.jobs i).cycleTics ≤ (c.jobs i).stopTics)

/-! ## Catching up -/

/-- The loop over the cycles: it ends at the first call time that is not before the limit. -/
theorem catchUp_spec {cycle : Int} (limit : Int) (hc : 1 ≤ cycle) :
    ∀ (n : Nat) (next : Int), (limit - next).toNat ≤ n →
      limit ≤ catchUp cycle limit n next ∧ next ≤ catchUp cycle limit n next ∧
        ∀ k : ℕ, limit ≤ next + k * cycle → catchUp cycle limit n next ≤ next + k * cycle := by
  intro n
  induction n with
  | zero =>
    intro next hn
    unfold catchUp
    refine ⟨by omega, le_refl _, ?_⟩
    intro k _
    have hk : (0 : Int) ≤ k * cycle := by positivity
    omega
  | succ n ih =>
    intro next hn
    unfold catchUp
    by_cases hlt : next < limit
    · rw [if_pos hlt]
      obtain ⟨h1, h2, h3⟩ := ih (next + cycle) (by omega)
      refine ⟨h1, by omega, ?_⟩
      intro k hk
      cases k with
      | zero =>
        simp only [Nat.cast_zero, zero_mul, add_zero] at hk
        omega
      | succ k =>
        have heq : next + ((k + 1 : ℕ) : Int) * cycle = next + cycle + k * cycle := by
          push_cast; ring
        rw [heq] at hk ⊢
        exact h3 k hk
    · rw [if_neg hlt]
      refine ⟨by omega, le_refl _, ?_⟩
      intro k _
      have hk : (0 : Int) ≤ k * cycle := by positivity
      omega

/-! ## One frame -/

/-- A call time that will not be behind the stop. -/
def Bounded (j : JobData) : Prop :=
  j.nextTics ≤ j.stopTics ∨ j.nextTics = maxLongLong

/-- A job that reschedules itself gives no call time behind its stop. -/
def OwnBounded (own : JobId → Int → Int) (c : ChildFrame) : Prop :=
  ∀ i ∈ c.thread.jobQueue.list, (c.jobs i).systemJobClass = true → ∀ t,
    own i t ≤ (c.jobs i).stopTics ∨ own i t = maxLongLong

/-- **The invariant** of the child, between two passes of a frame and between two frames. -/
structure AsyncInv (own : JobId → Int → Int) (c : ChildFrame) : Prop where
  own_bounded : OwnBounded own c
  bounded : ∀ i ∈ c.thread.jobQueue.list, Bounded (c.jobs i)
  before : ∀ call ∈ c.called, call.1 < c.thread.currTimeTics
  mem : ∀ call ∈ c.called, call.2 ∈ c.thread.jobQueue.list
  right : CallsRight c

theorem afterPass_bounded {own : JobId → Int → Int} {t : Int} {i : JobId} {j : JobData}
    (h : Bounded j) (hown : j.systemJobClass = true → ∀ t,
      own i t ≤ j.stopTics ∨ own i t = maxLongLong) : Bounded (afterPass own t i j) := by
  unfold Bounded
  rw [afterPass_stopTics]
  by_cases hc : j.systemJobClass = true ∧ j.Due t
  · rw [afterPass_of_system hc.1 hc.2]
    exact hown hc.1 t
  · unfold afterPass
    rw [if_neg hc]
    unfold JobData.visited JobData.reschedule
    by_cases hd : j.nextTics = t ∧ j.systemJobClass = false
    · rw [if_pos hd]
      simp only
      split
      · exact Or.inr rfl
      · exact Or.inl (by omega)
    · rw [if_neg hd]
      exact h

/-- **Step lemma**: a pass of the mini scheduler that moves the time on. -/
theorem AsyncInv.passed {own : JobId → Int → Int} {c : ChildFrame} (h : AsyncInv own c)
    (hnd : c.thread.jobQueue.list.Nodup) {time : Int} (hlt : c.thread.currTimeTics < time)
    (hmax : c.thread.currTimeTics < maxLongLong) : AsyncInv own (c.passed own time) := by
  have hafter : ∀ i ∈ c.thread.jobQueue.list,
      (c.passed own time).jobs i = afterPass own c.thread.currTimeTics i (c.jobs i) :=
    fun i hi => afterAll_of_mem hi
  have hstop : ∀ i ∈ c.thread.jobQueue.list,
      ((c.passed own time).jobs i).stopTics = (c.jobs i).stopTics := by
    intro i hi
    rw [hafter i hi, afterPass_stopTics]
  refine ⟨?_, ?_, ?_, ?_, ?_, ?_⟩
  · intro i hi hs t
    rw [hafter i hi, afterPass_systemJobClass] at hs
    rw [hstop i hi]
    exact h.own_bounded i hi hs t
  · intro i hi
    rw [hafter i hi]
    exact afterPass_bounded (h.bounded i hi) (h.own_bounded i hi)
  · rintro ⟨u, i⟩ hcall
    show u < time
    rcases List.mem_append.mp hcall with hold | hnew
    · exact lt_trans (h.before _ hold) hlt
    · rw [(mem_callsAt.mp hnew).1]; exact hlt
  · rintro ⟨u, i⟩ hcall
    rcases List.mem_append.mp hcall with hold | hnew
    · exact h.mem _ hold
    · exact (mem_callsAt.mp hnew).2.1
  · rintro ⟨u, i⟩ hcall
    rcases List.mem_append.mp hcall with hold | hnew
    · show u ≤ ((c.passed own time).jobs i).stopTics
      rw [hstop i (h.mem _ hold)]
      exact h.right.stops _ hold
    · -- a job that is called now is at its call time
      obtain ⟨hu, hi, hdue⟩ := mem_callsAt.mp hnew
      show u ≤ ((c.passed own time).jobs i).stopTics
      rw [hstop i hi, hu]
      have hnext := hdue.1
      rcases h.bounded i hi with hb | hb <;> omega
  · refine List.pairwise_append.mpr ⟨h.right.increasing, ?_, ?_⟩
    · refine List.Pairwise.imp ?_ (callsAt_order hnd)
      rintro a b (hlt' | ⟨-, hidx⟩) hab
      · exact hlt'
      · rw [hab] at hidx; exact absurd hidx (lt_irrefl _)
    · rintro a ha ⟨u, i⟩ hb _
      rw [(mem_callsAt.mp hb).1]
      exact h.before a ha

theorem AsyncInv.frame {own : JobId → Int → Int} {c : ChildFrame} (h : AsyncInv own c)
    (hr : c.Ready) (hlt : c.thread.currTimeTics < c.thread.amfNextTics)
    (hmax : c.thread.amfNextTics < maxLongLong) :
    AsyncInv own (c.frame own) ∧ (c.frame own).Ready ∧
      (c.frame own).thread.currTimeTics = (c.frame own).thread.amfNextTics ∧
      (c.frame own).thread.amfCycleTics = c.thread.amfCycleTics := by
  have hstep : ∀ (c' : ChildFrame) (time : Int), AsyncInv own c' ∧
      c'.thread.amfNextTics < maxLongLong ∧ c'.thread.amfCycleTics = c.thread.amfCycleTics →
      c'.Ready → c'.thread.currTimeTics < c'.thread.amfNextTics →
      Cached c'.thread.currTimeTics c'.thread.amfNextTics
        (afterAll own c'.thread.currTimeTics c'.thread.jobQueue.list c'.jobs)
        c'.thread.jobQueue.list time →
      AsyncInv own (c'.passed own time) ∧
        (c'.passed own time).thread.amfNextTics < maxLongLong ∧
        (c'.passed own time).thread.amfCycleTics = c.thread.amfCycleTics := by
    rintro c' time ⟨hinv, hm, hcyc⟩ hrc hc hcached
    obtain ⟨-, hgt⟩ := ChildFrame.passed_time hcached
    exact ⟨hinv.passed hrc.nodup (by omega) (by omega), hm, hcyc⟩
  obtain ⟨⟨hinv, -, hcyc⟩, hr', hend, hamf, -⟩ := ChildFrame.frameLoop_spec own
    (fun c' => AsyncInv own c' ∧ c'.thread.amfNextTics < maxLongLong ∧
      c'.thread.amfCycleTics = c.thread.amfCycleTics) hstep
    (c.thread.amfNextTics - c.thread.currTimeTics).toNat c ⟨h, hmax, rfl⟩ hr (le_of_lt hmax) hlt
    (by omega)
  exact ⟨hinv, hr', hend.trans hamf.symm, hcyc⟩

/-! ## A pass of the main thread -/

/-- The child between two passes of the main thread: its last frame has ended. -/
structure Between (own : JobId → Int → Int) (c : ChildFrame) : Prop where
  inv : AsyncInv own c
  ready : c.Ready
  cycle : 1 ≤ c.thread.amfCycleTics
  time : c.thread.currTimeTics ≤ c.thread.amfNextTics

/-- A job brought up to a frame that begins before its stop. -/
theorem catchUpJob_bounded {j : JobData} {start stop : Int} (hc : 1 ≤ j.cycleTics)
    (hb : Bounded j) (hstop : j.stopTics = stop) (hahead : j.nextTics < start →
      ∃ k : ℕ, start ≤ j.nextTics + k * j.cycleTics ∧ j.nextTics + k * j.cycleTics ≤ stop) :
    Bounded (catchUpJob start j) := by
  by_cases hlt : j.nextTics < start
  · obtain ⟨k, hk, hle⟩ := hahead hlt
    obtain ⟨-, -, hleast⟩ := catchUp_spec start hc _ j.nextTics (le_refl _)
    refine Or.inl (le_trans (hleast k hk) ?_)
    show _ ≤ j.stopTics
    rw [hstop]
    exact hle
  · have hsame : catchUpJob start j = j := by
      unfold catchUpJob
      have hfuel : (start - j.nextTics).toNat = 0 := by omega
      rw [hfuel]
      rfl
    rw [hsame]
    exact hb

theorem syncedNext_ge (c : ChildFrame) (p : MainPass) (hc : 1 ≤ c.thread.amfCycleTics) :
    c.thread.amfNextTics ≤ syncedNext c p := by
  unfold syncedNext
  split
  · exact (catchUp_spec _ hc _ _ (le_refl _)).2.1
  · exact le_refl _

/-- **Step lemma**: a pass of the main thread that brings no job behind its stop. -/
theorem Between.step {own : JobId → Int → Int} {c : ChildFrame} (h : Between own c) {p : MainPass}
    (hok : StopsAhead c p) : Between own (c.asyncPass own p) := by
  have hge := syncedNext_ge c p h.cycle
  have htime := h.time
  unfold ChildFrame.asyncPass
  by_cases hs : Starts c p
  · rw [if_pos hs]
    obtain ⟨hroom, hahead⟩ := hok
    have hahead := hahead hs
    -- the child as its frame begins
    have hstart : c.thread.amfNextTics ≤ p.timeTics := by rw [← hs.2]; exact hge
    have hframe : (c.asyncRelease p).thread.amfNextTics - (c.asyncRelease p).thread.amfCycleTics =
        p.timeTics := by
      show p.timeTics + c.thread.amfCycleTics - c.thread.amfCycleTics = p.timeTics
      omega
    have hjobs : ∀ i, catchUpJobs (c.asyncRelease p).jobs (c.asyncRelease p).thread i =
        if i ∈ c.thread.jobQueue.list ∧ p.disabled i = false then
          catchUpJob p.timeTics { c.jobs i with disabled := p.disabled i }
        else { c.jobs i with disabled := p.disabled i } := by
      intro i
      unfold catchUpJobs
      rw [hframe]
      rfl
    have hfields : ∀ i,
        (catchUpJobs (c.asyncRelease p).jobs (c.asyncRelease p).thread i).stopTics =
          (c.jobs i).stopTics ∧
        (catchUpJobs (c.asyncRelease p).jobs (c.asyncRelease p).thread i).cycleTics =
          (c.jobs i).cycleTics ∧
        (catchUpJobs (c.asyncRelease p).jobs (c.asyncRelease p).thread i).systemJobClass =
          (c.jobs i).systemJobClass := by
      intro i
      rw [hjobs i]
      split <;> exact ⟨rfl, rfl, rfl⟩
    have hinv : AsyncInv own { c.asyncRelease p with
        jobs := catchUpJobs (c.asyncRelease p).jobs (c.asyncRelease p).thread } := by
      refine ⟨?_, ?_, ?_, h.inv.mem, ?_, h.inv.right.increasing⟩
      · intro i hi hsys t
        have hsys : (catchUpJobs (c.asyncRelease p).jobs (c.asyncRelease p).thread i).systemJobClass
          = true := hsys
        rw [(hfields i).2.2] at hsys
        show own i t ≤ (catchUpJobs _ _ i).stopTics ∨ _
        rw [(hfields i).1]
        exact h.inv.own_bounded i hi hsys t
      · intro i hi
        have hi : i ∈ c.thread.jobQueue.list := hi
        show Bounded (catchUpJobs _ _ i)
        rw [hjobs i]
        have hb : Bounded { c.jobs i with disabled := p.disabled i } := h.inv.bounded i hi
        by_cases hen : p.disabled i = false
        · rw [if_pos ⟨hi, hen⟩]
          exact catchUpJob_bounded (h.ready.cycle i hi) hb rfl (hahead i hi hen)
        · rw [if_neg (fun hc => hen hc.2)]
          exact hb
      · intro call hcall
        show call.1 < p.timeTics
        have := h.inv.before call hcall
        omega
      · intro call hcall
        show call.1 ≤ (catchUpJobs _ _ call.2).stopTics
        rw [(hfields call.2).1]
        exact h.inv.right.stops call hcall
    have hready : ChildFrame.Ready { c.asyncRelease p with
        jobs := catchUpJobs (c.asyncRelease p).jobs (c.asyncRelease p).thread } := by
      refine ⟨h.ready.nodup, ?_⟩
      intro i hi
      show 1 ≤ (catchUpJobs _ _ i).cycleTics
      rw [(hfields i).2.1]
      exact h.ready.cycle i hi
    have hcycle := h.cycle
    have hlt : p.timeTics < p.timeTics + c.thread.amfCycleTics := by omega
    obtain ⟨hinv', hready', hend, hcyc⟩ := hinv.frame hready hlt hroom
    refine ⟨hinv', hready', ?_, le_of_eq hend⟩
    show 1 ≤ (ChildFrame.frame own _).thread.amfCycleTics
    rw [hcyc]
    exact hcycle
  · rw [if_neg hs]
    exact ⟨⟨h.inv.own_bounded, h.inv.bounded, h.inv.before, h.inv.mem, h.inv.right.stops,
      h.inv.right.increasing⟩, ⟨h.ready.nodup, h.ready.cycle⟩, h.cycle, le_trans htime hge⟩

/-! ## Runs -/

/-- **The calls are as they should be as long as no job that is behind a frame has only call times
    behind its stop**, whatever the child overruns. -/
theorem async_calls_right (own : JobId → Int → Int) (c : ChildFrame) (hstart : c.called = [])
    (hr : c.Ready) (hcycle : 1 ≤ c.thread.amfCycleTics)
    (htime : c.thread.currTimeTics ≤ c.thread.amfNextTics)
    (hbounded : ∀ i ∈ c.thread.jobQueue.list, Bounded (c.jobs i)) (hown : OwnBounded own c)
    (passes : List MainPass) (h : Guarded StopsAhead (ChildFrame.asyncPass own) c passes) :
    CallsRight (run (ChildFrame.asyncPass own) c passes) := by
  have hinv : AsyncInv own c := by
    refine ⟨hown, hbounded, ?_, ?_, ?_, ?_⟩
    · rw [hstart]; intro call hcall; exact (nomatch hcall)
    · rw [hstart]; intro call hcall; exact (nomatch hcall)
    · rw [hstart]; intro call hcall; exact (nomatch hcall)
    · rw [hstart]; exact List.Pairwise.nil
  have hstep : ∀ (c : ChildFrame) (p : MainPass), Between own c → StopsAhead c p →
      Between own (c.asyncPass own p) := by
    intro c p hb hok
    exact hb.step hok
  exact (Guarded.invariant hstep passes c ⟨hinv, hr, hcycle, htime⟩ h).inv.right

/-- A job of one tic that stops at 2, on a child of one tic. -/
def stopsAtTwo : ChildFrame where
  jobs := fun _ => { cycleTics := 1, stopTics := 2 }
  thread := { processType := .asyncChild, amfCycleTics := 1, jobQueue := { list := [0] } }

/-- The child starts at 0 and overruns until 2. -/
theorem async_calls_right_stopsAtTwo :
    CallsRight (run (ChildFrame.asyncPass fun _ t => t) stopsAtTwo
      [⟨0, true, fun _ => false⟩, ⟨1, false, fun _ => false⟩, ⟨2, true, fun _ => false⟩]) := by
  refine async_calls_right (fun _ t => t) stopsAtTwo rfl ⟨by decide, by decide⟩ (by decide)
    (by decide) ?_ ?_ _ ⟨⟨by decide, ?_⟩, ⟨by decide, ?_⟩, ⟨by decide, ?_⟩, trivial⟩
  · intro i hi
    obtain rfl : i = 0 := List.mem_singleton.mp hi
    exact Or.inl (by decide)
  · intro i hi hs
    obtain rfl : i = 0 := List.mem_singleton.mp hi
    exact absurd hs (by decide)
  · intro _ i hi _ hlt
    obtain rfl : i = 0 := List.mem_singleton.mp hi
    exact absurd hlt (by decide)
  · intro hs
    exact absurd hs (by decide)
  · -- the job is at 1, and its call time 2 is in time
    intro _ i hi _ _
    obtain rfl : i = 0 := List.mem_singleton.mp hi
    exact ⟨1, by decide, by decide⟩

/-- The child starts at 0 and overruns until 5: its job is brought up to 5 and called there. -/
theorem not_async_calls_right :
    ¬ ∀ passes, CallsRight (run (ChildFrame.asyncPass fun _ t => t) stopsAtTwo passes) := by
  intro h
  have hstops := (h [⟨0, true, fun _ => false⟩, ⟨5, true, fun _ => false⟩]).stops
  exact absurd (hstops (5, 0) (by decide)) (by decide)

end Trick.Exec
