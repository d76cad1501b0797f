/-
  The frame of a child thread that has a cycle: the mini scheduler of `Threads::thread_body`.

  Within a frame the child alone works on its queue, so the frame is a function here.

  1. Data.  `ChildFrame`: the jobs, the thread, and the calls made so far with the time of the
     child at each.
  2. Program.  `pass` is the body of the `do` loop, `frameLoop` the loop: it takes the next call
     time of the queue, clipped to the end of the frame, until the end is reached.  The jobs of the
     frame queues, which know no tics, are called before and after it and are left out.
  3. Result.  `pass_spec`: a pass at `t` calls the jobs due at `t` and ends at the first call time
     behind `t`, or at the end of the frame.  `frameLoop_spec` is the rule for what holds through a
     frame.
-/
import Trick.Executive.MultiThread
import Trick.Executive.QueueDrain

namespace Trick.Exec

open Trick.Lib

/-! ## The frame -/

/-- The child in its frame. -/
structure ChildFrame where
  jobs : JobHeap
  thread : Threads
  /-- The calls made so far, each with `curr_time_tics`. -/
  called : List (Int × JobId) := []

namespace ChildFrame

/-- The loop over the queue as a pass begins: the cursor back, the cached time at the end of the
    frame. -/
def startDrain (c : ChildFrame) : Drain where
  jobs := c.jobs
  queue := c.thread.jobQueue.resetCurrIndex.setNextJobCallTime c.thread.amfNextTics
  called := c.called

/-- `curr_time_tics = job_queue.get_next_job_call_time()`, behind the loop. -/
def advance (c : ChildFrame) (d : Drain) : ChildFrame :=
  let time := d.queue.getNextJobCallTime d.jobs
  let queue := d.queue.setNextJobCallTime time
  { jobs := d.jobs
    thread := { c.thread with jobQueue := queue, currTimeTics := time }
    called := d.called }

/-- The body of the `do` loop.  Each turn of the loop in it passes a job, so the turns are no more
    than the jobs and the last one. -/
def pass (own : JobId → Int → Int) (c : ChildFrame) : ChildFrame :=
  c.advance
    (c.startDrain.drain own c.thread.currTimeTics (c.thread.jobQueue.list.length + 1))

/-- `do … while ( curr_time_tics < amf_next_tics )`, for at most so many turns behind the first. -/
def frameLoop (own : JobId → Int → Int) : Nat → ChildFrame → ChildFrame
  | 0, c => c.pass own
  | n + 1, c =>
    let c' := c.pass own
    if c'.thread.currTimeTics < c'.thread.amfNextTics then frameLoop own n c' else c'

/-- The scheduled jobs of a frame.  Every turn moves the time on by a tic or more, so the tics of
    the frame are turns enough. -/
def frame (own : JobId → Int → Int) (c : ChildFrame) : ChildFrame :=
  c.frameLoop own (c.thread.amfNextTics - c.thread.currTimeTics).toNat

/-! ## The spec of a pass -/

/-- What the frames of a child need of it. -/
structure Ready (c : ChildFrame) : Prop where
  /-- A job is in the queue once. -/
  nodup : c.thread.jobQueue.list.Nodup
  /-- `check_all_job_cycle_times` leaves no job with a cycle below one tic. -/
  cycle : ∀ i ∈ c.thread.jobQueue.list, 1 ≤ (c.jobs i).cycleTics

/-- The child behind a pass, with its new time. -/
def passed (own : JobId → Int → Int) (time : Int) (c : ChildFrame) : ChildFrame where
  jobs := afterAll own c.thread.currTimeTics c.thread.jobQueue.list c.jobs
  thread :=
    { c.thread with
      jobQueue := { c.thread.jobQueue with
        currIndex := c.thread.jobQueue.list.length, nextJobTime := time }
      currTimeTics := time }
  called := c.called ++ callsAt c.thread.currTimeTics c.thread.jobQueue.list c.jobs

/-- **Spec of a pass.** -/
theorem pass_spec (own : JobId → Int → Int) {c : ChildFrame} (h : c.Ready)
    (ht : c.thread.currTimeTics < maxLongLong) :
    ∃ time, c.pass own = c.passed own time ∧
      Cached c.thread.currTimeTics c.thread.amfNextTics
        (afterAll own c.thread.currTimeTics c.thread.jobQueue.list c.jobs)
        c.thread.jobQueue.list time := by
  have hs : Split c.startDrain.queue [] c.thread.jobQueue.list := ⟨rfl, rfl, h.nodup⟩
  obtain ⟨time, hdrain, hcached⟩ := Drain.drain_spec own c.thread.amfNextTics ht _ c.startDrain []
    _ hs h.cycle (Nat.lt_succ_self _) (Cached.start _ _ _)
  refine ⟨time, ?_, hcached⟩
  unfold pass
  have hlen : c.startDrain.queue.list.length = c.thread.jobQueue.list.length := rfl
  rw [hdrain, hlen]
  unfold advance
  rw [Drain.callTime_passedOver own _ c.startDrain _ c.thread.jobQueue.list.length time (le_refl _)]
  rfl

theorem Ready.passed {own : JobId → Int → Int} {c : ChildFrame} (h : c.Ready) (time : Int) :
    (c.passed own time).Ready := by
  refine ⟨h.nodup, ?_⟩
  intro i hi
  have hi : i ∈ c.thread.jobQueue.list := hi
  show 1 ≤ (afterAll own _ _ c.jobs i).cycleTics
  rw [afterAll_of_mem hi, afterPass_cycleTics]
  exact h.cycle i hi

/-- The time after a pass: later, or the end of the frame, and never behind the end. -/
theorem passed_time {own : JobId → Int → Int} {c : ChildFrame} {time : Int}
    (h : Cached c.thread.currTimeTics c.thread.amfNextTics
      (afterAll own c.thread.currTimeTics c.thread.jobQueue.list c.jobs)
      c.thread.jobQueue.list time) :
    time ≤ c.thread.amfNextTics ∧ (c.thread.currTimeTics < time ∨ time = c.thread.amfNextTics) := by
  refine ⟨h.le_limit, ?_⟩
  rcases h.attained with heq | ⟨i, -, hlt, heq⟩
  · exact Or.inr heq
  · exact Or.inl (by rw [heq]; exact hlt)

/-- **Frame rule.**  What holds before the first pass, and is kept by every pass that begins before
    the end of the frame, holds at the end of the frame, which is the child's time then. -/
theorem frameLoop_spec (own : JobId → Int → Int) (Inv : ChildFrame → Prop)
    (hstep : ∀ c time, Inv c → c.Ready → c.thread.currTimeTics < c.thread.amfNextTics →
      Cached c.thread.currTimeTics c.thread.amfNextTics
        (afterAll own c.thread.currTimeTics c.thread.jobQueue.list c.jobs)
        c.thread.jobQueue.list time → Inv (c.passed own time)) :
    ∀ (n : Nat) (c : ChildFrame), Inv c → c.Ready → c.thread.amfNextTics ≤ maxLongLong →
      c.thread.currTimeTics < c.thread.amfNextTics →
      (c.thread.amfNextTics - c.thread.currTimeTics).toNat ≤ n + 1 →
      Inv (c.frameLoop own n) ∧ (c.frameLoop own n).Ready ∧
        (c.frameLoop own n).thread.currTimeTics = c.thread.amfNextTics ∧
        (c.frameLoop own n).thread.amfNextTics = c.thread.amfNextTics ∧
        (c.frameLoop own n).thread.jobQueue.list = c.thread.jobQueue.list := by
  intro n
  induction n with
  | zero =>
    intro c hinv hr hmax hlt hn
    obtain ⟨time, hpass, hcached⟩ := pass_spec own hr (by omega)
    obtain ⟨hle, hgt⟩ := passed_time hcached
    unfold frameLoop
    rw [hpass]
    refine ⟨hstep c time hinv hr hlt hcached, hr.passed time, ?_, rfl, rfl⟩
    show time = _
    omega
  | succ n ih =>
    intro c hinv hr hmax hlt hn
    obtain ⟨time, hpass, hcached⟩ := pass_spec own hr (by omega)
    obtain ⟨hle, hgt⟩ := passed_time hcached
    have hinv' := hstep c time hinv hr hlt hcached
    have hloop : c.frameLoop own (n + 1) =
        if time < c.thread.amfNextTics then (c.passed own time).frameLoop own n
        else c.passed own time := by
      rw [frameLoop, hpass]
      rfl
    rw [hloop]
    by_cases hmore : time < c.thread.amfNextTics
    · -- another pass
      rw [if_pos hmore]
      refine ih (c.passed own time) hinv' (hr.passed time) hmax hmore ?_
      show (c.thread.amfNextTics - time).toNat ≤ n + 1
      omega
    · rw [if_neg hmore]
      refine ⟨hinv', hr.passed time, ?_, rfl, rfl⟩
      show time = _
      omega

end ChildFrame

end Trick.Exec
