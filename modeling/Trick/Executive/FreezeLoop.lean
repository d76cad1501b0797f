/-
  The schedule of a freeze: `Executive::freeze_loop` and `init_freeze_scheduled`.

  1. Data.  `FreezeLoop`: the jobs, the freeze queue, the freeze clock, and the calls made in the
     freeze so far.
  2. Program.  `freeze` enters a freeze; `turn` is a pass of the inner loop while the clock is
     before the end of the freeze frame, and the end of the frame otherwise.  Which jobs are off is
     given for each tic of the freeze (`off`), and apart from that for its first moment.
  3. Specification.  `FreezeRight`: a cyclic job has been called once at each multiple of its cycle
     at which it was on, and never else; the inner loop ends; a freeze starts at tic 0.
  4. Result.  The inner loop keeps the schedule, also through the second pass that it makes at tic 0
     because the cached time is 0 in the first one.  `init_freeze_scheduled` walks the queue by
     `get_next_job`, which passes by the jobs that are off: such a job keeps the call time of the
     freeze before.  `InStep` says when that is the right one.
-/
import Trick.Executive.AmfFrame

namespace Trick.Exec

open Trick.Lib

/-! ## The loop -/

/-- A freeze. -/
structure FreezeLoop where
  jobs : JobHeap
  /-- `freeze_scheduled_queue` -/
  queue : ScheduledJobQueue
  freezeFrameTics : Int
  freezeTimeTics : Int := 0
  nextFreezeFrameCheckTics : Int := 0
  freezeFrameCount : Nat := 0
  /-- The jobs that are off at each tic of the freeze. -/
  off : Int → JobId → Bool := fun _ _ => false
  /-- The calls of the freeze so far. -/
  called : List (Int × JobId) := []

/-- A new freeze, or a turn of the loop. -/
inductive FreezeEvent where
  | freeze (offAtStart : JobId → Bool) (off : Int → JobId → Bool)
  | turn

/-- The jobs with those of `off` switched off, and the others on. -/
def JobHeap.switched (off : JobId → Bool) (jobs : JobHeap) : JobHeap :=
  fun i => { jobs i with disabled := off i }

namespace FreezeLoop

/-- `init_freeze_scheduled`; the call time is set of the jobs that `get_next_job` returns one after
    another. -/
def initFreezeScheduled (s : FreezeLoop) : FreezeLoop :=
  let queue := { s.queue with currIndex := s.queue.list.length, nextJobTime := 0 }
  { s with
    freezeTimeTics := 0
    freezeFrameCount := 0
    nextFreezeFrameCheckTics := s.freezeFrameTics
    queue := queue
    jobs := fun i =>
      if i ∈ s.queue.list ∧ (s.jobs i).disabled = false then { s.jobs i with nextTics := 0 }
      else s.jobs i }

/-- The inner loop over the queue begins. -/
def startDrain (s : FreezeLoop) : Drain where
  jobs := s.jobs.switched (s.off s.freezeTimeTics)
  queue := s.queue.resetCurrIndex
  called := s.called

/-- The freeze clock behind the inner loop: the next call time, or the end of the frame. -/
def nextTime (s : FreezeLoop) (d : Drain) : Int :=
  let time := d.queue.getNextJobCallTime d.jobs
  if s.nextFreezeFrameCheckTics < time then s.nextFreezeFrameCheckTics else time

/-- A pass at `freeze_time_tics`. -/
def pass (own : JobId → Int → Int) (s : FreezeLoop) : FreezeLoop :=
  let d := s.startDrain.drain own s.freezeTimeTics (s.queue.list.length + 1)
  let time := s.nextTime d
  { s with
    jobs := d.jobs
    queue := d.queue.setNextJobCallTime (time + s.freezeFrameTics)
    freezeTimeTics := time
    called := d.called }

/-- The end of a freeze frame. -/
def endFrame (s : FreezeLoop) : FreezeLoop :=
  { s with
    freezeFrameCount := s.freezeFrameCount + 1
    nextFreezeFrameCheckTics := s.nextFreezeFrameCheckTics + s.freezeFrameTics }

/-- One event. -/
def step (own : JobId → Int → Int) (s : FreezeLoop) : FreezeEvent → FreezeLoop
  | .freeze offAtStart off =>
    let s := { s with jobs := s.jobs.switched offAtStart, off := off, called := [] }
    s.initFreezeScheduled
  | .turn => if s.freezeTimeTics < s.nextFreezeFrameCheckTics then s.pass own else s.endFrame

end FreezeLoop

/-! ## The specification -/

/-- **The freeze so far as it should be.** -/
structure FreezeRight (own : JobId → Int → Int) (s : FreezeLoop) : Prop where
  calls : ∀ i ∈ s.queue.list, (s.jobs i).systemJobClass = false →
    ∀ u, 0 ≤ u → u < s.freezeTimeTics →
      s.called.count (u, i) = if s.off u i = false ∧ (s.jobs i).cycleTics ∣ u then 1 else 0
  /-- The inner loop of the frame ends. -/
  ends : ∃ n, (run (FreezeLoop.step own) s (List.replicate n .turn)).nextFreezeFrameCheckTics ≤
    (run (FreezeLoop.step own) s (List.replicate n .turn)).freezeTimeTics
  /-- The next freeze starts at 0. -/
  restarts : ∀ offAtStart off,
    (FreezeLoop.step own s (.freeze offAtStart off)).freezeTimeTics = 0 ∧
      (FreezeLoop.step own s (.freeze offAtStart off)).called = []

/-- `u` is `n` or some cycles behind it, from tic 0 on. -/
def Follows (cycle n u : Int) : Prop :=
  0 ≤ n ∧ n ≤ u ∧ cycle ∣ u - n

instance (cycle n u : Int) : Decidable (Follows cycle n u) :=
  inferInstanceAs (Decidable (_ ∧ _))

/-- **When a freeze keeps the schedule.**  A job that is off as it starts has a call time from which
    the tics at which it is on later are met just as from 0: so it is when the call time is 0, and
    when the job stays off.  The ends of the frames are tics that can be reached. -/
def InStep (s : FreezeLoop) : FreezeEvent → Prop
  | .freeze offAtStart off =>
    s.freezeFrameTics < maxLongLong ∧
    ∀ i ∈ s.queue.list, (s.jobs i).systemJobClass = false → offAtStart i = true →
      ∀ u, 0 ≤ u → u < maxLongLong → off u i = false →
        ((s.jobs i).cycleTics ∣ u ↔ Follows (s.jobs i).cycleTics (s.jobs i).nextTics u)
  | .turn => s.nextFreezeFrameCheckTics + s.freezeFrameTics < maxLongLong

/-- What the loop needs of the queue. -/
structure FreezeLoop.Ready (s : FreezeLoop) : Prop where
  nodup : s.queue.list.Nodup
  /-- `check_all_job_cycle_times` leaves no job with a cycle below one tic. -/
  cycle : ∀ i ∈ s.queue.list, 1 ≤ (s.jobs i).cycleTics
  /-- `add_jobs_to_queue` sets no stop time of a freeze job. -/
  stop : ∀ i ∈ s.queue.list, (s.jobs i).stopTics = maxLongLong

/-! ## One job through a freeze -/

/-- **One cyclic job** whose first call time was `first`, when the passes up to `bound` are done. -/
structure Upto (off : Int → JobId → Bool) (i : JobId) (first bound : Int) (j : JobData)
    (called : List (Int × JobId)) : Prop where
  once : ∀ u, 0 ≤ u → u < bound →
    called.count (u, i) = if off u i = false ∧ Follows j.cycleTics first u then 1 else 0
  none : ∀ u, bound ≤ u → called.count (u, i) = 0
  left : ∀ u, bound ≤ u → u < maxLongLong →
    (Follows j.cycleTics first u ↔
      bound ≤ j.nextTics ∧ j.nextTics ≤ u ∧ j.cycleTics ∣ u - j.nextTics)

theorem Upto.start (off : Int → JobId → Bool) (i : JobId) {first : Int} {j : JobData}
    (h : j.nextTics = first) : Upto off i first 0 j [] := by
  subst h
  refine ⟨?_, fun _ _ => rfl, fun _ _ _ => Iff.rfl⟩
  intro u h0 hu
  omega

/-- Behind tics at which nothing is due. -/
theorem Upto.skip {off : Int → JobId → Bool} {i : JobId} {first bound bound' : Int} {j : JobData}
    {called : List (Int × JobId)} (h : Upto off i first bound j called) (hle : bound ≤ bound')
    (hmax : bound' ≤ maxLongLong) (hnext : bound ≤ j.nextTics → bound' ≤ j.nextTics) :
    Upto off i first bound' j called := by
  refine ⟨?_, fun u hu => h.none u (by omega), ?_⟩
  · intro u h0 hu
    by_cases hb : u < bound
    · exact h.once u h0 hb
    · rw [h.none u (by omega), if_neg]
      rintro ⟨-, hf⟩
      obtain ⟨h1, h2, -⟩ := (h.left u (by omega) (by omega)).mp hf
      have := hnext h1
      omega
  · intro u hu hm
    rw [h.left u (by omega) hm]
    constructor
    · rintro ⟨h1, h2⟩; exact ⟨hnext h1, h2⟩
    · rintro ⟨h1, h2⟩; exact ⟨by omega, h2⟩

/-- The job behind a pass at `t`, with its switch at `t`. -/
def behind (own : JobId → Int → Int) (off : Int → JobId → Bool) (t : Int) (i : JobId) (j : JobData) :
    JobData :=
  afterPass own t i { j with disabled := off t i }

theorem behind_of_ne {own : JobId → Int → Int} {off : Int → JobId → Bool} {t : Int} {i : JobId}
    {j : JobData} (h : j.nextTics ≠ t) :
    behind own off t i j = { j with disabled := off t i } := by
  unfold behind
  exact afterPass_of_ne h

theorem behind_nextTics {own : JobId → Int → Int} {off : Int → JobId → Bool} {t : Int} {i : JobId}
    {j : JobData} (hs : j.systemJobClass = false) (hn : j.nextTics = t)
    (hstop : j.stopTics = maxLongLong) : (behind own off t i j).nextTics =
      if t + j.cycleTics > maxLongLong then maxLongLong else t + j.cycleTics := by
  have huser : behind own off t i j = JobData.visited t { j with disabled := off t i } := by
    unfold behind
    exact afterPass_of_user hs
  rw [huser]
  unfold JobData.visited JobData.reschedule
  rw [if_pos ⟨hn, hs⟩]
  simp only [hn, hstop]

@[simp] theorem behind_cycleTics (own : JobId → Int → Int) (off : Int → JobId → Bool) (t : Int)
    (i : JobId) (j : JobData) : (behind own off t i j).cycleTics = j.cycleTics := by
  unfold behind; simp

@[simp] theorem behind_stopTics (own : JobId → Int → Int) (off : Int → JobId → Bool) (t : Int)
    (i : JobId) (j : JobData) : (behind own off t i j).stopTics = j.stopTics := by
  unfold behind; simp

@[simp] theorem behind_systemJobClass (own : JobId → Int → Int) (off : Int → JobId → Bool) (t : Int)
    (i : JobId) (j : JobData) : (behind own off t i j).systemJobClass = j.systemJobClass := by
  unfold behind; simp

/-- **Step lemma**: the first pass at `t`. -/
theorem Upto.pass {own : JobId → Int → Int} {off : Int → JobId → Bool} {i : JobId} {first t : Int}
    {j : JobData} {called new : List (Int × JobId)} (h : Upto off i first t j called)
    (hs : j.systemJobClass = false) (hcycle : 1 ≤ j.cycleTics) (hstop : j.stopTics = maxLongLong)
    (ht : t < maxLongLong)
    (hnew : ∀ u, new.count (u, i) = if u = t ∧ j.nextTics = t ∧ off t i = false then 1 else 0) :
    Upto off i first (t + 1) (behind own off t i j) (called ++ new) ∧
      (behind own off t i j).nextTics ≠ t := by
  have hdue : Follows j.cycleTics first t ↔ j.nextTics = t := by
    rw [h.left t (le_refl t) ht]
    constructor
    · rintro ⟨h1, h2, -⟩; omega
    · intro hn; rw [hn]; exact ⟨le_refl t, le_refl t, by simp⟩
  refine ⟨⟨?_, ?_, ?_⟩, ?_⟩
  · intro u h0 hu
    rw [List.count_append, hnew, behind_cycleTics]
    by_cases hut : u = t
    · subst hut
      rw [h.none u (le_refl u), Nat.zero_add]
      refine if_congr ?_ rfl rfl
      rw [hdue]
      exact ⟨fun hc => ⟨hc.2.2, hc.2.1⟩, fun hc => ⟨rfl, hc.2, hc.1⟩⟩
    · rw [if_neg (fun hc => hut hc.1), Nat.add_zero]
      exact h.once u h0 (by omega)
  · intro u hu
    rw [List.count_append, hnew, if_neg (fun hc => absurd hc.1 (by omega)), Nat.add_zero]
    exact h.none u (by omega)
  · intro u hu hm
    rw [behind_cycleTics, h.left u (by omega) hm]
    by_cases hn : j.nextTics = t
    · rw [behind_nextTics hs hn hstop, hn]
      by_cases hbig : t + j.cycleTics > maxLongLong
      · -- the next call time is out of range, and so is every multiple of the cycle behind `t`
        rw [if_pos hbig]
        constructor
        · rintro ⟨-, -, hd⟩
          have := Int.le_of_dvd (by omega) hd
          omega
        · rintro ⟨-, h2, -⟩; omega
      · rw [if_neg hbig]
        have hsub : u - (t + j.cycleTics) = u - t - j.cycleTics := by ring
        rw [hsub]
        constructor
        · rintro ⟨-, -, hd⟩
          have := Int.le_of_dvd (by omega) hd
          exact ⟨by omega, by omega, dvd_sub_self_right.mpr hd⟩
        · rintro ⟨-, -, hd⟩
          exact ⟨le_refl t, by omega, dvd_sub_self_right.mp hd⟩
    · rw [behind_of_ne hn]
      constructor
      · rintro ⟨h1, h2⟩
        exact ⟨by show t + 1 ≤ j.nextTics; omega, h2⟩
      · rintro ⟨h1, h2⟩
        have h1 : t + 1 ≤ j.nextTics := h1
        exact ⟨by omega, h2⟩
  · by_cases hn : j.nextTics = t
    · rw [behind_nextTics hs hn hstop]
      split <;> omega
    · rw [behind_of_ne hn]
      exact hn

/-- A pass at a tic at which the job is not due: the second pass at tic 0. -/
theorem Upto.pass_again {own : JobId → Int → Int} {off : Int → JobId → Bool} {i : JobId}
    {first bound t : Int} {j : JobData} {called new : List (Int × JobId)}
    (h : Upto off i first bound j called) (hn : j.nextTics ≠ t)
    (hnew : ∀ u, new.count (u, i) = if u = t ∧ j.nextTics = t ∧ off t i = false then 1 else 0) :
    Upto off i first bound (behind own off t i j) (called ++ new) := by
  have hzero : ∀ u, (called ++ new).count (u, i) = called.count (u, i) := by
    intro u
    rw [List.count_append, hnew, if_neg (fun hc => hn hc.2.1), Nat.add_zero]
  rw [behind_of_ne hn]
  refine ⟨?_, ?_, h.left⟩
  · intro u h0 hu
    rw [hzero]
    exact h.once u h0 hu
  · intro u hu
    rw [hzero]
    exact h.none u hu

/-! ## The loop -/

/-- **The invariant of the loop.**  `first` is the call time of each job as the freeze started.  A
    cyclic job is before the pass at the freeze time, or, between the two passes at tic 0, behind
    the first one. -/
structure FreezeInv (s : FreezeLoop) (first : JobId → Int) : Prop where
  ready : s.Ready
  frame : (1 ≤ s.freezeFrameTics ∧ 0 ≤ s.freezeTimeTics ∧
      s.freezeTimeTics ≤ s.nextFreezeFrameCheckTics ∧ s.nextFreezeFrameCheckTics < maxLongLong) ∨
    (s.freezeFrameTics ≤ 0 ∧ s.freezeTimeTics = 0 ∧ s.nextFreezeFrameCheckTics ≤ 0)
  cached : s.queue.nextJobTime = s.freezeTimeTics + s.freezeFrameTics ∨
    s.freezeTimeTics = 0 ∧ s.queue.nextJobTime = 0
  jobs : ∀ i ∈ s.queue.list, (s.jobs i).systemJobClass = false →
    Upto s.off i (first i) s.freezeTimeTics (s.jobs i) s.called ∨
      Upto s.off i (first i) (s.freezeTimeTics + 1) (s.jobs i) s.called ∧
        (s.jobs i).nextTics ≠ s.freezeTimeTics
  inStep : ∀ i ∈ s.queue.list, (s.jobs i).systemJobClass = false →
    ∀ u, 0 ≤ u → u < maxLongLong → s.off u i = false →
      ((s.jobs i).cycleTics ∣ u ↔ Follows (s.jobs i).cycleTics (first i) u)

namespace FreezeLoop

variable {own : JobId → Int → Int} {s : FreezeLoop}

/-- The freeze behind a pass, with its new time. -/
def passed (own : JobId → Int → Int) (time : Int) (s : FreezeLoop) : FreezeLoop :=
  { s with
    jobs := afterAll own s.freezeTimeTics s.queue.list (s.jobs.switched (s.off s.freezeTimeTics))
    queue := { s.queue with
      currIndex := s.queue.list.length, nextJobTime := time + s.freezeFrameTics }
    freezeTimeTics := time
    called := s.called ++
      callsAt s.freezeTimeTics s.queue.list (s.jobs.switched (s.off s.freezeTimeTics)) }

/-- **Spec of a pass**: the time is the next call time, or the end of the frame. -/
theorem pass_spec (own : JobId → Int → Int) (h : s.Ready) (ht : s.freezeTimeTics < maxLongLong) :
    ∃ raw, s.pass own = s.passed own
        (if s.nextFreezeFrameCheckTics < raw then s.nextFreezeFrameCheckTics else raw) ∧
      Cached s.freezeTimeTics s.queue.nextJobTime
        (afterAll own s.freezeTimeTics s.queue.list (s.jobs.switched (s.off s.freezeTimeTics)))
        s.queue.list raw := by
  have hs : Split s.startDrain.queue [] s.queue.list := ⟨rfl, rfl, h.nodup⟩
  obtain ⟨raw, hdrain, hcached⟩ := Drain.drain_spec own s.queue.nextJobTime ht _ s.startDrain [] _ hs
    h.cycle (Nat.lt_succ_self _) (Cached.start _ _ _)
  refine ⟨raw, ?_, hcached⟩
  have hlen : s.startDrain.queue.list.length = s.queue.list.length := rfl
  have hcall := Drain.callTime_passedOver own s.freezeTimeTics s.startDrain s.queue.list
    s.queue.list.length raw (le_refl _)
  unfold pass nextTime
  rw [hdrain, hlen]
  simp only [hcall]
  rfl

theorem Ready.passed (h : s.Ready) (time : Int) : (s.passed own time).Ready := by
  have hafter : ∀ i ∈ s.queue.list, (s.passed own time).jobs i =
      behind own s.off s.freezeTimeTics i (s.jobs i) := fun i hi => afterAll_of_mem hi
  refine ⟨h.nodup, ?_, ?_⟩
  · intro i hi
    rw [hafter i hi, behind_cycleTics]
    exact h.cycle i hi
  · intro i hi
    rw [hafter i hi, behind_stopTics]
    exact h.stop i hi

end FreezeLoop

variable {s : FreezeLoop} {first : JobId → Int}

/-- One job through a pass: its next call time is behind the pass. -/
theorem FreezeInv.job_passed (own : JobId → Int → Int) (h : FreezeInv s first) (ht : s.freezeTimeTics < maxLongLong)
    (time : Int) {i : JobId} (hi : i ∈ s.queue.list) (hsys : (s.jobs i).systemJobClass = false) :
    Upto s.off i (first i) (s.freezeTimeTics + 1) ((s.passed own time).jobs i)
        (s.passed own time).called ∧
      ((s.passed own time).jobs i).nextTics ≠ s.freezeTimeTics := by
  have hafter : (s.passed own time).jobs i = behind own s.off s.freezeTimeTics i (s.jobs i) :=
    afterAll_of_mem hi
  have hnew : ∀ u, (callsAt s.freezeTimeTics s.queue.list
      (s.jobs.switched (s.off s.freezeTimeTics))).count (u, i) =
      if u = s.freezeTimeTics ∧ (s.jobs i).nextTics = s.freezeTimeTics ∧
        s.off s.freezeTimeTics i = false then 1 else 0 := by
    intro u
    exact count_callsAt h.ready.nodup hi
  rw [hafter]
  rcases h.jobs i hi hsys with hu | ⟨hu, hn⟩
  · exact hu.pass hsys (h.ready.cycle i hi) (h.ready.stop i hi) ht hnew
  · refine ⟨hu.pass_again hn hnew, ?_⟩
    rw [behind_of_ne hn]
    exact hn

/-- The turns of the inner loop that are left, twice over, and the second pass at tic 0. -/
def FreezeLoop.turnsLeft (s : FreezeLoop) : Nat :=
  2 * (s.nextFreezeFrameCheckTics - s.freezeTimeTics).toNat +
    if s.queue.nextJobTime = s.freezeTimeTics then 1 else 0

/-- **Step lemma**: a pass of the inner loop. -/
theorem FreezeInv.pass (own : JobId → Int → Int) (h : FreezeInv s first)
    (hlt : s.freezeTimeTics < s.nextFreezeFrameCheckTics) :
    FreezeInv (s.pass own) first ∧ (s.pass own).turnsLeft < s.turnsLeft := by
  have hframe := h.frame
  have hmax : s.freezeTimeTics < maxLongLong := by omega
  have hpos : 1 ≤ s.freezeFrameTics := by omega
  obtain ⟨raw, hpass, hcached⟩ := FreezeLoop.pass_spec own h.ready hmax
  rw [hpass]
  have hsame : ∀ time, ∀ i ∈ s.queue.list,
      (s.passed own time).jobs i = behind own s.off s.freezeTimeTics i (s.jobs i) :=
    fun time i hi => afterAll_of_mem hi
  have hinStep : ∀ time, ∀ i ∈ s.queue.list, ((s.passed own time).jobs i).systemJobClass = false →
      ∀ u, 0 ≤ u → u < maxLongLong → s.off u i = false →
        (((s.passed own time).jobs i).cycleTics ∣ u ↔
          Follows ((s.passed own time).jobs i).cycleTics (first i) u) := by
    intro time i hi hs
    rw [hsame time i hi, behind_systemJobClass] at hs
    rw [hsame time i hi, behind_cycleTics]
    exact h.inStep i hi hs
  have hsys : ∀ time, ∀ i ∈ s.queue.list, ((s.passed own time).jobs i).systemJobClass = false →
      (s.jobs i).systemJobClass = false := by
    intro time i hi hs
    rwa [hsame time i hi, behind_systemJobClass] at hs
  rcases h.cached with hc | ⟨h0, hc⟩
  · -- the cached time is behind the pass, so the clock moves on
    have hraw : s.freezeTimeTics < raw := by
      rcases hcached.attained with heq | ⟨i, -, hgt, heq⟩ <;> omega
    have htime : s.freezeTimeTics <
        (if s.nextFreezeFrameCheckTics < raw then s.nextFreezeFrameCheckTics else raw) ∧
        (if s.nextFreezeFrameCheckTics < raw then s.nextFreezeFrameCheckTics else raw) ≤ raw ∧
        (if s.nextFreezeFrameCheckTics < raw then s.nextFreezeFrameCheckTics else raw) ≤
          s.nextFreezeFrameCheckTics := by
      split <;> omega
    revert htime
    generalize (if s.nextFreezeFrameCheckTics < raw then s.nextFreezeFrameCheckTics else raw) = time
    rintro ⟨hgt, hle, hcheck⟩
    refine ⟨⟨h.ready.passed time, Or.inl ?_, Or.inl rfl, ?_, hinStep time⟩, ?_⟩
    · show 1 ≤ s.freezeFrameTics ∧ 0 ≤ time ∧ time ≤ s.nextFreezeFrameCheckTics ∧ _
      exact ⟨hpos, by omega, hcheck, by show s.nextFreezeFrameCheckTics < _; omega⟩
    · intro i hi hs
      obtain ⟨hu, hne⟩ := h.job_passed own hmax time hi (hsys time i hi hs)
      refine Or.inl (hu.skip (by show s.freezeTimeTics + 1 ≤ time; omega)
        (by show time ≤ maxLongLong; omega) ?_)
      intro hnext
      have := hcached.le_next i hi (by
        show s.freezeTimeTics < ((s.passed own time).jobs i).nextTics
        omega)
      show time ≤ _
      exact le_trans hle this
    · show 2 * (s.nextFreezeFrameCheckTics - time).toNat +
        (if time + s.freezeFrameTics = time then 1 else 0) < s.turnsLeft
      unfold FreezeLoop.turnsLeft
      rw [if_neg (by omega), if_neg (by omega)]
      omega
  · -- the first pass at tic 0: the cached time is 0, and the clock stays
    have hraw : raw = 0 := by
      have hle := hcached.le_limit
      rcases hcached.attained with heq | ⟨i, -, hgt, heq⟩ <;> omega
    subst hraw
    rw [if_neg (by omega)]
    refine ⟨⟨h.ready.passed 0, Or.inl ?_, Or.inl rfl, ?_, hinStep 0⟩, ?_⟩
    · show 1 ≤ s.freezeFrameTics ∧ (0 : Int) ≤ 0 ∧ 0 ≤ s.nextFreezeFrameCheckTics ∧ _
      exact ⟨hpos, le_refl _, by omega, by show s.nextFreezeFrameCheckTics < _; omega⟩
    · intro i hi hs
      have hjob := h.job_passed own hmax 0 hi (hsys 0 i hi hs)
      rw [h0] at hjob
      exact Or.inr hjob
    · show 2 * (s.nextFreezeFrameCheckTics - 0).toNat +
        (if 0 + s.freezeFrameTics = 0 then 1 else 0) < s.turnsLeft
      unfold FreezeLoop.turnsLeft
      rw [if_neg (by omega), h0, hc, if_pos rfl]
      omega

/-- The end of a freeze frame. -/
theorem FreezeInv.endFrame (h : FreezeInv s first)
    (hroom : s.nextFreezeFrameCheckTics + s.freezeFrameTics < maxLongLong) :
    FreezeInv s.endFrame first := by
  refine ⟨⟨h.ready.nodup, h.ready.cycle, h.ready.stop⟩, ?_, h.cached, h.jobs, h.inStep⟩
  show (1 ≤ s.freezeFrameTics ∧ 0 ≤ s.freezeTimeTics ∧
    s.freezeTimeTics ≤ s.nextFreezeFrameCheckTics + s.freezeFrameTics ∧
    s.nextFreezeFrameCheckTics + s.freezeFrameTics < maxLongLong) ∨
    (s.freezeFrameTics ≤ 0 ∧ s.freezeTimeTics = 0 ∧
      s.nextFreezeFrameCheckTics + s.freezeFrameTics ≤ 0)
  have := h.frame
  omega

/-- **A freeze starts** with the invariant: the first call time is 0, or that of a job that is off. -/
theorem freezeInv_start (own : JobId → Int → Int) (h : s.Ready) {offAtStart : JobId → Bool}
    {off : Int → JobId → Bool} (hok : InStep s (.freeze offAtStart off)) :
    FreezeInv (s.step own (.freeze offAtStart off))
      (fun i => if offAtStart i = true then (s.jobs i).nextTics else 0) := by
  obtain ⟨hroom, hstep⟩ := hok
  have hjob : ∀ i ∈ s.queue.list, (s.step own (.freeze offAtStart off)).jobs i =
      { s.jobs i with
        disabled := offAtStart i
        nextTics := if offAtStart i = true then (s.jobs i).nextTics else 0 } := by
    intro i hi
    show (if i ∈ s.queue.list ∧ offAtStart i = false then
      { s.jobs i with disabled := offAtStart i, nextTics := 0 }
      else { s.jobs i with disabled := offAtStart i }) = _
    cases hoff : offAtStart i with
    | false => rw [if_pos ⟨hi, rfl⟩]; rfl
    | true => rw [if_neg (fun hc => absurd hc.2 (by decide))]; rfl
  refine ⟨⟨h.nodup, ?_, ?_⟩, ?_, Or.inr ⟨rfl, rfl⟩, ?_, ?_⟩
  · intro i hi
    rw [hjob i hi]
    exact h.cycle i hi
  · intro i hi
    rw [hjob i hi]
    exact h.stop i hi
  · show (1 ≤ s.freezeFrameTics ∧ (0 : Int) ≤ 0 ∧ 0 ≤ s.freezeFrameTics ∧
      s.freezeFrameTics < maxLongLong) ∨ (s.freezeFrameTics ≤ 0 ∧ (0 : Int) = 0 ∧
      s.freezeFrameTics ≤ 0)
    omega
  · intro i hi _
    rw [hjob i hi]
    exact Or.inl (Upto.start off i rfl)
  · intro i hi hs u h0 hm hon
    rw [hjob i hi] at hs ⊢
    show (s.jobs i).cycleTics ∣ u ↔ Follows (s.jobs i).cycleTics
      (if offAtStart i = true then (s.jobs i).nextTics else 0) u
    cases hoff : offAtStart i with
    | true =>
      rw [if_pos rfl]
      exact hstep i hi hs hoff u h0 hm hon
    | false =>
      rw [if_neg (by decide)]
      unfold Follows
      rw [sub_zero]
      exact ⟨fun hd => ⟨le_refl _, h0, hd⟩, fun hd => hd.2.2⟩

/-! ## Runs -/

theorem step_turn (own : JobId → Int → Int) (hlt : s.freezeTimeTics < s.nextFreezeFrameCheckTics) :
    s.step own .turn = s.pass own := if_pos hlt

/-- **The invariant gives the specification.** -/
theorem FreezeInv.right (own : JobId → Int → Int) (h : FreezeInv s first) : FreezeRight own s := by
  have hframe := h.frame
  refine ⟨?_, ?_, fun _ _ => ⟨rfl, rfl⟩⟩
  · intro i hi hs u h0 hu
    have honce : s.called.count (u, i) =
        if s.off u i = false ∧ Follows (s.jobs i).cycleTics (first i) u then 1 else 0 := by
      rcases h.jobs i hi hs with hj | ⟨hj, -⟩
      · exact hj.once u h0 hu
      · exact hj.once u h0 (by omega)
    rw [honce]
    refine if_congr ?_ rfl rfl
    constructor
    · rintro ⟨hon, hf⟩
      exact ⟨hon, (h.inStep i hi hs u h0 (by omega) hon).mpr hf⟩
    · rintro ⟨hon, hd⟩
      exact ⟨hon, (h.inStep i hi hs u h0 (by omega) hon).mp hd⟩
  · -- the turns left go down with every pass
    have hinv : ∀ s, FreezeInv s first → ¬ s.nextFreezeFrameCheckTics ≤ s.freezeTimeTics →
        FreezeInv (s.step own .turn) first := by
      intro s hs hlt
      rw [step_turn own (not_le.mp hlt)]
      exact (hs.pass own (not_le.mp hlt)).1
    have hdown : ∀ s, FreezeInv s first → ¬ s.nextFreezeFrameCheckTics ≤ s.freezeTimeTics →
        (s.step own .turn).turnsLeft < s.turnsLeft := by
      intro s hs hlt
      rw [step_turn own (not_le.mp hlt)]
      exact (hs.pass own (not_le.mp hlt)).2
    obtain ⟨n, hend, -⟩ := exists_halted (measure FreezeLoop.turnsLeft).wf hinv hdown s h
    exact ⟨n, hend⟩

/-- **Step lemma.** -/
theorem FreezeInv.step (own : JobId → Int → Int) (h : FreezeInv s first) {e : FreezeEvent}
    (hok : InStep s e) : ∃ first', FreezeInv (s.step own e) first' := by
  cases e with
  | freeze offAtStart off => exact ⟨_, freezeInv_start own h.ready hok⟩
  | turn =>
    by_cases hlt : s.freezeTimeTics < s.nextFreezeFrameCheckTics
    · rw [step_turn own hlt]
      exact ⟨first, (h.pass own hlt).1⟩
    · have hend : s.step own .turn = s.endFrame := if_neg hlt
      rw [hend]
      exact ⟨first, h.endFrame hok⟩

/-- **Every freeze keeps the schedule while no job comes in with a call time out of step.** -/
theorem freeze_right (own : JobId → Int → Int) (s : FreezeLoop) (h : s.Ready)
    (offAtStart : JobId → Bool) (off : Int → JobId → Bool) (events : List FreezeEvent)
    (hg : Guarded InStep (FreezeLoop.step own) s (.freeze offAtStart off :: events)) :
    FreezeRight own (run (FreezeLoop.step own) s (.freeze offAtStart off :: events)) := by
  obtain ⟨hfirst, hrest⟩ := hg
  have hstep : ∀ (s : FreezeLoop) (e : FreezeEvent), (∃ first, FreezeInv s first) → InStep s e →
      ∃ first, FreezeInv (s.step own e) first := by
    rintro s e ⟨first, hs⟩ hok
    exact hs.step own hok
  obtain ⟨first, hinv⟩ := Guarded.invariant hstep events _
    ⟨_, freezeInv_start own h hfirst⟩ hrest
  exact hinv.right own

/-- One job of one tic, and freeze frames of two. -/
def everyTic : FreezeLoop where
  jobs := fun _ => { cycleTics := 1, stopTics := maxLongLong }
  queue := { list := [0] }
  freezeFrameTics := 2

/-- A freeze of one frame in which the job is off at tic 1. -/
theorem freeze_right_everyTic :
    FreezeRight (fun _ t => t) (run (FreezeLoop.step fun _ t => t) everyTic
      [.freeze (fun _ => false) (fun u _ => decide (u = 1)), .turn, .turn, .turn]) := by
  refine freeze_right (fun _ t => t) everyTic ⟨by decide, by decide, by decide⟩ _ _ _
    ⟨⟨by decide, ?_⟩, ?_, ?_, ?_, trivial⟩
  · intro i _ _ hoff
    exact absurd hoff Bool.false_ne_true
  · show _ < maxLongLong
    decide
  · show _ < maxLongLong
    decide
  · show _ < maxLongLong
    decide

/-- After a frame the job is at 2.  It is off as the next freeze starts, and on from tic 1: the
    call at 1 is missing. -/
theorem not_freeze_right :
    ¬ ∀ events, FreezeRight (fun _ t => t) (run (FreezeLoop.step fun _ t => t) everyTic
      (.freeze (fun _ => false) (fun _ _ => false) :: events)) := by
  intro h
  have hcalls := (h [.turn, .turn, .turn,
    .freeze (fun _ => true) (fun u _ => decide (u < 1)), .turn, .turn, .turn]).calls
  exact absurd (hcalls 0 (by decide) (by decide) 1 (by decide) (by decide)) (by decide)

end Trick.Exec
