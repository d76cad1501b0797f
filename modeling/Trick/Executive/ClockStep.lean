/-
  The clock of the single threaded executive moves to the next tic at which something is due.

  `step_clockRun` is the step lemma for `ClockInv`, and `advance_isLeast` the result: in every run
  whose steps meet `ClockStepOk`, each `advance_sim_time` moves the clock to the least of the end of
  the frame, the terminate time and the call times later than the current tic.

  The condition leaves out the steps that spoil the cached call times.  `lateFreeze_run` is one: with
  `freeze_on_frame_boundary` set, the freeze job stays behind the advancing job with a call time
  that has passed, the candidate of the scheduled queue is thrown away, and the clock jumps to the
  end of the frame over every job that is due before.
-/
import Trick.Executive.ClockInvariant

namespace Trick.Exec.Executive

open Trick.Lib

variable {m : Mode} {a : JobId} {s : Executive}

/-! ## The condition on a step -/

/-- **The condition on a step**, besides `StepOk`: the commands of the called job meet theirs, a job
    that sets its own call time has not taken itself off its queue, and when the clock is advanced no
    job that was added to the input processor queue after its walk is due by now. -/
def ClockStepOk (s : Executive) (c : JobCall) : Prop :=
  match s.pc with
  | .freezeInit | .freezeLoop | .unfreeze => ClockCommandsOk s c.commands
  | .call q =>
    match (s.jobs s.currJob).code with
    | .user => ClockCommandsOk (s.logCall s.currJob) c.commands ∧
        (c.nextTics.isSome = true → q ∈ timedQueues →
          s.currJob ∈ (((s.logCall s.currJob).applyCommands c.commands).queue q).list)
    | .advanceSimTime =>
      ∀ j ∈ s.inputProcessorRunQueue.list.drop s.inputProcessorRunQueue.currIndex,
        s.timeTics < (s.jobs j).nextTics
    | _ => True
  | _ => True

theorem clockStepOk_iff (s : Executive) (c : JobCall) :
    (s.pc ∈ [Pc.freezeInit, .freezeLoop, .unfreeze] → ClockCommandsOk s c.commands) ∧
      (∀ q ∈ [LoopQueue.topOfFrame, .threadSync, .inputProcessorRun, .scheduled, .endOfFrame],
        s.pc = .call q →
          ((s.jobs s.currJob).code = .user →
            ClockCommandsOk (s.logCall s.currJob) c.commands ∧
              (c.nextTics.isSome = true → q ∈ timedQueues →
                s.currJob ∈ (((s.logCall s.currJob).applyCommands c.commands).queue q).list)) ∧
          ((s.jobs s.currJob).code = .advanceSimTime →
            ∀ j ∈ s.inputProcessorRunQueue.list.drop s.inputProcessorRunQueue.currIndex,
              s.timeTics < (s.jobs j).nextTics)) ↔ ClockStepOk s c := by
  have hall : ∀ q, q ∈ [LoopQueue.topOfFrame, .threadSync, .inputProcessorRun, .scheduled,
      .endOfFrame] := by intro q; cases q <;> simp
  unfold ClockStepOk
  constructor
  · rintro ⟨hfreeze, hcall⟩
    cases hpc : s.pc with
    | freezeInit => exact hfreeze (by simp [hpc])
    | freezeLoop => exact hfreeze (by simp [hpc])
    | unfreeze => exact hfreeze (by simp [hpc])
    | call q =>
      obtain ⟨huser, hadv⟩ := hcall q (hall q) hpc
      cases hcode : (s.jobs s.currJob).code with
      | user => exact huser hcode
      | advanceSimTime => exact hadv hcode
      | _ => trivial
    | _ => trivial
  · intro h
    refine ⟨fun hpc => ?_, fun q _ hpc => ⟨fun hcode => ?_, fun hcode => ?_⟩⟩
    · simp only [List.mem_cons, List.not_mem_nil, or_false] at hpc
      rcases hpc with hpc | hpc | hpc <;> rw [hpc] at h <;> exact h
    · rw [hpc] at h; simpa only [hcode] using h
    · rw [hpc] at h; simpa only [hcode] using h

instance (s : Executive) (c : JobCall) : Decidable (ClockStepOk s c) :=
  decidable_of_iff _ (clockStepOk_iff s c)

/-- The run has ended, is about to end because the clock was set back, or has the clock right. -/
def ClockRun (s : Executive) : Prop :=
  s.pc = .terminated ∨ ((s.pc = .find .scheduled ∨ s.pc = .passEnd) ∧ Doomed s) ∨
    (ClockInv s ∧ ∀ q, s.pc = .call q → (s.jobs s.currJob).code ≠ .user →
      s.currJob ∈ (s.queue q).list)

/-! ## Steps between the calls -/

/-- The loop goes on to a place where no job is called. -/
theorem ClockInv.goto (h : ClockInv s) {p : Pc} {e : SimCommand} {t : Nat}
    (hw : InputWalked { s with pc := p } → InputWalked s) (hp : ∀ q, p ≠ .call q) :
    ClockInv { s with pc := p, execCommand := e, frameCount := t } := by
  refine ⟨h.frame, ?_, h.input_cached, fun hw' => h.input_tracked (hw hw'), h.input_system,
    ⟨h.freeze.sorted, h.freeze.le_max, h.freeze.next, h.freeze.notMem⟩, ?_⟩
  · intro q hq
    have := h.held q hq
    cases q <;> exact this
  · intro q hq; exact absurd hq (hp q)

/-- The same, as a state of the run. -/
theorem ClockInv.goto_run (h : ClockInv s) {p : Pc} {e : SimCommand} {t : Nat}
    (hw : InputWalked { s with pc := p } → InputWalked s) (hp : ∀ q, p ≠ .call q) :
    ClockRun { s with pc := p, execCommand := e, frameCount := t } :=
  Or.inr (Or.inr ⟨h.goto hw hp, fun q hq => absurd hq (hp q)⟩)

/-- A queue whose jobs and cached time stay the same. -/
theorem ClockInv.setCursor (h : ClockInv s) {q : LoopQueue} {v : ScheduledJobQueue}
    (hl : v.list = (s.queue q).list) (hv : v.nextJobTime = (s.queue q).nextJobTime)
    (hwalk : InputWalked (s.setQueue q v) → InputWalked s)
    (hpassed : q = .inputProcessorRun → InputWalked s →
      v.currIndex ≤ s.inputProcessorRunQueue.currIndex) :
    ClockInv (s.setQueue q v) := by
  refine h.setQueue hv ?_ hwalk ?_ ?_ ?_ ?_
  · rintro _ (hfar | ⟨j, hj, _, hold⟩)
    · exact Or.inl hfar
    · exact Or.inr ⟨j, hl ▸ hj, hold⟩
  · rintro rfl hw j hj
    left
    rw [hl] at hj
    exact List.take_subset_take_left _ (hpassed rfl hw) hj
  · rintro rfl j hj
    exact h.input_system j (hl ▸ hj)
  · intro hf; exact hl ▸ hf
  · intro _ _ hc; exact hl ▸ hc

/-- Away from the walk over the scheduled queue only the place of the loop says how far the walk over
    the input processor queue is. -/
theorem inputWalked_setQueue (q : LoopQueue) (v : ScheduledJobQueue)
    (hf : s.pc ≠ .find .scheduled) (hc : s.pc ≠ .call .scheduled) :
    InputWalked (s.setQueue q v) ↔ InputWalked s := by
  have hpc : (s.setQueue q v).pc = s.pc := by cases q <;> rfl
  unfold InputWalked
  rw [hpc]
  split
  · rfl
  · rfl
  · exact absurd ‹_› hf
  · exact absurd ‹_› hc
  · rfl

/-- The start of a walk. -/
theorem ClockInv.startDrain (h : ClockInv s) {q : LoopQueue} (hf : s.pc ≠ .find .scheduled)
    (hc : s.pc ≠ .call .scheduled) (hsched : q = .scheduled → InputWalked s) :
    ClockInv (s.startDrain q) := by
  have hwalk := inputWalked_setQueue q (s.queue q).resetCurrIndex hf hc
  have hset := h.setCursor (v := (s.queue q).resetCurrIndex) rfl rfl hwalk.mp
    (fun _ _ => Nat.zero_le _)
  refine ⟨hset.frame, ?_, hset.input_cached, ?_, hset.input_system,
    ⟨hset.freeze.sorted, hset.freeze.le_max, hset.freeze.next, hset.freeze.notMem⟩, ?_⟩
  · intro q' hq'
    have := hset.held q' hq'
    cases q' <;> exact this
  · intro hw j hj
    cases q with
    | inputProcessorRun => cases hj
    | scheduled => exact hset.input_tracked (hwalk.mpr (hsched rfl)) j hj
    | _ => exact absurd hw id
  · intro q' hq'; cases hq'

theorem ClockInv.startDrain_run (h : ClockInv s) {q : LoopQueue} (hf : s.pc ≠ .find .scheduled)
    (hc : s.pc ≠ .call .scheduled) (hsched : q = .scheduled → InputWalked s) :
    ClockRun (s.startDrain q) := by
  refine Or.inr (Or.inr ⟨h.startDrain hf hc hsched, ?_⟩)
  intro q' hq'
  cases hq'

/-! ## The requests of a next job -/

/-- A job is about to be called. -/
theorem ClockInv.call_run (h : ClockInv s) {q : LoopQueue} {j : JobId}
    (htrack : InputWalked { s with currJob := j, pc := .call q } → ∀ i ∈ inputPassed s,
      s.timeTics < (s.jobs i).nextTics →
        s.inputProcessorRunQueue.nextJobTime ≤ (s.jobs i).nextTics)
    (hlt : j < s.numJobs) (hmem : j ∈ (s.queue q).list)
    (honly : ∀ q' ∈ timedQueues, q' ≠ q → j ∉ (s.queue q').list)
    (hdue : Tested s q j → (s.jobs j).nextTics ≤ s.timeTics) :
    ClockRun { s with currJob := j, pc := .call q } := by
  refine Or.inr (Or.inr ⟨⟨h.frame, ?_, h.input_cached, htrack, h.input_system,
    ⟨h.freeze.sorted, h.freeze.le_max, h.freeze.next, h.freeze.notMem⟩, ?_⟩, ?_⟩)
  · intro q hq
    have := h.held q hq
    cases q <;> exact this
  · intro q' hq'
    cases hq'
    refine ⟨hlt, ?_, fun _ => hdue⟩
    intro q' hq' hne
    have := honly q' hq' hne
    cases q' <;> exact this
  · intro q' hq' _
    cases hq'
    cases q <;> exact hmem

/-- What a search of a queue without call times leaves. -/
theorem nextJob_untimed_eq {q : LoopQueue} (hq : q ∉ timedQueues) :
    s.nextJob q =
      (((s.queue q).getNextJob s.jobs).1, s.setQueue q ((s.queue q).getNextJob s.jobs).2) := by
  cases q <;> first | rfl | exact absurd (by decide) hq

/-- What a search of the input processor queue leaves: its jobs reschedule themselves, so no job is
    changed. -/
theorem nextJob_input_eq (hwf : Wf s) (h : ClockInv s) :
    ∃ mid rest, s.inputProcessorRunQueue.list.drop s.inputProcessorRunQueue.currIndex = mid ++ rest ∧
      (s.nextJob .inputProcessorRun).2 = s.setQueue .inputProcessorRun
        { s.inputProcessorRunQueue with
          currIndex := s.inputProcessorRunQueue.currIndex + mid.length
          nextJobTime := trackAll s.timeTics mid s.jobs s.inputProcessorRunQueue.nextJobTime } ∧
      ∀ j, (s.nextJob .inputProcessorRun).1 = some j → j ∈ s.inputProcessorRunQueue.list ∧
        (s.jobs j).nextTics = s.timeTics := by
  have hnd : (s.inputProcessorRunQueue.list.drop s.inputProcessorRunQueue.currIndex).Nodup :=
    (hwf.nodup .inputProcessorRun).sublist (List.drop_sublist _ _)
  obtain ⟨mid, rest, hsplit, hidx, hjobs, htime, hres⟩ :=
    findNextJobLoop_spec s.timeTics _ s.jobs s.inputProcessorRunQueue.currIndex
      s.inputProcessorRunQueue.nextJobTime hnd
  have hmem : ∀ j ∈ mid, j ∈ s.inputProcessorRunQueue.list := by
    intro j hj
    exact List.mem_of_mem_drop (hsplit ▸ List.mem_append_left _ hj)
  have hsame : visitAll s.timeTics mid s.jobs = s.jobs := by
    funext j
    unfold visitAll
    split
    · exact JobData.visited_of_system (h.input_system j (hmem j ‹_›))
    · rfl
  refine ⟨mid, rest, hsplit, ?_, ?_⟩
  · unfold nextJob ScheduledJobQueue.findNextJob
    simp only
    show ({ s with jobs := _ } : Executive).setQueue .inputProcessorRun
      { s.inputProcessorRunQueue with currIndex := _, nextJobTime := _ } = _
    rw [show (s.queue .inputProcessorRun) = s.inputProcessorRunQueue from rfl, hidx, htime, hjobs,
      hsame]
  · intro j hj
    have hj' : (findNextJobLoop s.timeTics
        (s.inputProcessorRunQueue.list.drop s.inputProcessorRunQueue.currIndex) s.jobs
        s.inputProcessorRunQueue.currIndex s.inputProcessorRunQueue.nextJobTime).job = some j := hj
    rcases hres with ⟨hnone, _⟩ | ⟨pre, i, hmid, hsome, hdue, _⟩
    · rw [hnone] at hj'; cases hj'
    · rw [hsome] at hj'
      cases hj'
      exact ⟨hmem j (hmid ▸ by simp), hdue.1⟩

/-- **The walk over the input processor queue** keeps the clock right: the jobs passed are tracked,
    and a lowered cached time is held by one of them. -/
theorem ClockInv.scan_input (h : ClockInv s) (hpc : s.pc = .find .inputProcessorRun)
    {mid rest : List JobId}
    (hsplit : s.inputProcessorRunQueue.list.drop s.inputProcessorRunQueue.currIndex = mid ++ rest) :
    ClockInv (s.setQueue .inputProcessorRun
      { s.inputProcessorRunQueue with
        currIndex := s.inputProcessorRunQueue.currIndex + mid.length
        nextJobTime := trackAll s.timeTics mid s.jobs s.inputProcessorRunQueue.nextJobTime }) := by
  have hmem : ∀ j ∈ mid, j ∈ s.inputProcessorRunQueue.list := by
    intro j hj
    exact List.mem_of_mem_drop (hsplit ▸ List.mem_append_left _ hj)
  have hatt := trackAll_attained s.timeTics mid s.jobs s.inputProcessorRunQueue.nextJobTime
  have hvis : ∀ j ∈ mid, (s.jobs j).visited s.timeTics = s.jobs j :=
    fun j hj => JobData.visited_of_system (h.input_system j (hmem j hj))
  have hlow : trackAll s.timeTics mid s.jobs s.inputProcessorRunQueue.nextJobTime =
      s.inputProcessorRunQueue.nextJobTime ∨
      ∃ j ∈ mid, s.timeTics < (s.jobs j).nextTics ∧
        trackAll s.timeTics mid s.jobs s.inputProcessorRunQueue.nextJobTime =
          (s.jobs j).nextTics := by
    rcases hatt with he | ⟨j, hj, he, hle, hsys⟩
    · exact Or.inl he
    · rw [hvis j hj] at he
      refine Or.inr ⟨j, hj, ?_, he⟩
      have hne : (s.jobs j).nextTics ≠ s.timeTics := by
        intro hn
        have := hsys hn
        rw [h.input_system j (hmem j hj)] at this
        cases this
      omega
  refine ⟨h.frame, ?_, ?_, ?_, h.input_system,
    ⟨h.freeze.sorted, h.freeze.le_max, h.freeze.next, h.freeze.notMem⟩, ?_⟩
  · intro q hq
    by_cases hqi : q = .inputProcessorRun
    · subst hqi
      rcases hlow with he | ⟨j, hj, hlt, he⟩
      · -- the cached time is the old one
        rcases h.held _ hq with hfar | ⟨k, hk, hne, hlt, hle⟩
        · exact Or.inl (le_trans hfar (le_of_eq he.symm))
        · exact Or.inr ⟨k, hk, hne, hlt, le_trans hle (le_of_eq he.symm)⟩
      · exact Or.inr ⟨j, hmem j hj, by simp, hlt, le_of_eq he.symm⟩
    · have := h.held q hq
      cases q <;> first | exact this | exact absurd rfl hqi
  · show s.timeTics < trackAll _ _ _ _
    rcases hlow with he | ⟨j, _, hlt, he⟩
    · rw [he]; exact h.input_cached
    · rw [he]; exact hlt
  · intro _ j hj hn
    show trackAll _ _ _ _ ≤ (s.jobs j).nextTics
    have hj' : j ∈ inputPassed s ∨ j ∈ mid := by
      have hj' : j ∈ s.inputProcessorRunQueue.list.take
          (s.inputProcessorRunQueue.currIndex + mid.length) := hj
      rw [List.take_add, hsplit, List.take_left' rfl] at hj'
      exact List.mem_append.mp hj'
    rcases hj' with hin | hin
    · have hw : InputWalked s := by unfold InputWalked; rw [hpc]; trivial
      exact le_trans (trackAll_le _ _ _ _) (h.input_tracked hw j hin hn)
    · have hgt : s.timeTics < ((s.jobs j).visited s.timeTics).nextTics := by
        rw [hvis j hin]; exact hn
      have := trackAll_le_visited hin hgt s.inputProcessorRunQueue.nextJobTime
      rw [hvis j hin] at this
      exact this
  · intro q hq
    have hq' : s.pc = .call q := hq
    rw [hpc] at hq'
    cases hq'

/-- The request of the next job of a queue other than the scheduled one. -/
theorem find_other_clock (hwf : Wf s) (h : ClockInv s) {q : LoopQueue} (hq : q ≠ .scheduled)
    (hpc : s.pc = .find q) (hframe : q = .endOfFrame → s.timeTics = s.nextFrameCheckTics)
    (c : JobCall) : ClockRun (s.step c) := by
  have hnotc : s.pc ≠ .call .scheduled := by rw [hpc]; intro he; cases he
  have hnotf : s.pc ≠ .find .scheduled := by rw [hpc]; exact fun he => hq (Pc.find.inj he)
  -- the state after the request: the clock is right, and the job found is in the queue
  have hnext : ∃ v, (s.nextJob q).2 = s.setQueue q v ∧ v.list = (s.queue q).list ∧
      ClockInv (s.setQueue q v) ∧ ∀ j, (s.nextJob q).1 = some j →
        j ∈ (s.queue q).list ∧ (Tested s q j → (s.jobs j).nextTics ≤ s.timeTics) := by
    by_cases hqi : q = .inputProcessorRun
    · subst hqi
      obtain ⟨mid, rest, hsplit, heq, hres⟩ := nextJob_input_eq hwf h
      refine ⟨_, heq, rfl, h.scan_input hpc hsplit, ?_⟩
      intro j hj
      exact ⟨(hres j hj).1, fun _ => le_of_eq (hres j hj).2⟩
    · have hqt : q ∉ timedQueues := by
        cases q <;> first | exact absurd rfl hqi | exact absurd rfl hq | decide
      rw [nextJob_untimed_eq hqt]
      refine ⟨_, rfl, by simp, ?_, ?_⟩
      · refine h.setCursor (by simp) ?_ (inputWalked_setQueue q _ hnotf hnotc).mp
          (fun he => absurd he hqi)
        unfold ScheduledJobQueue.getNextJob
        split <;> rfl
      · intro j hj
        refine ⟨ScheduledJobQueue.getNextJob_mem hj, ?_⟩
        rintro (he | ⟨he, _⟩)
        · exact absurd he hqi
        · exact absurd he hq
  obtain ⟨v, heq, hl, hc, hres⟩ := hnext
  have hpcv : (s.setQueue q v).pc = .find q := by cases q <;> exact hpc
  have hnotc' : (s.setQueue q v).pc ≠ .call .scheduled := by rw [hpcv]; intro he; cases he
  have hnotf' : (s.setQueue q v).pc ≠ .find .scheduled := by
    rw [hpcv]; exact fun he => hq (Pc.find.inj he)
  unfold step
  rw [hpc]
  simp only
  generalize hn : s.nextJob q = r at *
  obtain ⟨o, s'⟩ := r
  simp only at heq hres
  subst heq
  cases o with
  | some j =>
    obtain ⟨hmem, hdue⟩ := hres j rfl
    refine hc.call_run ?_ ?_ ?_ ?_ ?_
    · intro hw
      refine hc.input_tracked ?_
      unfold InputWalked at hw ⊢
      rw [hpcv]
      cases q <;> first | exact hw | exact absurd rfl hq
    · have := hwf.below q j hmem
      cases q <;> exact this
    · rw [queue_setQueue_self, hl]; exact hmem
    · intro q' _ hne
      rw [queue_setQueue_of_ne s v hne]
      exact hwf.disjoint q q' hne.symm j hmem
    · cases q <;> exact hdue
  | none =>
    cases q with
    | topOfFrame =>
      exact (hc.goto (p := .find .topOfFrame) (e := s.execCommand) (t := s.frameCount + 1)
        (fun hw => hw.elim) (by intro q; simp)).startDrain_run (by simp) (by simp)
        (by simp)
    | threadSync =>
      refine Or.inr (Or.inr ⟨hc, ?_⟩)
      intro q' hq'
      have hq'' : (s.setQueue .threadSync v).pc = .call q' := hq'
      rw [hpcv] at hq''
      cases hq''
    | inputProcessorRun =>
      refine hc.startDrain_run hnotf' hnotc' (fun _ => ?_)
      unfold InputWalked; rw [hpcv]; trivial
    | scheduled => exact absurd rfl hq
    | endOfFrame =>
      have hgo := hc.goto (p := .freezeCheck) (e := s.execCommand) (t := s.frameCount)
        (fun hw => hw.elim) (by intro q; simp)
      refine Or.inr (Or.inr ⟨⟨?_, hgo.held, hgo.input_cached, hgo.input_tracked,
        hgo.input_system, ⟨hgo.freeze.sorted, hgo.freeze.le_max, hgo.freeze.next,
        hgo.freeze.notMem⟩, ?_⟩, ?_⟩)
      · -- the frame ends at the current tic
        show s.nextFrameCheckTics + s.softwareFrameTics ≤ s.timeTics + s.softwareFrameTics
        rw [hframe rfl]
      · intro q' hq'; cases hq'
      · intro q' hq'; cases hq'

/-- A job that is due later is the same after a visit. -/
theorem visitAll_of_later {t : Int} {l : List JobId} {jobs : JobHeap} {j : JobId}
    (h : t < (jobs j).nextTics) : visitAll t l jobs j = jobs j := by
  unfold visitAll
  split
  · exact JobData.visited_of_ne (Int.ne_of_gt h)
  · rfl

/-- The jobs of the input processor queue do not see the walk over the scheduled queue. -/
theorem ClockInv.tracked_scan (hwf : Wf s) (h : ClockInv s) (hw : InputWalked s)
    {mid rest : List JobId}
    (hsplit : s.jobQueue.list.drop s.jobQueue.currIndex = mid ++ rest) :
    ∀ j ∈ inputPassed s, s.timeTics < (Exec.visitAll s.timeTics mid s.jobs j).nextTics →
      s.inputProcessorRunQueue.nextJobTime ≤ (Exec.visitAll s.timeTics mid s.jobs j).nextTics := by
  intro j hj
  have hnot : j ∉ mid := by
    intro hm
    have hmain : j ∈ s.jobQueue.list :=
      List.mem_of_mem_drop (hsplit ▸ List.mem_append_left _ hm)
    exact hwf.disjoint .inputProcessorRun .scheduled (by decide) j (List.mem_of_mem_take hj) hmain
  rw [visitAll_of_notMem hnot]
  exact h.input_tracked hw j hj

/-- **The walk over the scheduled queue** keeps the clock right. -/
theorem ClockInv.scan_scheduled (hwf : Wf s) (h : ClockInv s) (hpc : s.pc = .find .scheduled)
    {mid rest : List JobId}
    (hsplit : s.jobQueue.list.drop s.jobQueue.currIndex = mid ++ rest) :
    ClockInv { s with
      jobs := Exec.visitAll s.timeTics mid s.jobs
      jobQueue := { s.jobQueue with
        currIndex := s.jobQueue.currIndex + mid.length
        nextJobTime := trackAll s.timeTics mid s.jobs s.jobQueue.nextJobTime } } := by
  have hmem : ∀ j ∈ mid, j ∈ s.jobQueue.list := by
    intro j hj
    exact List.mem_of_mem_drop (hsplit ▸ List.mem_append_left _ hj)
  have hlow : trackAll s.timeTics mid s.jobs s.jobQueue.nextJobTime = s.jobQueue.nextJobTime ∨
      ∃ j ∈ mid, s.timeTics < ((s.jobs j).visited s.timeTics).nextTics ∧
        trackAll s.timeTics mid s.jobs s.jobQueue.nextJobTime =
          ((s.jobs j).visited s.timeTics).nextTics := by
    rcases trackAll_attained s.timeTics mid s.jobs s.jobQueue.nextJobTime with
      he | ⟨j, hj, he, hle, hsys⟩
    · exact Or.inl he
    · refine Or.inr ⟨j, hj, ?_, he⟩
      by_cases hn : (s.jobs j).nextTics = s.timeTics
      · exact JobData.visited_gt hwf.time_lt (hwf.cycle j (hmem j hj) (hsys hn)) (hsys hn) hle
      · rw [JobData.visited_of_ne hn]; omega
  refine ⟨h.frame, ?_, h.input_cached, ?_, ?_, ⟨h.freeze.sorted, h.freeze.le_max, ?_,
    h.freeze.notMem⟩, ?_⟩
  · intro q hq
    have hkeep : ∀ k, s.timeTics < (s.jobs k).nextTics →
        Exec.visitAll s.timeTics mid s.jobs k = s.jobs k := fun k hk => visitAll_of_later hk
    unfold Held HeldWithout Holds
    simp only
    cases q with
    | scheduled =>
      rcases hlow with he | ⟨j, hj, hlt, he⟩
      · -- the cached time is the old one
        rcases h.held _ hq with hfar | ⟨k, hk, hne, hlt, hle⟩
        · exact Or.inl (le_trans hfar (le_of_eq he.symm))
        · refine Or.inr ⟨k, hk, hne, ?_⟩
          rw [hkeep k hlt]
          exact ⟨hlt, le_trans hle (le_of_eq he.symm)⟩
      · refine Or.inr ⟨j, hmem j hj, by simp, ?_⟩
        rw [visitAll_of_mem hj]
        exact ⟨hlt, le_of_eq he.symm⟩
    | inputProcessorRun =>
      rcases h.held _ hq with hfar | ⟨k, hk, hne, hlt, hle⟩
      · exact Or.inl hfar
      · refine Or.inr ⟨k, hk, hne, ?_⟩
        rw [hkeep k hlt]
        exact ⟨hlt, hle⟩
    | _ => exact absurd hq (by decide)
  · intro hw
    refine h.tracked_scan hwf ?_ hsplit
    unfold InputWalked at hw ⊢
    simp only [hpc] at hw ⊢
    omega
  · intro j hj
    exact (visitAll_field JobData.visited_systemJobClass _ _ _ j).trans (h.input_system j hj)
  · have hsame : Exec.visitAll s.timeTics mid s.jobs s.freezeJob = s.jobs s.freezeJob := by
      unfold Exec.visitAll
      split
      · exact JobData.visited_of_system hwf.freeze_system
      · rfl
    show (Exec.visitAll s.timeTics mid s.jobs s.freezeJob).nextTics ≤ _ ∨
      (Exec.visitAll s.timeTics mid s.jobs s.freezeJob).nextTics = _
    rw [hsame]
    exact h.freeze.next
  · intro q hq
    have hq' : s.pc = .call q := hq
    rw [hpc] at hq'
    cases hq'

/-- In the walk over the tail the cursor has passed the advancing job. -/
theorem cursor_of_tail (hwf : Wf s) (hl : Located s .tail) :
    s.jobQueue.list.idxOf s.advanceSimTimeJob < s.jobQueue.currIndex := by
  obtain ⟨W, Q, V, hz, hcur⟩ := hl
  rw [hz.idxOf_adv (hwf.nodup .scheduled), hcur, List.length_nil]
  omega

/-- In the walk over the head it has not. -/
theorem cursor_of_head (hwf : Wf s) (hl : Located s .head) :
    s.jobQueue.currIndex ≤ s.jobQueue.list.idxOf s.advanceSimTimeJob := by
  obtain ⟨P, W, Q, hz, hcur⟩ := hl
  rw [hz.idxOf_adv (hwf.nodup .scheduled), hcur]
  omega

/-- The request of the next scheduled job. -/
theorem find_scheduled_clock (hwf : Wf s) (hinv : PassInv s) (h : ClockInv s)
    (hpc : s.pc = .find .scheduled) (c : JobCall) : ClockRun (s.step c) := by
  obtain ⟨mid, rest, hsplit, hidx, hjobs, htime, hres⟩ :=
    findNextJobLoop_spec s.timeTics _ s.jobs s.jobQueue.currIndex s.jobQueue.nextJobTime
      hwf.nodup_drop
  have hc := h.scan_scheduled hwf hpc hsplit
  have hmem : ∀ j ∈ mid, j ∈ s.jobQueue.list := by
    intro j hj
    exact List.mem_of_mem_drop (hsplit ▸ List.mem_append_left _ hj)
  have hwalk : ∀ j, (s.nextJob .scheduled).1 = some j →
      s.jobQueue.currIndex + mid.length ≤ s.jobQueue.list.idxOf s.advanceSimTimeJob ∨
        j = s.advanceSimTimeJob → InputWalked s := by
    intro j hj hw
    unfold InputWalked
    rw [hpc]
    simp only
    unfold PassInv at hinv
    rw [hpc] at hinv
    rcases hinv with ⟨hl, _⟩ | ⟨hl, _⟩ | hd
    · exact cursor_of_head hwf hl
    · have hlt := cursor_of_tail hwf hl
      rcases (nextJob_tail hwf hl).2 with ⟨hnone, _⟩ | ⟨i, hi, hne, _⟩
      · rw [hnone] at hj; cases hj
      · rw [hi] at hj; cases hj
        rcases hw with hle | he
        · omega
        · exact absurd he hne
    · rw [(nextJob_doomed hwf hd).1] at hj; cases hj
  unfold step
  rw [hpc]
  simp only
  rw [nextJob_scheduled] at hwalk ⊢
  simp only at hwalk ⊢
  rw [hjobs, hidx, htime] at *
  rcases hres with ⟨hnone, _, _⟩ | ⟨pre, j, hmid, hsome, hdue, _⟩
  · rw [hnone]
    exact hc.goto_run (p := .passEnd) (e := s.execCommand) (t := s.frameCount)
      (fun hw => hw.elim) (by intro q; simp)
  · have hj : j ∈ mid := hmid ▸ by simp
    have hjl := hmem j hj
    rw [hsome]
    refine hc.call_run (q := .scheduled) ?_ (hwf.below .scheduled j hjl) hjl ?_ ?_
    · intro hw
      exact h.tracked_scan hwf (hwalk j hsome hw) hsplit
    · intro q' _ hne
      have := hwf.disjoint .scheduled q' hne.symm j hjl
      cases q' <;> exact this
    · rintro (he | ⟨_, hsys⟩)
      · cases he
      · have hsys' : (s.jobs j).systemJobClass = true :=
          (visitAll_field JobData.visited_systemJobClass _ _ _ j).symm.trans hsys
        show (Exec.visitAll s.timeTics mid s.jobs j).nextTics ≤ s.timeTics
        rw [visitAll_of_mem hj, JobData.visited_of_system hsys']
        exact le_of_eq hdue.1

/-! ## The calls -/

/-- **A called job takes the call time `n` and is tested.**  Before the call it was not due later, or
    `n` is the call time it had; if `n` is later, the job is still in its queue to hold it. -/
theorem ClockInv.setOwn_test (h : ClockInv s) {q : LoopQueue} (hpc : s.pc = .call q)
    (hq : q ∈ timedQueues) {j : JobId} {n : Int}
    (honly : ∀ q' ∈ timedQueues, q' ≠ q → j ∉ (s.queue q').list)
    (hold : s.timeTics < (s.jobs j).nextTics → n = (s.jobs j).nextTics)
    (hmem : s.timeTics < n → j ∈ (s.queue q).list)
    (hfrz : j = s.freezeJob → n = (s.jobs j).nextTics) :
    ClockInv { (s.setNextTics j n).setQueue q
      ((s.queue q).testNextJobCallTime { s.jobs j with nextTics := n } s.timeTics) with
        pc := .find q } := by
  obtain ⟨hle, hgt, htest, hres⟩ :=
    (s.queue q).testNextJobCallTime_spec { s.jobs j with nextTics := n } s.timeTics
  have hlist := ScheduledJobQueue.testNextJobCallTime_list { s.jobs j with nextTics := n }
    s.timeTics (s.queue q)
  have hcur := ScheduledJobQueue.testNextJobCallTime_currIndex { s.jobs j with nextTics := n }
    s.timeTics (s.queue q)
  generalize (s.queue q).testNextJobCallTime { s.jobs j with nextTics := n } s.timeTics = v at *
  have hjobs : ((s.setNextTics j n).setQueue q v).jobs =
      Function.update s.jobs j { s.jobs j with nextTics := n } := by cases q <;> rfl
  have htime : ((s.setNextTics j n).setQueue q v).timeTics = s.timeTics := by cases q <;> rfl
  have hqueue : ∀ q', Executive.queue { (s.setNextTics j n).setQueue q v with pc := .find q } q' =
      if q' = q then v else s.queue q' := by
    intro q'
    rw [show Executive.queue { (s.setNextTics j n).setQueue q v with pc := .find q } q' =
      ((s.setNextTics j n).setQueue q v).queue q' by cases q' <;> rfl, queue_setQueue]
    cases q' <;> rfl
  -- a job that is due later is not the one that takes a new call time
  have hkeep : ∀ k, s.timeTics < (s.jobs k).nextTics →
      (Function.update s.jobs j { s.jobs j with nextTics := n } k).nextTics =
        (s.jobs k).nextTics := by
    intro k hk
    by_cases hkj : k = j
    · subst hkj; rw [Function.update_self]; exact hold hk
    · rw [Function.update_of_ne hkj]
  refine ⟨?_, ?_, ?_, ?_, ?_, ⟨?_, ?_, ?_, ?_⟩, ?_⟩
  · cases q <;> exact h.frame
  · intro q' hq'
    have hframe : ((s.setNextTics j n).setQueue q v).softwareFrameTics = s.softwareFrameTics := by
      cases q <;> rfl
    unfold Held HeldWithout Holds
    rw [hqueue]
    simp only [hjobs, htime, hframe]
    have hheld := h.held q' hq'
    by_cases hqq : q' = q
    · subst hqq
      rw [if_pos rfl, hlist]
      rcases hres with he | ⟨hlt, he⟩
      · -- the cached time is the old one
        rw [he]
        rcases hheld with hfar | ⟨k, hk, hne, hlt, hkle⟩
        · exact Or.inl hfar
        · refine Or.inr ⟨k, hk, hne, ?_⟩
          rw [hkeep k hlt]
          exact ⟨hlt, hkle⟩
      · refine Or.inr ⟨j, hmem hlt, by simp, ?_⟩
        rw [Function.update_self]
        exact ⟨hlt, le_of_eq he.symm⟩
    · rw [if_neg hqq]
      rcases hheld with hfar | ⟨k, hk, hne, hlt, hkle⟩
      · exact Or.inl hfar
      · refine Or.inr ⟨k, hk, hne, ?_⟩
        rw [hkeep k hlt]
        exact ⟨hlt, hkle⟩
  · have hin := hqueue .inputProcessorRun
    show _ < (Executive.queue { (s.setNextTics j n).setQueue q v with pc := .find q }
      .inputProcessorRun).nextJobTime
    rw [hin]
    show ((s.setNextTics j n).setQueue q v).timeTics < _
    rw [htime]
    split
    · rename_i hqi
      subst hqi
      exact hgt h.input_cached
    · exact h.input_cached
  · intro hw k hk
    have hin := hqueue .inputProcessorRun
    have hwalk : InputWalked s := by
      unfold InputWalked at hw ⊢
      rw [hpc]
      cases q with
      | inputProcessorRun => trivial
      | scheduled =>
        left
        simp only at hw ⊢
        have hw' : v.currIndex ≤ v.list.idxOf s.advanceSimTimeJob := hw
        rw [hcur, hlist] at hw'
        exact hw'
      | _ => exact absurd hq (by decide)
    have hk' : k ∈ inputPassed s := by
      have hk' : k ∈ (Executive.queue { (s.setNextTics j n).setQueue q v with pc := .find q }
        .inputProcessorRun).list.take (Executive.queue
          { (s.setNextTics j n).setQueue q v with pc := .find q } .inputProcessorRun).currIndex := hk
      rw [hin] at hk'
      split at hk'
      · rename_i hqi
        subst hqi
        rw [hlist, hcur] at hk'
        exact hk'
      · exact hk'
    show ((s.setNextTics j n).setQueue q v).timeTics <
      (((s.setNextTics j n).setQueue q v).jobs k).nextTics →
      (Executive.queue { (s.setNextTics j n).setQueue q v with pc := .find q }
        .inputProcessorRun).nextJobTime ≤ (((s.setNextTics j n).setQueue q v).jobs k).nextTics
    rw [hin, hjobs, htime]
    by_cases hkj : k = j
    · subst hkj
      have hqi : LoopQueue.inputProcessorRun = q := by
        by_contra hne
        exact honly _ (by decide) hne (List.mem_of_mem_take hk')
      rw [if_pos hqi, Function.update_self]
      exact htest
    · rw [Function.update_of_ne hkj]
      intro hlt
      have := h.input_tracked hwalk k hk' hlt
      split
      · rename_i hqi
        subst hqi
        exact le_trans hle this
      · exact this
  · intro k hk
    have hin := hqueue .inputProcessorRun
    have hk' : k ∈ s.inputProcessorRunQueue.list := by
      have hk' : k ∈ (Executive.queue { (s.setNextTics j n).setQueue q v with pc := .find q }
        .inputProcessorRun).list := hk
      rw [hin] at hk'
      split at hk'
      · rename_i hqi
        subst hqi
        rw [hlist] at hk'
        exact hk'
      · exact hk'
    show (((s.setNextTics j n).setQueue q v).jobs k).systemJobClass = true
    rw [hjobs]
    by_cases hkj : k = j
    · subst hkj; rw [Function.update_self]; exact h.input_system k hk'
    · rw [Function.update_of_ne hkj]; exact h.input_system k hk'
  · cases q <;> exact h.freeze.sorted
  · cases q <;> exact h.freeze.le_max
  · have hnext : (((s.setNextTics j n).setQueue q v).jobs s.freezeJob).nextTics =
        (s.jobs s.freezeJob).nextTics := by
      rw [hjobs]
      by_cases hf : s.freezeJob = j
      · rw [hf, Function.update_self]; exact hfrz hf.symm
      · rw [Function.update_of_ne hf]
    have hf : ((s.setNextTics j n).setQueue q v).freezeJob = s.freezeJob ∧
        ((s.setNextTics j n).setQueue q v).freezeTimes = s.freezeTimes := by
      cases q <;> exact ⟨rfl, rfl⟩
    show (((s.setNextTics j n).setQueue q v).jobs
        ((s.setNextTics j n).setQueue q v).freezeJob).nextTics ≤ _ ∨
      (((s.setNextTics j n).setQueue q v).jobs
        ((s.setNextTics j n).setQueue q v).freezeJob).nextTics = _
    rw [hf.1, hnext]
    show _ ≤ ((s.setNextTics j n).setQueue q v).timeTics ∨
      _ = ((s.setNextTics j n).setQueue q v).freezeTimes.headD _
    rw [htime, hf.2]
    exact h.freeze.next
  · have hin := hqueue .inputProcessorRun
    show ((s.setNextTics j n).setQueue q v).freezeJob ∉ (Executive.queue
      { (s.setNextTics j n).setQueue q v with pc := .find q } .inputProcessorRun).list
    rw [hin, show ((s.setNextTics j n).setQueue q v).freezeJob = s.freezeJob by cases q <;> rfl]
    split
    · rename_i hqi
      subst hqi
      rw [hlist]
      exact h.freeze.notMem
    · exact h.freeze.notMem
  · intro q' hq'
    cases hq'

theorem testAfterCall_pos {q : LoopQueue} {j : JobId} (h : Tested s q j) :
    s.testAfterCall q j = s.setQueue q ((s.queue q).testNextJobCallTime (s.jobs j) s.timeTics) :=
  if_pos h

theorem testAfterCall_neg {q : LoopQueue} {j : JobId} (h : ¬ Tested s q j) :
    s.testAfterCall q j = s := if_neg h

/-- The walk goes on after a call whose commands have been carried out. -/
theorem ClockInv.afterCall (h : ClockInv s) {q : LoopQueue} (hpc : s.pc = .call q)
    (hheld : s.currJob = s.freezeJob → s.currJob ∈ (s.queue q).list) :
    ClockInv { s.testAfterCall q s.currJob with pc := .find q } := by
  have hc := h.current q hpc
  have hself : s.setNextTics s.currJob (s.jobs s.currJob).nextTics = s := by
    unfold setNextTics
    rw [Function.update_eq_self]
  by_cases ht : Tested s q s.currJob
  · have hq : q ∈ timedQueues := by
      rcases ht with rfl | ⟨rfl, _⟩ <;> decide
    rw [testAfterCall_pos ht]
    have := h.setOwn_test hpc hq (j := s.currJob) (n := (s.jobs s.currJob).nextTics) hc.only
      (fun _ => rfl) ?_ (fun _ => rfl)
    · rw [hself] at this
      exact this
    · intro hlt
      by_cases hf : s.currJob = s.freezeJob
      · exact hheld hf
      · have := hc.due hf ht
        omega
  · rw [testAfterCall_neg ht]
    refine h.goto (p := .find q) (e := s.execCommand) (t := s.frameCount) ?_ (by intro q'; simp)
    intro hw
    unfold InputWalked at hw ⊢
    rw [hpc]
    cases q <;> first | exact hw | exact Or.inl hw

/-- The walk goes on after the call of a job of the user that has set its own call time. -/
theorem ClockInv.afterCall_own (h : ClockInv s) {q : LoopQueue} (hpc : s.pc = .call q) {n : Int}
    (hsys : (s.jobs s.currJob).systemJobClass = true) (hf : s.currJob ≠ s.freezeJob)
    (hmem : q ∈ timedQueues → s.currJob ∈ (s.queue q).list) :
    ClockInv { (s.setNextTics s.currJob n).testAfterCall q s.currJob with pc := .find q } := by
  have hc := h.current q hpc
  have hself : (s.setNextTics s.currJob n).jobs s.currJob =
      { s.jobs s.currJob with nextTics := n } := Function.update_self ..
  by_cases hq : q ∈ timedQueues
  · have ht : Tested s q s.currJob := by
      cases q with
      | inputProcessorRun => exact Or.inl rfl
      | scheduled => exact Or.inr ⟨rfl, hsys⟩
      | _ => exact absurd hq (by decide)
    have hdue := hc.due hf ht
    have hset := h.setOwn_test hpc hq (j := s.currJob) (n := n) hc.only (fun hlt => by omega)
      (fun _ => hmem hq) (fun he => absurd he hf)
    have ht' : Tested (s.setNextTics s.currJob n) q s.currJob := by
      unfold Tested; rw [hself]; exact ht
    rw [testAfterCall_pos ht', hself]
    have hqueue : (s.setNextTics s.currJob n).queue q = s.queue q := by cases q <;> rfl
    rw [hqueue]
    exact hset
  · -- the job is in no timed queue
    have hnot : ∀ q' ∈ timedQueues, s.currJob ∉ (s.queue q').list := by
      intro q' hq'
      exact hc.only q' hq' (fun he => hq (he ▸ hq'))
    have hset : ClockInv (s.setNextTics s.currJob n) := by
      refine h.updateJob (l := s.freezeTimes) (e := s.execCommand)
        (d := { s.jobs s.currJob with nextTics := n }) rfl ?_ ?_ ?_
        (h.freeze.updateJob _ hf)
      · intro q' hq' hj _
        exact absurd hj (hnot q' hq')
      · intro _ hj
        exact absurd (List.mem_of_mem_take hj) (hnot .inputProcessorRun (by decide))
      · intro q' hpc' ht
        rw [hpc] at hpc'
        cases hpc'
        rcases ht with rfl | ⟨rfl, _⟩
        · exact absurd (by decide) hq
        · exact absurd (by decide) hq
    have ht : ¬ Tested (s.setNextTics s.currJob n) q s.currJob := by
      rintro (rfl | ⟨rfl, _⟩)
      · exact hq (by decide)
      · exact hq (by decide)
    rw [testAfterCall_neg ht]
    refine hset.goto (p := .find q) (e := s.execCommand) (t := s.frameCount) ?_ (by intro q'; simp)
    intro hw
    unfold InputWalked at hw
    cases q <;> first | exact hw.elim | exact absurd (by decide) hq

/-- **The call of a job** other than the advancing one. -/
theorem call_clock {q : LoopQueue} (h : Settled m a s) (hclock : ClockInv s)
    (hpc : s.pc = .call q) (hne : s.currJob ≠ s.advanceSimTimeJob)
    (hown : (s.jobs s.currJob).code ≠ .user → s.currJob ∈ (s.queue q).list) {c : JobCall}
    (hok : StepOk s c) (hcok : ClockStepOk s c) : ClockRun (s.callStep q c) := by
  have hlog : Clocked m a (s.logCall s.currJob) := by
    refine ⟨h.logCall _, ?_, ?_⟩
    · refine hclock.of_fields ⟨rfl, rfl, rfl, rfl, rfl, rfl, rfl, rfl, rfl⟩ rfl rfl ?_ rfl rfl
      intro q'; cases q' <;> rfl
    · show s.pc ≠ _
      rw [hpc]; intro he; cases he
  unfold callStep
  simp only
  split
  · exact Or.inl rfl
  refine Or.inr (Or.inr ⟨?_, fun q' hq' => by cases hq'⟩)
  unfold callJob runJobCode
  rw [show ((s.logCall s.currJob).jobs s.currJob).code = (s.jobs s.currJob).code from rfl]
  unfold ClockStepOk at hcok
  rw [hpc] at hcok
  cases hcode : (s.jobs s.currJob).code with
  | user =>
    simp only [hcode] at hcok ⊢
    have hcmd := applyCommands_clocked hlog (stepOk_user hpc hok hcode) hcok.1
    have hrun := sameRun_applyCommands (s.logCall s.currJob) c.commands
    have hf : s.currJob ≠ s.freezeJob := by
      intro he; rw [he] at hcode; exact h.wf.freeze_code hcode
    have hmem := hcok.2
    generalize (s.logCall s.currJob).applyCommands c.commands = s' at hcmd hrun hmem
    have hpc' : s'.pc = .call q := hrun.pc.trans hpc
    have hcurr : s.currJob = s'.currJob := hrun.currJob.symm
    have hf' : s'.currJob ≠ s'.freezeJob := by
      rw [hrun.currJob, hrun.freezeJob]; exact hf
    rw [hcurr] at hmem ⊢
    cases hnext : c.nextTics with
    | none => exact hcmd.clock.afterCall hpc' (fun he => absurd he hf')
    | some n =>
      simp only
      split
      · rename_i hsys
        exact hcmd.clock.afterCall_own hpc' hsys hf' (hmem (by rw [hnext]; rfl))
      · exact hcmd.clock.afterCall hpc' (fun he => absurd he hf')
  | advanceSimTime => exact absurd (h.wf.adv_only _ hcode) hne
  | schedFreezeToExecCommand b =>
    have hmem := hown (by rw [hcode]; intro he; cases he)
    have hs := hlog.clock.schedFreeze b
    have hrun : SameRun (s.logCall s.currJob)
        ((s.logCall s.currJob).schedFreezeToExecCommand b) := by
      unfold schedFreezeToExecCommand setNextTics
      simp only
      split_ifs <;> exact ⟨rfl, rfl, rfl, rfl, rfl, rfl, rfl, rfl, rfl⟩
    have hqueue : ((s.logCall s.currJob).schedFreezeToExecCommand b).queue q = s.queue q := by
      unfold schedFreezeToExecCommand setNextTics
      simp only
      split_ifs <;> cases q <;> rfl
    simp only
    generalize (s.logCall s.currJob).schedFreezeToExecCommand b = s' at hs hrun hqueue
    have hcurr : s.currJob = s'.currJob := hrun.currJob.symm
    rw [hcurr] at hmem ⊢
    exact hs.afterCall (hrun.pc.trans hpc) (fun _ => hqueue ▸ hmem)
  | asyncFreezeToExecCommand =>
    have hmem := hown (by rw [hcode]; intro he; cases he)
    have hs : ClockInv (s.logCall s.currJob).asyncFreezeToExecCommand ∧
        SameRun s (s.logCall s.currJob).asyncFreezeToExecCommand ∧
        (s.logCall s.currJob).asyncFreezeToExecCommand.queue q = s.queue q := by
      unfold asyncFreezeToExecCommand
      split
      · refine ⟨hlog.clock.of_fields ⟨rfl, rfl, rfl, rfl, rfl, rfl, rfl, rfl, rfl⟩ rfl rfl ?_ rfl rfl,
          ⟨rfl, rfl, rfl, rfl, rfl, rfl, rfl, rfl, rfl⟩, ?_⟩
        · intro q'; cases q' <;> rfl
        · cases q <;> rfl
      · exact ⟨hlog.clock, ⟨rfl, rfl, rfl, rfl, rfl, rfl, rfl, rfl, rfl⟩, by cases q <;> rfl⟩
    obtain ⟨hs, hrun, hqueue⟩ := hs
    simp only
    generalize (s.logCall s.currJob).asyncFreezeToExecCommand = s' at hs hrun hqueue
    have hcurr : s.currJob = s'.currJob := hrun.currJob.symm
    rw [hcurr] at hmem ⊢
    exact hs.afterCall (hrun.pc.trans hpc) (fun _ => hqueue ▸ hmem)

/-! ## The advance of the clock -/

/-- The call of the advancing job: its test changes nothing, since it is due at the new tic. -/
theorem callStep_advance_eq (hwf : Wf s) (hcurr : s.currJob = s.advanceSimTimeJob) (c : JobCall) :
    s.callStep .scheduled c =
      { (s.logCall s.currJob).advanceSimTime with pc := .find .scheduled } := by
  have hcode : (s.jobs s.currJob).code = .advanceSimTime := hcurr ▸ hwf.adv_code
  have hcall : s.callJob s.currJob c = (s.logCall s.currJob).advanceSimTime := by
    show (s.logCall s.currJob).runJobCode s.currJob c = _
    unfold runJobCode
    rw [show ((s.logCall s.currJob).jobs s.currJob).code = .advanceSimTime from hcode]
  have hret : s.returnOf s.currJob c = 0 := by
    unfold returnOf; rw [hcode]
  have hnext : ((s.logCall s.currJob).advanceSimTime.jobs s.currJob).nextTics =
      (s.logCall s.currJob).advanceSimTime.timeTics := by
    rw [hcurr]
    show (Function.update s.jobs s.advanceSimTimeJob _ s.advanceSimTimeJob).nextTics = _
    rw [Function.update_self]
    rfl
  have htest : (s.logCall s.currJob).advanceSimTime.testAfterCall .scheduled s.currJob =
      (s.logCall s.currJob).advanceSimTime := by
    generalize (s.logCall s.currJob).advanceSimTime = s' at hnext
    have hsame : (s'.queue .scheduled).testNextJobCallTime (s'.jobs s.currJob) s'.timeTics =
        s'.queue .scheduled := by
      unfold ScheduledJobQueue.testNextJobCallTime
      exact if_neg (fun h => by have := h.1; omega)
    unfold testAfterCall
    rw [hsame]
    split <;> rfl
  unfold callStep
  simp only
  rw [if_neg (by rw [hret]; simp), hcall, htest]

/-- **The call of the advancing job** leaves the clock right, or dooms the run. -/
theorem advance_clock (hwf : Wf s) (h : ClockInv s) (hadv : Advancing s)
    (hlate : ∀ j ∈ s.jobQueue.list.drop s.jobQueue.currIndex,
      (s.jobs j).systemJobClass = true → s.timeTics < (s.jobs j).nextTics) (c : JobCall) :
    ClockRun (s.callStep .scheduled c) := by
  obtain ⟨hwf', hrest⟩ := advance_step (s := s.logCall s.currJob) { hwf with } hadv hlate
  rw [callStep_advance_eq hwf hadv.1]
  rcases hrest with ⟨hloc, hlive⟩ | hdoom
  swap
  · exact Or.inr (Or.inl ⟨Or.inl rfl, hdoom⟩)
  have htime : s.timeTics < (s.logCall s.currJob).nextTimeTics := hlive.1
  have hfar := hwf.frame_pos
  refine Or.inr (Or.inr ⟨⟨?_, ?_, ?_, ?_, ?_, ⟨h.freeze.sorted, h.freeze.le_max, ?_,
    h.freeze.notMem⟩, fun q hq => by cases hq⟩, fun q hq => by cases hq⟩)
  · have := h.frame
    show s.nextFrameCheckTics ≤ (s.logCall s.currJob).nextTimeTics + s.softwareFrameTics
    omega
  · intro q hq
    left
    cases q with
    | inputProcessorRun => exact le_refl _
    | scheduled => exact le_refl _
    | _ => exact absurd hq (by decide)
  · show (s.logCall s.currJob).nextTimeTics <
      (s.logCall s.currJob).nextTimeTics + s.softwareFrameTics
    omega
  · -- the walk over the input processor queue is over
    intro hw
    have hcur := cursor_of_tail hwf' hloc
    have hle : (s.logCall s.currJob).advanceSimTime.jobQueue.currIndex ≤
        (s.logCall s.currJob).advanceSimTime.jobQueue.list.idxOf
          (s.logCall s.currJob).advanceSimTime.advanceSimTimeJob := hw
    omega
  · intro j hj
    show (Function.update s.jobs s.advanceSimTimeJob
      { s.jobs s.advanceSimTimeJob with nextTics := _ } j).systemJobClass = true
    by_cases hja : j = s.advanceSimTimeJob
    · rw [hja, Function.update_self]; exact hwf.adv_system
    · rw [Function.update_of_ne hja]; exact h.input_system j hj
  · show (Function.update s.jobs s.advanceSimTimeJob _ s.freezeJob).nextTics ≤
        (s.logCall s.currJob).nextTimeTics ∨
      (Function.update s.jobs s.advanceSimTimeJob _ s.freezeJob).nextTics = _
    rw [Function.update_of_ne hwf.freeze_ne]
    rcases h.freeze.next with hle | heq
    · left; omega
    · exact Or.inr heq

/-! ## The step and the run -/

/-- The condition on the advance of the clock. -/
theorem stepOk_advance (hpc : s.pc = .call .scheduled)
    (hcode : (s.jobs s.currJob).code = .advanceSimTime) {c : JobCall} (hok : StepOk s c) :
    ∀ j ∈ s.jobQueue.list.drop s.jobQueue.currIndex,
      (s.jobs j).systemJobClass = true → s.timeTics < (s.jobs j).nextTics := by
  unfold StepOk at hok
  rw [hpc] at hok
  simpa only [hcode] using hok

/-- Commands given between two passes keep the clock right. -/
theorem between_clock (hwf : Wf s) (hl : Located s .between) (h : ClockInv s)
    (hpc : s.pc ≠ .call .scheduled) (hfind : s.pc ≠ .find .scheduled) {cmds : List Command}
    (hok : CommandsOk s cmds) (hcok : ClockCommandsOk s cmds) :
    ClockInv (s.applyCommands cmds) :=
  (applyCommands_clocked (m := .between) (a := s.advanceSimTimeJob)
    ⟨⟨hwf, hl, hpc, rfl⟩, h, hfind⟩ hok hcok).clock

/-- The end of the pass. -/
theorem passEnd_clock (h : ClockInv s) (hpc : s.pc = .passEnd) : ClockRun s.passEndStep := by
  have hf : ∀ e t, ClockInv { s with pc := .passEnd, execCommand := e, frameCount := t } := by
    intro e t
    exact h.goto (p := .passEnd) (e := e) (t := t) (fun hw => hw.elim) (by intro q; simp)
  unfold passEndStep
  split
  · exact Or.inl rfl
  · simp only
    generalize hs' : (if s.execCommand = SimCommand.runCmd then
      { s with execCommand := SimCommand.noCmd } else s) = s'
    have h' : ClockInv s' ∧ s'.pc = .passEnd := by
      subst hs'
      split
      · have := hf .noCmd s.frameCount
        rw [← hpc] at this
        exact ⟨this, hpc⟩
      · exact ⟨h, hpc⟩
    clear hs'
    split
    · exact Or.inl rfl
    · split
      · exact h'.1.startDrain_run (by rw [h'.2]; simp) (by rw [h'.2]; simp) (by simp)
      · exact h'.1.goto_run (p := .freezeCheck) (e := s'.execCommand) (t := s'.frameCount)
          (fun hw => hw.elim) (by intro q; simp)

/-- A doomed run ends, and calls nothing before. -/
theorem doomed_clock (hwf : Wf s) (hpc : s.pc = .find .scheduled ∨ s.pc = .passEnd)
    (hd : Doomed s) (c : JobCall) : ClockRun (s.step c) := by
  rcases hpc with hpc | hpc
  · obtain ⟨hnone, _, hd'⟩ := nextJob_doomed hwf hd
    unfold step
    rw [hpc]
    simp only
    generalize s.nextJob .scheduled = r at *
    obtain ⟨o, s'⟩ := r
    simp only at hnone hd'
    subst hnone
    exact Or.inr (Or.inl ⟨Or.inr rfl, hd'⟩)
  · left
    unfold step
    rw [hpc]
    simp only
    unfold passEndStep
    split
    · rfl
    · simp only
      generalize hs' : (if s.execCommand = SimCommand.runCmd then
        { s with execCommand := SimCommand.noCmd } else s) = s'
      have hterm : s'.terminateTime ≤ s'.timeLastPassTics := by
        subst hs'; split <;> exact hd.1
      rw [if_pos hterm]

/-- **The step lemma.** -/
theorem step_clockRun {c : JobCall} (hinv : RunInv s) (h : ClockRun s) (hok : StepOk s c)
    (hcok : ClockStepOk s c) : ClockRun (s.step c) := by
  have hended : s.pc = .terminated → ClockRun (s.step c) := by
    intro hpc
    left
    unfold step
    rw [hpc]
    exact hpc
  rcases hinv with hterm | ⟨hwf, hpass⟩
  · exact hended hterm
  rcases h with hterm | ⟨hpc, hd⟩ | ⟨hc, hown⟩
  · exact hended hterm
  · exact doomed_clock hwf hpc hd c
  have hpass0 := hpass
  have hok0 := hok
  have hcok0 := hcok
  unfold PassInv at hpass
  unfold StepOk at hok
  unfold ClockStepOk at hcok
  cases hpc : s.pc with
  | freezeCheck =>
    unfold step
    rw [hpc]
    simp only
    split
    · exact hc.goto_run (p := .freezeInit) (e := .noCmd) (t := s.frameCount) (fun hw => hw.elim)
        (by intro q; simp)
    · exact hc.goto_run (p := .frameStart) (e := s.execCommand) (t := s.frameCount)
        (fun hw => hw.elim) (by intro q; simp)
  | freezeInit =>
    rw [hpc] at hpass hok hcok
    have hcmd := between_clock hwf hpass.1 hc (by rw [hpc]; simp) (by rw [hpc]; simp) hok hcok
    unfold step
    rw [hpc]
    exact hcmd.goto_run (p := .freezeLoop) (e := (s.applyCommands c.commands).execCommand)
      (t := (s.applyCommands c.commands).frameCount) (fun hw => hw.elim) (by intro q; simp)
  | freezeLoop =>
    rw [hpc] at hpass hok hcok
    have hcmd := between_clock hwf hpass.1 hc (by rw [hpc]; simp) (by rw [hpc]; simp) hok hcok
    have hpc' : (s.applyCommands c.commands).pc = .freezeLoop :=
      (sameRun_applyCommands s c.commands).pc.trans hpc
    unfold step
    rw [hpc]
    simp only
    unfold freezeLoopTurn
    simp only
    generalize s.applyCommands c.commands = s' at hcmd hpc'
    split
    · exact Or.inl rfl
    · split
      · exact hcmd.goto_run (p := .unfreeze) (e := .noCmd) (t := s'.frameCount)
          (fun hw => hw.elim) (by intro q; simp)
      · have := hcmd.goto_run (p := .freezeLoop) (e := .noCmd) (t := s'.frameCount)
          (fun hw => hw.elim) (by intro q; simp)
        rw [← hpc'] at this
        exact this
      · exact Or.inl rfl
      · refine Or.inr (Or.inr ⟨hcmd, ?_⟩)
        intro q hq
        rw [hpc'] at hq; cases hq
  | unfreeze =>
    rw [hpc] at hpass hok hcok
    have hcmd := between_clock hwf hpass.1 hc (by rw [hpc]; simp) (by rw [hpc]; simp) hok hcok
    unfold step
    rw [hpc]
    exact hcmd.goto_run (p := .frameStart) (e := (s.applyCommands c.commands).execCommand)
      (t := (s.applyCommands c.commands).frameCount) (fun hw => hw.elim) (by intro q; simp)
  | frameStart =>
    unfold step
    rw [hpc]
    simp only
    split
    · exact hc.startDrain_run (by rw [hpc]; simp) (by rw [hpc]; simp) (by simp)
    · exact hc.startDrain_run (by rw [hpc]; simp) (by rw [hpc]; simp) (by simp)
  | find q =>
    by_cases hq : q = .scheduled
    · subst hq
      exact find_scheduled_clock hwf hpass0 hc hpc c
    · refine find_other_clock hwf hc hq hpc ?_ c
      rintro rfl
      rw [hpc] at hpass
      exact hpass.2
  | call q =>
    rw [hpc] at hpass
    have hstep : s.step c = s.callStep q c := by unfold step; rw [hpc]
    rw [hstep]
    by_cases hq : q = .scheduled
    · subst hq
      simp only at hpass
      rcases hpass with ⟨hloc, _, hne⟩ | hadv | ⟨hloc, _, hne⟩
      · exact call_clock (m := .head) ⟨hwf, hloc, hpc, rfl⟩ hc hpc hne (hown _ hpc) hok0 hcok0
      · exact advance_clock hwf hc hadv
          (stepOk_advance hpc (hadv.1 ▸ hwf.adv_code) hok0) c
      · exact call_clock (m := .tail) ⟨hwf, hloc, hpc, rfl⟩ hc hpc hne (hown _ hpc) hok0 hcok0
    · have hl : Located s .between ∧ s.currJob ≠ s.advanceSimTimeJob := by
        cases q <;> first | exact ⟨hpass.1, hpass.2.2⟩ | exact absurd rfl hq
      refine call_clock (m := .between) ⟨hwf, hl.1, ?_, rfl⟩ hc hpc hl.2 (hown _ hpc) hok0 hcok0
      show s.pc ≠ _
      rw [hpc]
      exact fun he => hq (Pc.call.inj he)
  | passEnd =>
    unfold step
    rw [hpc]
    exact passEnd_clock hc hpc
  | _ =>
    unfold step
    rw [hpc]
    exact Or.inr (Or.inr ⟨hc, hown⟩)

/-- The executive at the start of its run, with the clock right. -/
structure ClockStarted (s : Executive) : Prop where
  started : Started s
  clock : ClockInv s

/-- One tic a second and ten tics a frame. -/
theorem boot_second_clock : ClockInv (boot 1 10) := by
  have hnone : (boot 1 10).freezeTimes = [] := by decide +kernel
  refine ⟨by decide +kernel, ?_, by decide +kernel, fun hw => ?_, ?_, ⟨?_, ?_, ?_, ?_⟩, ?_⟩
  · intro q hq
    left
    cases q <;> first | exact absurd hq (by decide) | decide +kernel
  · have hpc : (boot 1 10).pc = .freezeCheck := by decide +kernel
    unfold InputWalked at hw
    rw [hpc] at hw
    exact hw.elim
  · decide +kernel
  · rw [hnone]; exact List.Pairwise.nil
  · rw [hnone]; intro t ht; cases ht
  · decide +kernel
  · decide +kernel
  · intro q hq
    have hpc : (boot 1 10).pc = .freezeCheck := by decide +kernel
    rw [hpc] at hq
    cases hq

/-- The clock of the booted executive is right. -/
theorem boot_clock {v frame : Int} (hv : 1 ≤ v) (hmax : frame ≤ maxLongLong) :
    ClockInv (boot v frame) := by
  have h := boot_second_clock
  have ht : (boot 1 10).timeTics = 0 := by decide +kernel
  rw [boot_reclock hv]
  refine ⟨?_, fun q hq => Or.inl ?_, h.input_cached, h.input_tracked, h.input_system,
    ⟨h.freeze.sorted, h.freeze.le_max, h.freeze.next, h.freeze.notMem⟩, fun q hq => ?_⟩
  · show frame ≤ (boot 1 10).timeTics + frame
    omega
  · -- nothing has been cached yet
    have hnone : ∀ q ∈ timedQueues, ((boot 1 10).queue q).nextJobTime = maxLongLong := by
      decide +kernel
    have hq' : (((boot 1 10).reclock v frame).queue q).nextJobTime = maxLongLong := by
      rw [← hnone q hq]; cases q <;> rfl
    rw [hq']
    show (boot 1 10).timeTics + frame ≤ maxLongLong
    omega
  · have hpc : (boot 1 10).pc = .call q := hq
    rw [boot_second_started.pc] at hpc
    cases hpc

/-- **A simulation with well landing objects** begins its run with the clock right. -/
theorem start_clockStarted {v frame T : Int} {objects : List SimObject} (hv : 1 ≤ v)
    (hframe : 1 ≤ frame) (hmax : frame ≤ maxLongLong) (hT : T < maxLongLong)
    (hok : CommandsOk (boot v frame) (objects.map .addSimObject))
    (hcok : ClockCommandsOk (boot v frame) (objects.map .addSimObject)) :
    ClockStarted (start v frame T objects) := by
  have hboot := boot_started hv hframe
  refine ⟨start_started hv hframe hT hok, ?_⟩
  have hset : Clocked .between (boot v frame).advanceSimTimeJob (boot v frame) := by
    refine ⟨⟨hboot.wf, hboot.located, ?_, rfl⟩, boot_clock hv hmax, ?_⟩
    · rw [Mode.At, hboot.pc]; decide
    · rw [hboot.pc]; decide
  have h := (applyCommands_clocked hset hok hcok).clock
  have heq : (boot v frame).applyCommands (objects.map .addSimObject) =
      objects.foldl addSimObject (boot v frame) := by
    unfold applyCommands
    rw [List.foldl_map]
    rfl
  rw [heq] at h
  refine h.of_fields ⟨rfl, rfl, rfl, rfl, rfl, rfl, rfl, rfl, rfl⟩ rfl rfl ?_ rfl rfl
  intro q; cases q <;> rfl

/-- **Run lemma.** -/
theorem run_clock {s : Executive} (hs : ClockStarted s) {is : List JobCall}
    (hok : Guarded StepOk step s is) (hcok : Guarded ClockStepOk step s is) :
    RunInv (run step s is) ∧ ClockRun (run step s is) := by
  have hstart : RunInv s ∧ ClockRun s := by
    refine ⟨hs.started.runInv, Or.inr (Or.inr ⟨hs.clock, ?_⟩)⟩
    intro q hq
    rw [hs.started.pc] at hq; cases hq
  have hstep : ∀ s c, RunInv s ∧ ClockRun s → StepOk s c → ClockStepOk s c →
      RunInv (step s c) ∧ ClockRun (step s c) := by
    rintro s c ⟨h, h'⟩ hok hcok
    exact ⟨step_runInv h hok, step_clockRun h h' hok hcok⟩
  exact Guarded.invariant_and hstep is s hstart hok hcok

/-! ## Where the clock goes -/

/-- The tics that the clock may not pass: the end of the frame, the terminate time, and the call
    times of the jobs of the two timed queues that are later than the current tic. -/
def Stops (s : Executive) : Set Int :=
  { n | n = s.nextFrameCheckTics ∨ n = s.terminateTime ∨
    ∃ j, (j ∈ s.jobQueue.list ∨ j ∈ s.inputProcessorRunQueue.list) ∧
      s.timeTics < n ∧ (s.jobs j).nextTics = n }

/-- The candidate of a queue, when the cached time is held and later than the current tic, what was
    passed is tracked, and what was not passed is due later. -/
theorem candidate_spec (q : LoopQueue) (passed rest : List JobId)
    (hheld : Held s q) (hcached : s.timeTics < (s.queue q).nextJobTime)
    (hrest : (s.queue q).list.drop (s.queue q).currIndex = rest)
    (hpassed : ∀ j ∈ passed, s.timeTics < (s.jobs j).nextTics →
      (s.queue q).nextJobTime ≤ (s.jobs j).nextTics)
    (hlater : ∀ j ∈ rest, s.timeTics < (s.jobs j).nextTics)
    (hmem : ∀ j ∈ (s.queue q).list, s.timeTics < (s.jobs j).nextTics → j ∈ passed ∨ j ∈ rest)
    (hsub : ∀ j ∈ rest, j ∈ (s.queue q).list) :
    s.timeTics < (s.queue q).getNextJobCallTime s.jobs ∧
      (∀ j ∈ (s.queue q).list, s.timeTics < (s.jobs j).nextTics →
        (s.queue q).getNextJobCallTime s.jobs ≤ (s.jobs j).nextTics) ∧
      (s.timeTics + s.softwareFrameTics ≤ (s.queue q).getNextJobCallTime s.jobs ∨
        ∃ j ∈ (s.queue q).list, (s.jobs j).nextTics = (s.queue q).getNextJobCallTime s.jobs) := by
  unfold ScheduledJobQueue.getNextJobCallTime
  rw [hrest]
  obtain ⟨hle, hall, hatt⟩ :=
    ScheduledJobQueue.scanCallTime_spec s.jobs rest (s.queue q).nextJobTime
  have hlow : ∀ j ∈ (s.queue q).list, s.timeTics < (s.jobs j).nextTics →
      ScheduledJobQueue.scanCallTime s.jobs rest (s.queue q).nextJobTime ≤ (s.jobs j).nextTics := by
    intro j hj hn
    rcases hmem j hj hn with hin | hin
    · exact le_trans hle (hpassed j hin hn)
    · exact hall j hin
  refine ⟨?_, hlow, ?_⟩
  · rcases hatt with he | ⟨j, hj, he⟩
    · rw [he]; exact hcached
    · rw [he]; exact hlater j hj
  · rcases hatt with he | ⟨j, hj, he⟩
    · -- the cached time itself: its holder is due exactly then
      rw [he]
      rcases hheld with hfar | ⟨j, hj, _, hlt, hjle⟩
      · exact Or.inl hfar
      · refine Or.inr ⟨j, hj, ?_⟩
        have := hlow j hj hlt
        omega
    · exact Or.inr ⟨j, hsub j hj, he.symm⟩

/-- **Where `advance_sim_time` moves the clock**, with the clock right. -/
theorem nextTimeTics_isLeast (hwf : Wf s) (h : ClockInv s) (hadv : Advancing s)
    (hpc : s.pc = .call .scheduled)
    (hlate : ∀ j ∈ s.jobQueue.list.drop s.jobQueue.currIndex,
      (s.jobs j).systemJobClass = true → s.timeTics < (s.jobs j).nextTics)
    (hinput : ∀ j ∈ s.inputProcessorRunQueue.list.drop s.inputProcessorRunQueue.currIndex,
      s.timeTics < (s.jobs j).nextTics) :
    IsLeast (Stops s) s.nextTimeTics := by
  obtain ⟨hcurr, hframe, P, Q, hz, hcur⟩ := hadv
  have hdrop := drop_advancing hz hcur
  rw [hdrop] at hlate
  have hw : InputWalked s := by unfold InputWalked; rw [hpc]; exact Or.inr hcurr
  obtain ⟨hm1, hm2, hm3⟩ := candidate_spec .scheduled P Q
    (h.held _ (by decide)) hz.cached hdrop hz.tracked
    (fun j hj => (getNextJobCallTime_bounds hz hcur hlate).2.2 j hj |>.1)
    (by
      intro j hj hn
      rcases (hz.mem_list j).mp hj with hin | hin | rfl | hin | hin
      · exact Or.inl hin
      · cases hin
      · rw [hz.adv_next] at hn; omega
      · exact Or.inr hin
      · cases hin)
    (fun j hj => (hz.mem_list j).mpr (by tauto))
  obtain ⟨hi1, hi2, hi3⟩ := candidate_spec .inputProcessorRun (inputPassed s) _
    (h.held _ (by decide)) h.input_cached rfl (h.input_tracked hw) hinput
    (by
      intro j hj _
      have : s.inputProcessorRunQueue.list = inputPassed s ++
        s.inputProcessorRunQueue.list.drop s.inputProcessorRunQueue.currIndex :=
        (List.take_append_drop _ _).symm
      exact List.mem_append.mp (this ▸ hj))
    (fun j hj => List.mem_of_mem_drop hj)
  have hfar := h.frame
  rw [nextTimeTics_eq hwf.threads_nil]
  simp only
  obtain ⟨g1, g2, _, g4⟩ := guardedTime_spec s.timeTics
    (s.jobQueue.getNextJobCallTime s.jobs) s.nextFrameCheckTics
  obtain ⟨k1, k2, _, k4⟩ := guardedTime_spec s.timeTics
    (s.inputProcessorRunQueue.getNextJobCallTime s.jobs)
    (guardedTime s.timeTics (s.jobQueue.getNextJobCallTime s.jobs) s.nextFrameCheckTics)
  have g5 := g2 hm1
  have k5 := k2 hi1
  generalize hmain : guardedTime s.timeTics (s.jobQueue.getNextJobCallTime s.jobs)
    s.nextFrameCheckTics = t₁ at *
  generalize hin : guardedTime s.timeTics
    (s.inputProcessorRunQueue.getNextJobCallTime s.jobs) t₁ = t₂ at *
  -- a candidate of a queue is a stop unless it is beyond the end of the frame
  have hstop₁ : t₁ ∈ Stops s := by
    rcases g4 with he | ⟨hlt, he⟩
    · exact Or.inl he
    · rcases hm3 with hge | ⟨j, hj, hje⟩
      · left
        have hge' : s.timeTics + s.softwareFrameTics ≤ s.jobQueue.getNextJobCallTime s.jobs := hge
        omega
      · exact Or.inr (Or.inr ⟨j, Or.inl hj, by rw [he]; exact hlt, by rw [he]; exact hje⟩)
  have hstop₂ : t₂ ∈ Stops s := by
    rcases k4 with he | ⟨hlt, he⟩
    · rw [he]; exact hstop₁
    · rcases hi3 with hge | ⟨j, hj, hje⟩
      · left
        have hge' : s.timeTics + s.softwareFrameTics ≤
          s.inputProcessorRunQueue.getNextJobCallTime s.jobs := hge
        omega
      · exact Or.inr (Or.inr ⟨j, Or.inr hj, by rw [he]; exact hlt, by rw [he]; exact hje⟩)
  constructor
  · split
    · exact Or.inr (Or.inl rfl)
    · exact hstop₂
  · rintro n (rfl | rfl | ⟨j, hj | hj, hlt, rfl⟩)
    · split <;> omega
    · split <;> omega
    · have : s.jobQueue.getNextJobCallTime s.jobs ≤ (s.jobs j).nextTics := hm2 j hj hlt
      split <;> omega
    · have : s.inputProcessorRunQueue.getNextJobCallTime s.jobs ≤ (s.jobs j).nextTics :=
        hi2 j hj hlt
      split <;> omega

/-- **No tic is jumped over.**  Each advance of the clock in a run whose steps meet their conditions
    goes to the least of the end of the frame, the terminate time and the later call times. -/
theorem advance_isLeast {s : Executive} (hs : ClockStarted s) (is : List JobCall) (c : JobCall)
    (hok : Guarded StepOk step s (is ++ [c])) (hcok : Guarded ClockStepOk step s (is ++ [c]))
    (hat : AtAdvance (run step s is)) :
    IsLeast (Stops (run step s is)) (run step s (is ++ [c])).timeTics := by
  obtain ⟨hok₁, hok₂, _⟩ := (guarded_append is s [c]).mp hok
  obtain ⟨hcok₁, hcok₂, _⟩ := (guarded_append is s [c]).mp hcok
  obtain ⟨hinv, hclock⟩ := run_clock hs hok₁ hcok₁
  rw [run_append]
  show IsLeast _ ((run step s is).step c).timeTics
  generalize run step s is = s' at *
  obtain ⟨hpc, hcode⟩ := hat
  rcases hinv with hterm | ⟨hwf, hpass⟩
  · rw [hpc] at hterm; cases hterm
  have hcurr := hwf.adv_only _ hcode
  have hadv : Advancing s' := by
    unfold PassInv at hpass
    rw [hpc] at hpass
    rcases hpass with ⟨_, _, hne⟩ | hadv | ⟨_, _, hne⟩
    · exact absurd hcurr hne
    · exact hadv
    · exact absurd hcurr hne
  have hc : ClockInv s' := by
    rcases hclock with hterm | ⟨hd, _⟩ | ⟨hc, _⟩
    · rw [hpc] at hterm; cases hterm
    · rw [hpc] at hd; rcases hd with hd | hd <;> cases hd
    · exact hc
  have hinput : ∀ j ∈ s'.inputProcessorRunQueue.list.drop s'.inputProcessorRunQueue.currIndex,
      s'.timeTics < (s'.jobs j).nextTics := by
    unfold ClockStepOk at hcok₂
    rw [hpc] at hcok₂
    simpa only [hcode] using hcok₂
  have hstep : s'.step c = s'.callStep .scheduled c := by unfold step; rw [hpc]
  rw [hstep, callStep_advance_eq hwf hcurr]
  exact nextTimeTics_isLeast hwf hc hadv hpc (stepOk_advance hpc hcode hok₂) hinput

/-- A sim object with one job that is due at every tic. -/
def ticObject : SimObject := .mk [{ id := 1, cycle := 1 }] [] []

/-- A simulation whose job asks at its first call for a freeze at tic 3. -/
def freezeAtFirstCall (onFrameBoundary : Bool) (n : Nat) : List JobCall :=
  List.replicate 5 idle ++
    { commands := [.setFreezeOnFrameBoundary onFrameBoundary, .freezeAt 3] } :: List.replicate n idle

/-- Without the frame boundary the clock goes from tic 1 to tic 2. -/
theorem advance_isLeast_freeze :
    IsLeast (Stops (run step (start 1 10 20 [ticObject]) (freezeAtFirstCall false 10)))
      (run step (start 1 10 20 [ticObject]) (freezeAtFirstCall false 10 ++ [idle])).timeTics :=
  advance_isLeast (start_clockStarted (by decide) (by decide) (by decide) (by decide)
    (by decide +kernel) (by decide +kernel)) _ idle
    (by decide +kernel) (by decide +kernel) (by decide +kernel)

/-- **The late freeze job.**  With the frame boundary, the freeze job still has call time 3 when the
    clock is advanced from tic 3; the clock goes to tic 10, though the job of the object is due at
    tic 4, and that job is never called again. -/
theorem lateFreeze_run :
    ClockStarted (start 1 10 20 [ticObject]) ∧
    AtAdvance (run step (start 1 10 20 [ticObject]) (freezeAtFirstCall true 30)) ∧
    ¬ IsLeast (Stops (run step (start 1 10 20 [ticObject]) (freezeAtFirstCall true 30)))
      (run step (start 1 10 20 [ticObject]) (freezeAtFirstCall true 30 ++ [idle])).timeTics ∧
    (let s := run step (start 1 10 20 [ticObject]) (freezeAtFirstCall true 30 ++ [idle])
     s.timeLastPassTics = 3 ∧ s.timeTics = 10 ∧ 4 ∈ s.jobQueue.list ∧ (s.jobs 4).nextTics = 4) := by
  have hat : (let s := run step (start 1 10 20 [ticObject]) (freezeAtFirstCall true 30)
      s.timeTics = 3 ∧ 4 ∈ s.jobQueue.list ∧ (s.jobs 4).nextTics = 4 ∧ AtAdvance s) := by
    decide +kernel
  have hto : (let s := run step (start 1 10 20 [ticObject]) (freezeAtFirstCall true 30 ++ [idle])
      s.timeLastPassTics = 3 ∧ s.timeTics = 10 ∧ 4 ∈ s.jobQueue.list ∧
        (s.jobs 4).nextTics = 4) := by
    decide +kernel
  obtain ⟨htime, hmem, hnext, hadv⟩ := hat
  refine ⟨start_clockStarted (by decide) (by decide) (by decide) (by decide)
    (by decide +kernel) (by decide +kernel), hadv, ?_, hto⟩
  rintro ⟨_, hleast⟩
  have hle := hleast (Or.inr (Or.inr ⟨4, Or.inl hmem, by rw [htime]; decide, hnext⟩))
  have hten := hto.2.1
  omega

end Trick.Exec.Executive
