/-
  The invariant of the loop of the single threaded executive.

  `PassInv` says, for each place of the loop, how the scheduled queue stands: between two passes,
  in the walk over the head, about to advance the clock, or in the walk over the tail.  One more
  shape is `Doomed`: the terminate time was set to a tic that is already past, the clock was moved
  back to it, and nothing is called until the test at the end of the pass ends the run.

  `StepOk` collects the conditions on a step: the commands of the called job meet theirs, and when
  the clock is advanced no job that reschedules itself is left in the tail with a call time that is
  not later.  `step_runInv` is the step lemma and `run_runInv` the run lemma.
-/
import Trick.Executive.CommandInvariant

namespace Trick.Exec.Executive

open Trick.Lib

/-! ## The invariant -/

/-- The clock went forward in this pass, and not beyond the frame. -/
def Live (s : Executive) : Prop :=
  s.timeLastPassTics < s.timeTics ∧ s.timeTics ≤ s.nextFrameCheckTics

/-- The clock was set back by the terminate time; every job is due after the tic of the pass. -/
def Doomed (s : Executive) : Prop :=
  s.terminateTime ≤ s.timeLastPassTics ∧ s.timeTics ≤ s.timeLastPassTics ∧
    ∃ W Q, s.jobQueue.list = W ++ s.advanceSimTimeJob :: Q ∧
      W.length + 1 ≤ s.jobQueue.currIndex ∧
      (∀ j ∈ W, (s.jobs j).systemJobClass = false → s.timeLastPassTics < (s.jobs j).nextTics) ∧
      ∀ j ∈ Q, s.timeLastPassTics < (s.jobs j).nextTics

/-- The advancing job is about to be called. -/
def Advancing (s : Executive) : Prop :=
  s.currJob = s.advanceSimTimeJob ∧ s.timeTics < s.nextFrameCheckTics ∧
    ∃ P Q, ZonesOf s P [] Q [] ∧ s.jobQueue.currIndex = P.length + 1

/-- **How the scheduled queue stands at each place of the loop.** -/
def PassInv (s : Executive) : Prop :=
  match s.pc with
  | .find .scheduled =>
    (Located s .head ∧ s.timeTics < s.nextFrameCheckTics) ∨ (Located s .tail ∧ Live s) ∨ Doomed s
  | .call .scheduled =>
    (Located s .head ∧ s.timeTics < s.nextFrameCheckTics ∧ s.currJob ≠ s.advanceSimTimeJob) ∨
      Advancing s ∨ (Located s .tail ∧ Live s ∧ s.currJob ≠ s.advanceSimTimeJob)
  | .passEnd => (Located s .between ∧ Live s) ∨ Doomed s
  | .find .endOfFrame => Located s .between ∧ s.timeTics = s.nextFrameCheckTics
  | .call .endOfFrame =>
    Located s .between ∧ s.timeTics = s.nextFrameCheckTics ∧ s.currJob ≠ s.advanceSimTimeJob
  | .find _ => Located s .between ∧ s.timeTics < s.nextFrameCheckTics
  | .call _ =>
    Located s .between ∧ s.timeTics < s.nextFrameCheckTics ∧ s.currJob ≠ s.advanceSimTimeJob
  | _ => Located s .between ∧ s.timeTics < s.nextFrameCheckTics

/-- **The invariant of a run.** -/
def RunInv (s : Executive) : Prop :=
  s.pc = .terminated ∨ (Wf s ∧ PassInv s)

/-- **The condition on a step.** -/
def StepOk (s : Executive) (c : JobCall) : Prop :=
  match s.pc with
  | .freezeInit | .freezeLoop | .unfreeze => CommandsOk s c.commands
  | .call _ =>
    match (s.jobs s.currJob).code with
    | .user => CommandsOk (s.logCall s.currJob) c.commands
    | .advanceSimTime =>
      ∀ j ∈ s.jobQueue.list.drop s.jobQueue.currIndex, (s.jobs j).systemJobClass = true →
        s.timeTics < (s.jobs j).nextTics
    | _ => True
  | _ => True

instance (s : Executive) (c : JobCall) : Decidable (StepOk s c) := by
  unfold StepOk
  split
  · infer_instance
  · infer_instance
  · infer_instance
  · split <;> infer_instance
  · infer_instance

/-! ## Steps that do not touch the scheduled queue -/

/-- A scan at the current tic keeps the order. -/
theorem Wf.visitAll {s : Executive} (h : Wf s) (l : List JobId) :
    Wf { s with jobs := visitAll s.timeTics l s.jobs } := by
  have hcode := visitAll_field JobData.visited_code s.timeTics l s.jobs
  have hdis := visitAll_field JobData.visited_disabled s.timeTics l s.jobs
  have hsys := visitAll_field JobData.visited_systemJobClass s.timeTics l s.jobs
  have hcyc := visitAll_field JobData.visited_cycleTics s.timeTics l s.jobs
  refine { h with
    cycle := ?_, adv_code := ?_, adv_enabled := ?_, adv_system := ?_, adv_only := ?_,
    freeze_system := ?_, freeze_code := ?_ }
  · intro j hj hs
    have hs' : (s.jobs j).systemJobClass = false := (hsys j).symm.trans hs
    rcases h.cycle j hj hs' with hc | hn
    · exact Or.inl ((hcyc j).symm ▸ hc)
    · right
      have hne : (s.jobs j).nextTics ≠ s.timeTics := by have := h.time_lt; omega
      show (Exec.visitAll s.timeTics l s.jobs j).nextTics = _
      unfold Exec.visitAll
      rw [JobData.visited_of_ne hne, ite_self, hn]
  · exact (hcode _).trans h.adv_code
  · exact (hdis _).trans h.adv_enabled
  · exact (hsys _).trans h.adv_system
  · intro j hj; exact h.adv_only j ((hcode j).symm.trans hj)
  · exact (hsys _).trans h.freeze_system
  · intro hj; exact h.freeze_code ((hcode _).symm.trans hj)

variable {s : Executive}

/-- Commands given between two passes. -/
theorem between_commands (hwf : Wf s) (hl : Located s .between) (hpc : s.pc ≠ .call .scheduled)
    {cmds : List Command} (hok : CommandsOk s cmds) :
    Wf (s.applyCommands cmds) ∧ Located (s.applyCommands cmds) .between ∧
      (s.applyCommands cmds).advanceSimTimeJob = s.advanceSimTimeJob := by
  have h := applyCommands_settled (m := .between) (a := s.advanceSimTimeJob)
    ⟨hwf, hl, hpc, rfl⟩ hok
  exact ⟨h.wf, h.located, h.adv⟩

/-- A queue other than the scheduled one replaced by one with the same jobs, between two passes. -/
theorem between_setQueue (hwf : Wf s) (hl : Located s .between) {q : LoopQueue}
    (hq : q ≠ .scheduled) {v : ScheduledJobQueue} (hv : v.list = (s.queue q).list) :
    Wf (s.setQueue q v) ∧ Located (s.setQueue q v) .between := by
  refine ⟨hwf.setQueue_same q v hv, ?_⟩
  obtain ⟨W, Q, hz⟩ := hl
  refine ⟨W, Q, ?_⟩
  cases q <;> first | exact hz | exact absurd rfl hq

/-- The start of a walk over a queue other than the scheduled one. -/
theorem startDrain_runInv (hwf : Wf s) (hl : Located s .between) {q : LoopQueue}
    (hq : q ≠ .scheduled) : Wf (s.startDrain q) ∧ Located (s.startDrain q) .between := by
  obtain ⟨hwf', hl'⟩ := between_setQueue hwf hl hq
    (v := (s.queue q).resetCurrIndex) rfl
  exact ⟨{ hwf' with }, hl'⟩

/-- The start of the walk over the scheduled queue: the cursor is at the head. -/
theorem startDrain_scheduled (hwf : Wf s) (hl : Located s .between) :
    Wf (s.startDrain .scheduled) ∧ Located (s.startDrain .scheduled) .head := by
  have hwf' := hwf.setQueue_same .scheduled (s.queue .scheduled).resetCurrIndex rfl
  obtain ⟨W, Q, hz⟩ := hl
  exact ⟨{ hwf' with }, [], W, Q, hz.of_queue rfl rfl, rfl⟩

/-- What `nextJob` does to a queue without call times. -/
theorem nextJob_untimed (hwf : Wf s) (hl : Located s .between) {q : LoopQueue}
    (hq : q ≠ .scheduled) (hq' : q ≠ .inputProcessorRun) :
    Wf (s.nextJob q).2 ∧ Located (s.nextJob q).2 .between ∧
      ∀ j, (s.nextJob q).1 = some j → j ∈ (s.queue q).list := by
  have hs : s.nextJob q =
      (((s.queue q).getNextJob s.jobs).1, s.setQueue q ((s.queue q).getNextJob s.jobs).2) := by
    cases q <;> first | rfl | exact absurd rfl hq | exact absurd rfl hq'
  rw [hs]
  obtain ⟨h1, h2⟩ := between_setQueue hwf hl hq
    (v := ((s.queue q).getNextJob s.jobs).2) (by simp)
  exact ⟨h1, h2, fun j hj => ScheduledJobQueue.getNextJob_mem hj⟩

/-- What `nextJob` does to the input processor queue: it visits some of its jobs. -/
theorem nextJob_input (hwf : Wf s) (hl : Located s .between) :
    Wf (s.nextJob .inputProcessorRun).2 ∧ Located (s.nextJob .inputProcessorRun).2 .between ∧
      ∀ j, (s.nextJob .inputProcessorRun).1 = some j →
        j ∈ (s.queue .inputProcessorRun).list := by
  have hnd : ((s.queue .inputProcessorRun).list.drop
      (s.queue .inputProcessorRun).currIndex).Nodup :=
    (hwf.nodup .inputProcessorRun).sublist (List.drop_sublist _ _)
  obtain ⟨mid, rest, hsplit, _, hjobs, _, hres⟩ :=
    findNextJobLoop_spec s.timeTics _ s.jobs (s.queue .inputProcessorRun).currIndex
      (s.queue .inputProcessorRun).nextJobTime hnd
  have hmem : ∀ j ∈ mid, j ∈ (s.queue .inputProcessorRun).list := by
    intro j hj
    exact List.mem_of_mem_drop (hsplit ▸ List.mem_append_left _ hj)
  have hwf' := hwf.visitAll mid
  have hl' : Located { s with jobs := visitAll s.timeTics mid s.jobs } .between := by
    obtain ⟨W, Q, hz⟩ := hl
    refine ⟨W, Q, hz.visitAll_of_disjoint ?_ s.timeTics⟩
    intro j hj hm
    exact hwf.disjoint .inputProcessorRun .scheduled (by decide) j (hmem j hj) hm
  unfold nextJob ScheduledJobQueue.findNextJob
  simp only
  rw [hjobs]
  obtain ⟨h1, h2⟩ := between_setQueue hwf' hl' (q := .inputProcessorRun) (by decide)
    (v := { s.queue .inputProcessorRun with
      currIndex := (findNextJobLoop s.timeTics _ s.jobs (s.queue .inputProcessorRun).currIndex
        (s.queue .inputProcessorRun).nextJobTime).currIndex
      nextJobTime := (findNextJobLoop s.timeTics _ s.jobs (s.queue .inputProcessorRun).currIndex
        (s.queue .inputProcessorRun).nextJobTime).nextJobTime }) rfl
  refine ⟨h1, h2, ?_⟩
  intro j hj
  rcases hres with ⟨hnone, _, _⟩ | ⟨pre, i, hmid, hsome, _⟩
  · rw [hnone] at hj; cases hj
  · rw [hsome] at hj
    cases hj
    exact hmem j (hmid ▸ by simp)

/-! ## The walk over the scheduled queue -/

/-- The state after the request of the next scheduled job. -/
theorem nextJob_scheduled (s : Executive) :
    s.nextJob .scheduled =
      let r := findNextJobLoop s.timeTics (s.jobQueue.list.drop s.jobQueue.currIndex) s.jobs
        s.jobQueue.currIndex s.jobQueue.nextJobTime
      (r.job, { s with
        jobs := r.jobs
        jobQueue := { s.jobQueue with currIndex := r.currIndex, nextJobTime := r.nextJobTime } }) :=
  rfl

/-- The jobs from the cursor on, without duplicates. -/
theorem Wf.nodup_drop (h : Wf s) : (s.jobQueue.list.drop s.jobQueue.currIndex).Nodup :=
  (h.nodup .scheduled).sublist (List.drop_sublist _ _)

/-- A scan of the scheduled queue keeps the order. -/
theorem Wf.scan (h : Wf s) (l : List JobId) (k : Nat) (time : Int) :
    Wf { s with
      jobs := Exec.visitAll s.timeTics l s.jobs
      jobQueue := { s.jobQueue with currIndex := k, nextJobTime := time } } :=
  (h.visitAll l).setQueue_same .scheduled
    { s.jobQueue with currIndex := k, nextJobTime := time } rfl

/-- Two ways to split a list around `a`: the first element of the second split lies before `a`, is
    `a`, or lies after it. -/
theorem append_cons_cases {α : Type*} {W Q pre rest : List α} {a j : α}
    (h : W ++ a :: Q = pre ++ j :: rest) :
    (∃ W', W = pre ++ j :: W') ∨ (j = a ∧ pre = W) ∨ a ∈ pre := by
  rcases List.append_eq_append_iff.mp h with ⟨l, hpre, hcons⟩ | ⟨l, hW, hcons⟩
  · cases l with
    | nil =>
      simp only [List.nil_append, List.cons.injEq] at hcons
      exact Or.inr (Or.inl ⟨hcons.1.symm, by simpa using hpre⟩)
    | cons b l =>
      simp only [List.cons_append, List.cons.injEq] at hcons
      exact Or.inr (Or.inr (by rw [hpre, hcons.1]; simp))
  · cases l with
    | nil =>
      simp only [List.nil_append, List.cons.injEq] at hcons
      exact Or.inr (Or.inl ⟨hcons.1, by simpa using hW.symm⟩)
    | cons b l =>
      simp only [List.cons_append, List.cons.injEq] at hcons
      exact Or.inl ⟨l, by rw [hW, hcons.1]⟩

/-- **The walk over the head** comes to a due job before the advancing job, or to that job. -/
theorem nextJob_head (hwf : Wf s) (hl : Located s .head) :
    ∃ j, (s.nextJob .scheduled).1 = some j ∧ Wf (s.nextJob .scheduled).2 ∧
      ((j ≠ s.advanceSimTimeJob ∧ Located (s.nextJob .scheduled).2 .head) ∨
        (j = s.advanceSimTimeJob ∧ ∃ P Q, ZonesOf (s.nextJob .scheduled).2 P [] Q [] ∧
          (s.nextJob .scheduled).2.jobQueue.currIndex = P.length + 1)) := by
  obtain ⟨P, W, Q, hz, hcur⟩ := hl
  have hdrop : s.jobQueue.list.drop s.jobQueue.currIndex = W ++ s.advanceSimTimeJob :: Q := by
    rw [hz.list_eq, hcur, List.append_assoc, List.drop_left, List.append_nil]
  have hdue : (s.jobs s.advanceSimTimeJob).Due s.timeTics := ⟨hz.adv_next, hwf.adv_enabled⟩
  have hnd := hwf.nodup .scheduled
  obtain ⟨mid, rest, hsplit, hidx, hjobs, htime, hres⟩ :=
    findNextJobLoop_spec s.timeTics _ s.jobs s.jobQueue.currIndex s.jobQueue.nextJobTime
      hwf.nodup_drop
  rw [hdrop] at hsplit
  rcases hres with ⟨_, hrest, hnot⟩ | ⟨pre, j, hmid, hsome, _, hnot⟩
  · -- the advancing job is due, so the walk does not pass it
    exfalso
    rw [hrest, List.append_nil] at hsplit
    exact hnot s.advanceSimTimeJob (hsplit ▸ by simp) hdue
  rw [nextJob_scheduled]
  simp only
  rw [hjobs, hidx, htime]
  have hcyc : ∀ k ∈ W, (s.jobs k).systemJobClass = false →
      1 ≤ (s.jobs k).cycleTics ∨ (s.jobs k).nextTics = maxLongLong := by
    intro k hk
    exact hwf.cycle k ((hz.mem_list k).mpr (by tauto))
  refine ⟨j, hsome, hwf.scan mid _ _, ?_⟩
  rw [hmid, List.append_assoc, List.singleton_append] at hsplit
  rcases append_cons_cases hsplit with ⟨W', hW⟩ | ⟨hj, hpre⟩ | hin
  · -- a job of the head
    have hWmid : W = mid ++ W' := by rw [hmid, hW]; simp
    have hjne : j ≠ s.advanceSimTimeJob := by
      rintro rfl
      exact (hz.adv_notMem hnd).1 (by rw [hW]; simp)
    left
    refine ⟨hjne, P ++ mid, W', Q, ?_, ?_⟩
    · rw [hWmid] at hz
      exact hz.scan_head hnd hwf.adv_system hwf.time_lt
        (fun k hk => hcyc k (hWmid ▸ List.mem_append_left _ hk)) (Or.inl rfl) rfl rfl
    · show s.jobQueue.currIndex + mid.length = _
      rw [hcur, List.length_append]
  · -- the advancing job itself
    right
    refine ⟨hj, P ++ W, Q, ?_, ?_⟩
    · have hz' : ZonesOf s P (W ++ []) Q [] := by rw [List.append_nil]; exact hz
      refine hz'.scan_head hnd hwf.adv_system hwf.time_lt hcyc (Or.inr ?_) rfl rfl
      rw [hmid, hpre, hj]
    · show s.jobQueue.currIndex + mid.length = _
      rw [hcur, hmid, hpre, List.length_append, List.length_append, List.length_singleton]
      omega
  · exact absurd hdue (hnot _ hin)

/-- **The walk over the tail** comes to a due job, or to the end of the pass. -/
theorem nextJob_tail (hwf : Wf s) (hl : Located s .tail) :
    Wf (s.nextJob .scheduled).2 ∧
      (((s.nextJob .scheduled).1 = none ∧ Located (s.nextJob .scheduled).2 .between) ∨
        ∃ j, (s.nextJob .scheduled).1 = some j ∧ j ≠ s.advanceSimTimeJob ∧
          Located (s.nextJob .scheduled).2 .tail) := by
  obtain ⟨W, Q, V, hz, hcur⟩ := hl
  have hdrop : s.jobQueue.list.drop s.jobQueue.currIndex = V := by
    rw [hz.list_eq, hcur, List.nil_append]
    have h : W ++ s.advanceSimTimeJob :: (Q ++ V) = (W ++ s.advanceSimTimeJob :: Q) ++ V := by simp
    rw [h, List.drop_left' (by simp [Nat.add_comm, Nat.add_left_comm])]
  have hnd := hwf.nodup .scheduled
  obtain ⟨mid, rest, hsplit, hidx, hjobs, htime, hres⟩ :=
    findNextJobLoop_spec s.timeTics _ s.jobs s.jobQueue.currIndex s.jobQueue.nextJobTime
      hwf.nodup_drop
  rw [hdrop] at hsplit
  rw [nextJob_scheduled]
  simp only
  rw [hjobs, hidx, htime]
  refine ⟨hwf.scan mid _ _, ?_⟩
  rw [hsplit] at hz
  have hz' : Zones (visitAll s.timeTics mid s.jobs)
      { s.jobQueue with
        currIndex := s.jobQueue.currIndex + mid.length
        nextJobTime := trackAll s.timeTics mid s.jobs s.jobQueue.nextJobTime }
      s.timeTics s.advanceSimTimeJob s.freezeJob [] W (Q ++ mid) rest := by
    refine hz.scan_tail hnd hwf.time_lt ?_ rfl rfl
    intro k hk
    exact hwf.cycle k ((hz.mem_list k).mpr (by simp [hk]))
  rcases hres with ⟨hnone, hrest, _⟩ | ⟨pre, j, hmid, hsome, _⟩
  · left
    rw [hrest] at hz'
    exact ⟨hnone, W, Q ++ mid, hz'⟩
  · right
    refine ⟨j, hsome, ?_, W, Q ++ mid, rest, hz', ?_⟩
    · rintro rfl
      exact (hz.adv_notMem hnd).2 (by rw [hmid]; simp)
    · show s.jobQueue.currIndex + mid.length = W.length + 1 + (Q ++ mid).length
      rw [hcur, List.length_append]; omega

/-- **In a doomed pass** no job is due any more. -/
theorem nextJob_doomed (hwf : Wf s) (hd : Doomed s) :
    (s.nextJob .scheduled).1 = none ∧ Wf (s.nextJob .scheduled).2 ∧
      Doomed (s.nextJob .scheduled).2 := by
  obtain ⟨hterm, htime, W, Q, hlist, hcur, hW, hQ⟩ := hd
  have hafter : ∀ j ∈ s.jobQueue.list.drop s.jobQueue.currIndex,
      s.timeLastPassTics < (s.jobs j).nextTics := by
    intro j hj
    refine hQ j ?_
    have hsplit : s.jobQueue.list = (W ++ [s.advanceSimTimeJob]) ++ Q := by simp [hlist]
    rw [hsplit, List.drop_append, List.drop_of_length_le (by simp; omega)] at hj
    exact List.mem_of_mem_drop hj
  obtain ⟨mid, rest, hsplit, hidx, hjobs, _, hres⟩ :=
    findNextJobLoop_spec s.timeTics _ s.jobs s.jobQueue.currIndex s.jobQueue.nextJobTime
      hwf.nodup_drop
  have hmid : ∀ j ∈ mid, (s.jobs j).nextTics ≠ s.timeTics := by
    intro j hj
    have := hafter j (hsplit ▸ List.mem_append_left _ hj)
    omega
  have hsame : visitAll s.timeTics mid s.jobs = s.jobs := by
    funext j
    unfold visitAll
    split
    · exact JobData.visited_of_ne (hmid j ‹_›)
    · rfl
  rw [nextJob_scheduled]
  simp only
  rw [hjobs, hsame, hidx]
  refine ⟨?_, ?_, hterm, htime, W, Q, hlist, Nat.le_add_right_of_le hcur, hW, hQ⟩
  · rcases hres with ⟨hnone, _⟩ | ⟨pre, j, hm, _, hdue, _⟩
    · exact hnone
    · exact absurd hdue.1 (hmid j (hm ▸ by simp))
  · exact hwf.setQueue_same .scheduled
      { s.jobQueue with currIndex := _, nextJobTime := _ } rfl

/-! ## The advance of the clock -/

/-- The clock candidate of a queue, guarded as in `advance_sim_time`. -/
def guardedTime (last next time : Int) : Int := if next < time ∧ next > last then next else time

theorem nextTimeTics_eq (hth : s.threads = []) :
    s.nextTimeTics =
      let time := guardedTime s.timeTics (s.jobQueue.getNextJobCallTime s.jobs)
        s.nextFrameCheckTics
      let time := guardedTime s.timeTics
        (s.inputProcessorRunQueue.getNextJobCallTime s.jobs) time
      if s.terminateTime < time then s.terminateTime else time := by
  unfold nextTimeTics
  rw [hth]
  rfl

theorem guardedTime_spec (last next time : Int) :
    guardedTime last next time ≤ time ∧ (last < next → guardedTime last next time ≤ next) ∧
      (last < time → last < guardedTime last next time) ∧
      (guardedTime last next time = time ∨
        last < next ∧ guardedTime last next time = next) := by
  unfold guardedTime
  split
  · rename_i h; exact ⟨le_of_lt h.1, fun _ => le_refl _, fun _ => h.2, Or.inr ⟨h.2, rfl⟩⟩
  · rename_i h; exact ⟨le_refl _, fun hn => by omega, fun ht => ht, Or.inl rfl⟩

/-- The bounds on the new tic. -/
theorem nextTimeTics_le (hth : s.threads = []) :
    s.nextTimeTics ≤ s.nextFrameCheckTics ∧ s.nextTimeTics ≤ s.terminateTime ∧
      (s.timeTics < s.jobQueue.getNextJobCallTime s.jobs →
        s.nextTimeTics ≤ s.jobQueue.getNextJobCallTime s.jobs) ∧
      (s.timeTics < s.nextFrameCheckTics → s.timeTics < s.terminateTime →
        s.timeTics < s.nextTimeTics) := by
  rw [nextTimeTics_eq hth]
  simp only
  obtain ⟨h1, h2, h3, _⟩ := guardedTime_spec s.timeTics
    (s.jobQueue.getNextJobCallTime s.jobs) s.nextFrameCheckTics
  obtain ⟨k1, _, k3, _⟩ := guardedTime_spec s.timeTics
    (s.inputProcessorRunQueue.getNextJobCallTime s.jobs)
    (guardedTime s.timeTics (s.jobQueue.getNextJobCallTime s.jobs) s.nextFrameCheckTics)
  split
  · refine ⟨by omega, le_refl _, fun hn => ?_, fun _ ht => ht⟩
    have := h2 hn; omega
  · refine ⟨by omega, by omega, fun hn => ?_, fun hf _ => k3 (h3 hf)⟩
    have := h2 hn; omega

/-- The scan at the advance starts behind the advancing job. -/
theorem drop_advancing {P Q : List JobId} (hz : ZonesOf s P [] Q [])
    (hcur : s.jobQueue.currIndex = P.length + 1) :
    s.jobQueue.list.drop s.jobQueue.currIndex = Q := by
  have h : P ++ s.advanceSimTimeJob :: Q = (P ++ [s.advanceSimTimeJob]) ++ Q := by simp
  rw [hz.list_eq, hcur, List.append_nil, List.append_nil, h, List.drop_left' (by simp)]

/-- **The candidate of the scheduled queue is later than the old tic and not above any job**, when
    no job of the tail that reschedules itself is late. -/
theorem getNextJobCallTime_bounds {P Q : List JobId} (hz : ZonesOf s P [] Q [])
    (hcur : s.jobQueue.currIndex = P.length + 1)
    (hlate : ∀ j ∈ Q, (s.jobs j).systemJobClass = true → s.timeTics < (s.jobs j).nextTics) :
    s.timeTics < s.jobQueue.getNextJobCallTime s.jobs ∧
      (∀ j ∈ P, s.timeTics < (s.jobs j).nextTics →
        s.jobQueue.getNextJobCallTime s.jobs ≤ (s.jobs j).nextTics) ∧
      ∀ j ∈ Q, s.timeTics < (s.jobs j).nextTics ∧
        s.jobQueue.getNextJobCallTime s.jobs ≤ (s.jobs j).nextTics := by
  have hQ : ∀ j ∈ Q, s.timeTics < (s.jobs j).nextTics := by
    intro j hj
    cases hsys : (s.jobs j).systemJobClass with
    | true => exact hlate j hj hsys
    | false => exact hz.quiet j hj hsys
  unfold ScheduledJobQueue.getNextJobCallTime
  rw [drop_advancing hz hcur]
  obtain ⟨hle, hall, hatt⟩ :=
    ScheduledJobQueue.scanCallTime_spec s.jobs Q s.jobQueue.nextJobTime
  refine ⟨?_, ?_, fun j hj => ⟨hQ j hj, hall j hj⟩⟩
  · rcases hatt with h | ⟨j, hj, h⟩
    · rw [h]; exact hz.cached
    · rw [h]; exact hQ j hj
  · intro j hj hn
    exact le_trans hle (hz.tracked j hj hn)

/-- **The advance of the clock** begins the walk over the tail, or the doomed end of the run. -/
theorem advance_step (hwf : Wf s) (hadv : Advancing s)
    (hlate : ∀ j ∈ s.jobQueue.list.drop s.jobQueue.currIndex,
      (s.jobs j).systemJobClass = true → s.timeTics < (s.jobs j).nextTics) :
    Wf s.advanceSimTime ∧
      ((Located s.advanceSimTime .tail ∧ Live s.advanceSimTime) ∨ Doomed s.advanceSimTime) := by
  obtain ⟨_, hframe, P, Q, hz, hcur⟩ := hadv
  rw [drop_advancing hz hcur] at hlate
  obtain ⟨hgt, hP, hQ⟩ := getNextJobCallTime_bounds hz hcur hlate
  obtain ⟨hnf, hnt, hnc, hfwd⟩ := nextTimeTics_le hwf.threads_nil
  have hnd := hwf.nodup .scheduled
  have hfp := hwf.frame_pos
  have hterm := hwf.terminate_lt
  have hwf' : Wf s.advanceSimTime := by
    have h1 : Wf (s.setNextTics s.advanceSimTimeJob s.nextTimeTics) := by
      refine hwf.updateJob _ _ rfl rfl rfl ?_
      intro hs; simp only [hwf.adv_system, Bool.true_eq_false] at hs
    have h2 := (h1.setQueue_same .inputProcessorRun
      (s.inputProcessorRunQueue.setNextJobCallTime (s.nextTimeTics + s.softwareFrameTics)) rfl)
    have h3 := h2.setQueue_same .scheduled
      (s.jobQueue.setNextJobCallTime (s.nextTimeTics + s.softwareFrameTics)) rfl
    have hth : s.threads.map (cacheChildTime s.jobs) = [] := by rw [hwf.threads_nil]; rfl
    have htime : s.nextTimeTics < maxLongLong := by omega
    exact { h3 with threads_nil := hth, time_lt := htime }
  refine ⟨hwf', ?_⟩
  have hz' : ZonesOf s.advanceSimTime [] P [] Q := by
    refine hz.advance rfl hnd ?_ ?_ ?_
    · show s.nextTimeTics < s.nextTimeTics + s.softwareFrameTics
      omega
    · intro j hj hs
      have := hz.passed j hj hs
      have := hP j hj this
      have := hnc hgt
      omega
    · intro j hj _
      have := (hQ j hj).2
      have := hnc hgt
      omega
  by_cases hT : s.timeTics < s.terminateTime
  · left
    refine ⟨⟨P, [], Q, hz', ?_⟩, hfwd hframe hT, hnf⟩
    show s.jobQueue.currIndex = _
    rw [hcur]; simp
  · right
    refine ⟨not_lt.mp hT, le_trans hnt (not_lt.mp hT), P, Q, ?_, ?_, ?_, ?_⟩
    · show s.jobQueue.list = P ++ s.advanceSimTimeJob :: Q
      rw [hz.list_eq, List.append_nil, List.append_nil]
    · show P.length + 1 ≤ s.jobQueue.currIndex
      omega
    · intro j hj hs
      have hne : j ≠ s.advanceSimTimeJob := by
        rintro rfl; exact (hz.adv_notMem hnd).1 (by simp [hj])
      show s.timeTics < (Function.update s.jobs s.advanceSimTimeJob _ j).nextTics
      rw [Function.update_of_ne hne]
      have hs' : (Function.update s.jobs s.advanceSimTimeJob
        { s.jobs s.advanceSimTimeJob with nextTics := s.nextTimeTics } j).systemJobClass = false := hs
      rw [Function.update_of_ne hne] at hs'
      exact hz.passed j hj hs'
    · intro j hj
      have hne : j ≠ s.advanceSimTimeJob := by
        rintro rfl; exact (hz.adv_notMem hnd).2 (by simp [hj])
      show s.timeTics < (Function.update s.jobs s.advanceSimTimeJob _ j).nextTics
      rw [Function.update_of_ne hne]
      exact (hQ j hj).1

/-! ## The call of a job -/

variable {m : Mode} {a : JobId}

/-- A job that reschedules itself takes its own call time; the zones allow it unless the job has
    been passed in the head. -/
theorem Settled.setOwn (h : Settled m a s) {j : JobId} (n : Int)
    (hsys : (s.jobs j).systemJobClass = true) (hne : j ≠ a) (hm : m ≠ .head) :
    Settled m a (s.setNextTics j n) := by
  refine h.updateJob j _ rfl rfl rfl ?_ (fun he => absurd (he.trans h.adv) hne) ?_ ?_ ?_
  · intro hs; simp only [hsys, Bool.true_eq_false] at hs
  · intro hin
    cases m with
    | head => exact absurd rfl hm
    | tail => exact absurd hin h.not_inHead
    | between => exact absurd hin.1 h.at_pc
  · intro hs; simp only [hsys, Bool.true_eq_false] at hs
  · intro hs; simp only [hsys, Bool.true_eq_false] at hs

/-- The test of a call time of the scheduled queue. -/
theorem Settled.test (h : Settled m a s) (j : JobId) :
    Settled m a (s.setQueue .scheduled (s.jobQueue.testNextJobCallTime (s.jobs j) s.timeTics)) := by
  obtain ⟨hle, hlt, _, _⟩ := s.jobQueue.testNextJobCallTime_spec (s.jobs j) s.timeTics
  refine ⟨h.wf.setQueue_same .scheduled _
    (ScheduledJobQueue.testNextJobCallTime_list _ _ _), ?_, ?_, h.adv⟩
  · cases m with
    | head =>
      obtain ⟨P, W, Q, hz, hcur⟩ := h.located
      exact ⟨P, W, Q, hz.lower_cached (ScheduledJobQueue.testNextJobCallTime_list _ _ _) hle
        (hlt hz.cached), by
        rw [← hcur]; exact ScheduledJobQueue.testNextJobCallTime_currIndex _ _ _⟩
    | tail =>
      obtain ⟨W, Q, V, hz, hcur⟩ := h.located
      exact ⟨W, Q, V, hz.lower_cached (ScheduledJobQueue.testNextJobCallTime_list _ _ _) hle
        (hlt hz.cached), by
        rw [← hcur]; exact ScheduledJobQueue.testNextJobCallTime_currIndex _ _ _⟩
    | between =>
      obtain ⟨W, Q, hz⟩ := h.located
      exact ⟨W, Q, hz.lower_cached (ScheduledJobQueue.testNextJobCallTime_list _ _ _) hle
        (hlt hz.cached)⟩
  · cases m <;> exact h.at_pc

/-- A job of the scheduled queue takes its own call time and is tested. -/
theorem Settled.setOwn_test (h : Settled m a s) {j : JobId} (n : Int)
    (hsys : (s.jobs j).systemJobClass = true) (hne : j ≠ a) :
    Settled m a ((s.setNextTics j n).setQueue .scheduled
      ((s.setNextTics j n).jobQueue.testNextJobCallTime ((s.setNextTics j n).jobs j)
        s.timeTics)) := by
  by_cases hm : m = .head
  swap
  · exact (h.setOwn n hsys hne hm).test j
  subst hm
  have hwf : Wf (s.setNextTics j n) := by
    refine h.wf.updateJob j _ rfl rfl rfl ?_
    intro hs; simp only [hsys, Bool.true_eq_false] at hs
  have hself : (s.setNextTics j n).jobs j = { s.jobs j with nextTics := n } :=
    Function.update_self ..
  obtain ⟨P, W, Q, hz, hcur⟩ := h.located
  refine ⟨hwf.setQueue_same .scheduled _
    (ScheduledJobQueue.testNextJobCallTime_list _ _ _), ⟨P, W, Q, ?_, ?_⟩, h.at_pc, h.adv⟩
  · rw [hself]
    exact hz.update_tested n hsys (fun he => hne (he.trans h.adv))
  · rw [← hcur]; exact ScheduledJobQueue.testNextJobCallTime_currIndex _ _ _

/-- The code of a job that is not the advancing one, up to its own call time. -/
theorem runJobCode_cases (h : Settled m a s) {j : JobId} (hne : j ≠ a) {c : JobCall}
    (hok : (s.jobs j).code = .user → CommandsOk s c.commands) :
    Settled m a (s.runJobCode j c) ∨
      ∃ s' n, Settled m a s' ∧ (s'.jobs j).systemJobClass = true ∧
        s.runJobCode j c = s'.setNextTics j n := by
  unfold runJobCode
  cases hcode : (s.jobs j).code with
  | user =>
    have h' := applyCommands_settled h (hok hcode)
    simp only
    cases c.nextTics with
    | none => exact Or.inl h'
    | some n =>
      simp only
      split
      · exact Or.inr ⟨_, n, h', ‹_›, rfl⟩
      · exact Or.inl h'
  | advanceSimTime =>
    exact absurd ((h.wf.adv_only j hcode).trans h.adv) hne
  | schedFreezeToExecCommand b => exact Or.inl (schedFreeze_settled h b)
  | asyncFreezeToExecCommand =>
    left
    show Settled m a s.asyncFreezeToExecCommand
    unfold asyncFreezeToExecCommand
    split
    · exact h.of_fields { h.wf with } rfl rfl rfl rfl rfl rfl
    · exact h

/-- The log of calls is no matter of the invariant. -/
theorem Settled.logCall (h : Settled m a s) (j : JobId) : Settled m a (s.logCall j) :=
  h.of_fields { h.wf with } rfl rfl rfl rfl rfl rfl

/-- **The call of a scheduled job** other than the advancing one, with the test that follows. -/
theorem callScheduled_settled (h : Settled m a s) {j : JobId} (hne : j ≠ a) {c : JobCall}
    (hok : (s.jobs j).code = .user → CommandsOk (s.logCall j) c.commands) :
    Settled m a ((s.callJob j c).testAfterCall .scheduled j) := by
  unfold callJob
  rcases runJobCode_cases (h.logCall j) hne (c := c) hok with h' | ⟨s', n, h', hsys, heq⟩
  · unfold testAfterCall
    split
    · exact h'.test j
    · exact h'
  · rw [heq]
    have hsys' : ((s'.setNextTics j n).jobs j).systemJobClass = true := by
      show (Function.update s'.jobs j _ j).systemJobClass = true
      rw [Function.update_self]; exact hsys
    unfold testAfterCall
    rw [if_pos (Or.inr ⟨rfl, hsys'⟩)]
    exact h'.setOwn_test n hsys hne

/-- **The call of a job of another queue.** -/
theorem callOther_settled (h : Settled .between a s) {q : LoopQueue} (hq : q ≠ .scheduled)
    {j : JobId} (hne : j ≠ a) {c : JobCall}
    (hok : (s.jobs j).code = .user → CommandsOk (s.logCall j) c.commands) :
    Settled .between a ((s.callJob j c).testAfterCall q j) := by
  have hrun : Settled .between a (s.callJob j c) := by
    unfold callJob
    rcases runJobCode_cases (h.logCall j) hne (c := c) hok with h' | ⟨s', n, h', hsys, heq⟩
    · exact h'
    · rw [heq]
      exact h'.setOwn n hsys hne (by intro hm; cases hm)
  unfold testAfterCall
  split
  · exact hrun.setOther hq (hrun.wf.setQueue_same q _ (by simp))
  · exact hrun

/-! ## The step lemma -/

/-- The call of the advancing job. -/
theorem callStep_advance (hwf : Wf s) (hpc : s.pc = .call .scheduled) (hadv : Advancing s)
    {c : JobCall} (hok : StepOk s c) : RunInv (s.callStep .scheduled c) := by
  have hcode : (s.jobs s.currJob).code = .advanceSimTime := hadv.1 ▸ hwf.adv_code
  have hlate : ∀ j ∈ s.jobQueue.list.drop s.jobQueue.currIndex,
      (s.jobs j).systemJobClass = true → s.timeTics < (s.jobs j).nextTics := by
    unfold StepOk at hok
    rw [hpc] at hok
    simpa only [hcode] using hok
  have hcall : s.callJob s.currJob c = (s.logCall s.currJob).advanceSimTime := by
    show (s.logCall s.currJob).runJobCode s.currJob c = _
    unfold runJobCode
    rw [show ((s.logCall s.currJob).jobs s.currJob).code = .advanceSimTime from hcode]
  have hret : s.returnOf s.currJob c = 0 := by
    unfold returnOf; rw [hcode]
  unfold callStep
  simp only
  rw [if_neg (by rw [hret]; simp), hcall]
  obtain ⟨hwf', hrest⟩ := advance_step (s := s.logCall s.currJob) { hwf with } hadv hlate
  right
  have hpc' : ((s.logCall s.currJob).advanceSimTime).pc = .call .scheduled := hpc
  generalize (s.logCall s.currJob).advanceSimTime = s' at hwf' hrest hpc'
  have hrun := sameRun_testAfterCall s' .scheduled s.currJob
  rcases hrest with ⟨hloc, hlive⟩ | hdoom
  · have hset : Settled .tail s'.advanceSimTimeJob s' := ⟨hwf', hloc, hpc', rfl⟩
    have htest : Settled .tail s'.advanceSimTimeJob (s'.testAfterCall .scheduled s.currJob) := by
      unfold testAfterCall
      split
      · exact hset.test s.currJob
      · exact hset
    refine ⟨{ htest.wf with }, Or.inr (Or.inl ⟨htest.located, ?_⟩)⟩
    show (s'.testAfterCall .scheduled s.currJob).timeLastPassTics <
      (s'.testAfterCall .scheduled s.currJob).timeTics ∧ _
    rw [hrun.timeLastPassTics, hrun.timeTics]
    exact ⟨hlive.1, by
      show _ ≤ (s'.testAfterCall .scheduled s.currJob).nextFrameCheckTics
      rw [hrun.nextFrameCheckTics]; exact hlive.2⟩
  · have hwt : Wf (s'.testAfterCall .scheduled s.currJob) := by
      unfold testAfterCall
      split
      · exact hwf'.setQueue_same .scheduled _ (ScheduledJobQueue.testNextJobCallTime_list _ _ _)
      · exact hwf'
    refine ⟨{ hwt with }, Or.inr (Or.inr ?_)⟩
    obtain ⟨hterm, htime, W, Q, hlist, hcur, hW, hQ⟩ := hdoom
    unfold testAfterCall
    split
    · refine ⟨hterm, htime, W, Q, ?_, ?_, hW, hQ⟩
      · exact (ScheduledJobQueue.testNextJobCallTime_list _ _ _).trans hlist
      · exact hcur.trans (le_of_eq (ScheduledJobQueue.testNextJobCallTime_currIndex _ _ _).symm)
    · exact ⟨hterm, htime, W, Q, hlist, hcur, hW, hQ⟩

/-- The loop position is no matter of the zones. -/
theorem located_setPc {p : Pc} (h : Located s m) : Located { s with pc := p } m := by
  cases m <;> exact h

/-- The condition on the call of a job with user code. -/
theorem stepOk_user {q : LoopQueue} (hpc : s.pc = .call q) {c : JobCall} (hok : StepOk s c)
    (hu : (s.jobs s.currJob).code = .user) : CommandsOk (s.logCall s.currJob) c.commands := by
  unfold StepOk at hok
  rw [hpc] at hok
  simpa only [hu] using hok

/-- The call of a job and the test that follows do not move the run. -/
theorem sameRun_call (s : Executive) (q : LoopQueue) (j : JobId) (c : JobCall)
    (hcode : ((s.logCall j).jobs j).code ≠ .advanceSimTime) :
    SameRun s ((s.callJob j c).testAfterCall q j) := by
  have hlog : SameRun s (s.logCall j) := ⟨rfl, rfl, rfl, rfl, rfl, rfl, rfl, rfl, rfl⟩
  exact (hlog.trans (sameRun_runJobCode _ j c hcode)).trans (sameRun_testAfterCall _ q j)

/-- A walk over the scheduled queue goes on after the call of a job. -/
theorem callStep_scheduled (hwf : Wf s) (hpc : s.pc = .call .scheduled) (hm : m ≠ .between)
    (hloc : Located s m) (hne : s.currJob ≠ s.advanceSimTimeJob) {c : JobCall} (hok : StepOk s c) :
    (s.callStep .scheduled c).pc = .terminated ∨
      (Wf (s.callStep .scheduled c) ∧ Located (s.callStep .scheduled c) m ∧
        (s.callStep .scheduled c).pc = .find .scheduled ∧
        (s.callStep .scheduled c).timeTics = s.timeTics ∧
        (s.callStep .scheduled c).timeLastPassTics = s.timeLastPassTics ∧
        (s.callStep .scheduled c).nextFrameCheckTics = s.nextFrameCheckTics) := by
  have hset : Settled m s.advanceSimTimeJob s := by
    refine ⟨hwf, hloc, ?_, rfl⟩
    cases m <;> first | exact hpc | exact absurd rfl hm
  have hcode : ((s.logCall s.currJob).jobs s.currJob).code ≠ .advanceSimTime :=
    fun hc => hne (hwf.adv_only _ hc)
  have hres := callScheduled_settled hset hne (stepOk_user hpc hok)
  have hrun := sameRun_call s .scheduled s.currJob c hcode
  unfold callStep
  simp only
  split
  · exact Or.inl rfl
  · exact Or.inr ⟨{ hres.wf with }, located_setPc hres.located, rfl, hrun.timeTics,
      hrun.timeLastPassTics, hrun.nextFrameCheckTics⟩

/-- The call of a job of another queue, between two passes. -/
theorem callStep_other (hwf : Wf s) {q : LoopQueue} (hq : q ≠ .scheduled) (hpc : s.pc = .call q)
    (hloc : Located s .between) (hne : s.currJob ≠ s.advanceSimTimeJob) {c : JobCall}
    (hok : StepOk s c) :
    (s.callStep q c).pc = .terminated ∨
      (Wf (s.callStep q c) ∧ Located (s.callStep q c) .between ∧
        (s.callStep q c).pc = .find q ∧ (s.callStep q c).timeTics = s.timeTics ∧
        (s.callStep q c).nextFrameCheckTics = s.nextFrameCheckTics) := by
  have hset : Settled .between s.advanceSimTimeJob s := by
    refine ⟨hwf, hloc, ?_, rfl⟩
    show s.pc ≠ _
    rw [hpc]
    intro hc
    exact hq (Pc.call.inj hc)
  have hcode : ((s.logCall s.currJob).jobs s.currJob).code ≠ .advanceSimTime :=
    fun hc => hne (hwf.adv_only _ hc)
  have hres := callOther_settled hset hq hne (stepOk_user hpc hok)
  have hrun := sameRun_call s q s.currJob c hcode
  unfold callStep
  simp only
  split
  · exact Or.inl rfl
  · exact Or.inr ⟨{ hres.wf with }, located_setPc hres.located, rfl, hrun.timeTics,
      hrun.nextFrameCheckTics⟩

/-- The request of the next scheduled job. -/
theorem find_scheduled_step (hwf : Wf s) (hpc : s.pc = .find .scheduled) (hinv : PassInv s)
    (c : JobCall) : RunInv (s.step c) := by
  unfold PassInv at hinv
  rw [hpc] at hinv
  simp only at hinv
  have hfields : (s.nextJob .scheduled).2.timeTics = s.timeTics ∧
      (s.nextJob .scheduled).2.timeLastPassTics = s.timeLastPassTics ∧
      (s.nextJob .scheduled).2.nextFrameCheckTics = s.nextFrameCheckTics ∧
      (s.nextJob .scheduled).2.advanceSimTimeJob = s.advanceSimTimeJob := ⟨rfl, rfl, rfl, rfl⟩
  unfold step
  rw [hpc]
  simp only
  generalize hn : s.nextJob .scheduled = r at *
  obtain ⟨o, s'⟩ := r
  obtain ⟨ht, hlp, hnf, hadv⟩ := hfields
  simp only at ht hlp hnf hadv
  right
  rcases hinv with ⟨hloc, hframe⟩ | ⟨hloc, hlive⟩ | hdoom
  · obtain ⟨j, hsome, hwf', hrest⟩ := nextJob_head hwf hloc
    rw [hn] at hsome hwf' hrest
    simp only at hsome hwf' hrest
    subst hsome
    refine ⟨{ hwf' with }, ?_⟩
    rcases hrest with ⟨hne, hloc'⟩ | ⟨heq, P, Q, hz, hcur⟩
    · exact Or.inl ⟨hloc', by rw [← ht, ← hnf] at hframe; exact hframe, hadv ▸ hne⟩
    · exact Or.inr (Or.inl ⟨heq.trans hadv.symm, by rw [← ht, ← hnf] at hframe; exact hframe,
        P, Q, hz, hcur⟩)
  · have hlive' : Live s' := by
      unfold Live; rw [ht, hlp, hnf]; exact hlive
    obtain ⟨hwf', hrest⟩ := nextJob_tail hwf hloc
    rw [hn] at hwf' hrest
    simp only at hwf' hrest
    rcases hrest with ⟨hnone, hloc'⟩ | ⟨j, hsome, hne, hloc'⟩
    · subst hnone
      exact ⟨{ hwf' with }, Or.inl ⟨hloc', hlive'⟩⟩
    · subst hsome
      exact ⟨{ hwf' with }, Or.inr (Or.inr ⟨hloc', hlive', hadv ▸ hne⟩)⟩
  · obtain ⟨hnone, hwf', hdoom'⟩ := nextJob_doomed hwf hdoom
    rw [hn] at hnone hwf' hdoom'
    simp only at hnone hwf' hdoom'
    subst hnone
    exact ⟨{ hwf' with }, Or.inr hdoom'⟩

/-- The request of the next job of another queue. -/
theorem nextJob_other (hwf : Wf s) (hl : Located s .between) {q : LoopQueue}
    (hq : q ≠ .scheduled) :
    Wf (s.nextJob q).2 ∧ Located (s.nextJob q).2 .between ∧
      (∀ j, (s.nextJob q).1 = some j → j ≠ (s.nextJob q).2.advanceSimTimeJob) ∧
      (s.nextJob q).2.timeTics = s.timeTics ∧
      (s.nextJob q).2.nextFrameCheckTics = s.nextFrameCheckTics ∧ (s.nextJob q).2.pc = s.pc := by
  have hmem : Wf (s.nextJob q).2 ∧ Located (s.nextJob q).2 .between ∧
      ∀ j, (s.nextJob q).1 = some j → j ∈ (s.queue q).list := by
    by_cases hq' : q = .inputProcessorRun
    · subst hq'; exact nextJob_input hwf hl
    · exact nextJob_untimed hwf hl hq hq'
  have hadv : (s.nextJob q).2.advanceSimTimeJob = s.advanceSimTimeJob := by cases q <;> rfl
  refine ⟨hmem.1, hmem.2.1, ?_, by cases q <;> rfl, by cases q <;> rfl, by cases q <;> rfl⟩
  intro j hj he
  obtain ⟨W, Q, hz⟩ := hl
  refine hwf.disjoint .scheduled q hq.symm s.advanceSimTimeJob hz.adv_mem ?_
  rw [← hadv, ← he]
  exact hmem.2.2 j hj

/-- The walk over another queue, and what follows it. -/
theorem find_other_step (hwf : Wf s) {q : LoopQueue} (hq : q ≠ .scheduled) (hpc : s.pc = .find q)
    (hinv : PassInv s) (c : JobCall) : RunInv (s.step c) := by
  have hl : Located s .between := by
    unfold PassInv at hinv
    rw [hpc] at hinv
    cases q <;> first | exact hinv.1 | exact absurd rfl hq
  obtain ⟨h1, h2, h3, ht, hnf, hpc'⟩ := nextJob_other hwf hl hq
  unfold PassInv at hinv
  unfold step
  rw [hpc] at hinv ⊢
  simp only
  generalize s.nextJob q = r at *
  obtain ⟨o, s'⟩ := r
  simp only at h1 h2 h3 ht hnf hpc'
  rw [← ht, ← hnf] at hinv
  right
  cases o with
  | some j =>
    have hne := h3 j rfl
    refine ⟨{ h1 with }, ?_⟩
    cases q <;> first | exact ⟨h2, hinv.2, hne⟩ | exact absurd rfl hq
  | none =>
    cases q with
    | topOfFrame =>
      obtain ⟨k1, k2⟩ := startDrain_runInv (s := { s' with frameCount := s'.frameCount + 1 })
        { h1 with } h2 (q := .inputProcessorRun) (by decide)
      exact ⟨k1, k2, hinv.2⟩
    | threadSync =>
      refine ⟨h1, ?_⟩
      show PassInv s'
      unfold PassInv
      rw [hpc', hpc]
      exact ⟨h2, hinv.2⟩
    | inputProcessorRun =>
      obtain ⟨k1, k2⟩ := startDrain_scheduled h1 h2
      exact ⟨k1, Or.inl ⟨k2, hinv.2⟩⟩
    | scheduled => exact absurd rfl hq
    | endOfFrame =>
      refine ⟨{ h1 with }, h2, ?_⟩
      show s'.timeTics < s'.nextFrameCheckTics + s'.softwareFrameTics
      have := h1.frame_pos
      have hfr : s'.timeTics = s'.nextFrameCheckTics := hinv.2
      omega

/-- The end of the pass: the run ends, the frame ends, or the next iteration begins. -/
theorem passEnd_step (hwf : Wf s) (hpc : s.pc = .passEnd) (hinv : PassInv s) :
    RunInv s.passEndStep := by
  unfold PassInv at hinv
  rw [hpc] at hinv
  simp only at hinv
  unfold passEndStep
  split
  · exact Or.inl rfl
  · -- clearing the pending command changes nothing else
    simp only
    generalize hs' : (if s.execCommand = SimCommand.runCmd then
      { s with execCommand := SimCommand.noCmd } else s) = s'
    have hwf' : Wf s' := by subst hs'; split <;> exact { hwf with }
    have hinv' : (Located s' .between ∧ Live s') ∨ Doomed s' := by
      subst hs'; split <;> exact hinv
    clear hs' hinv hwf hpc
    split
    · exact Or.inl rfl
    · rename_i hterm
      rcases hinv' with ⟨hloc, hlive⟩ | hdoom
      · split
        · rename_i hframe
          obtain ⟨h1, h2⟩ := startDrain_runInv hwf' hloc (q := .endOfFrame) (by decide)
          exact Or.inr ⟨h1, h2, hframe⟩
        · rename_i hframe
          refine Or.inr ⟨{ hwf' with }, hloc, ?_⟩
          show s'.timeTics < s'.nextFrameCheckTics
          have := hlive.2
          omega
      · exact absurd hdoom.1 hterm

/-- **The step lemma**: a step that meets its condition keeps the invariant. -/
theorem step_runInv {c : JobCall} (h : RunInv s) (hok : StepOk s c) : RunInv (s.step c) := by
  rcases h with hterm | ⟨hwf, hinv⟩
  · left
    unfold step
    rw [hterm]
    exact hterm
  have hinv0 := hinv
  unfold PassInv at hinv
  unfold StepOk at hok
  cases hpc : s.pc with
  | freezeCheck =>
    rw [hpc] at hinv
    unfold step
    rw [hpc]
    simp only
    split
    · exact Or.inr ⟨{ hwf with }, hinv⟩
    · exact Or.inr ⟨{ hwf with }, hinv⟩
  | freezeInit =>
    rw [hpc] at hinv hok
    unfold step
    rw [hpc]
    have hrun := sameRun_applyCommands s c.commands
    obtain ⟨h1, h2, _⟩ := between_commands hwf hinv.1 (by rw [hpc]; decide) hok
    refine Or.inr ⟨{ h1 with }, h2, ?_⟩
    show (s.applyCommands c.commands).timeTics < (s.applyCommands c.commands).nextFrameCheckTics
    rw [hrun.timeTics, hrun.nextFrameCheckTics]
    exact hinv.2
  | freezeLoop =>
    rw [hpc] at hinv hok
    unfold step
    rw [hpc]
    have hrun := sameRun_applyCommands s c.commands
    obtain ⟨h1, h2, _⟩ := between_commands hwf hinv.1 (by rw [hpc]; decide) hok
    have h3 : (s.applyCommands c.commands).timeTics <
        (s.applyCommands c.commands).nextFrameCheckTics := by
      rw [hrun.timeTics, hrun.nextFrameCheckTics]; exact hinv.2
    have hpc' : (s.applyCommands c.commands).pc = .freezeLoop := hrun.pc.trans hpc
    simp only
    unfold freezeLoopTurn
    simp only
    generalize s.applyCommands c.commands = s' at h1 h2 h3 hpc'
    split
    · exact Or.inl rfl
    · split
      · exact Or.inr ⟨{ h1 with }, h2, h3⟩
      · refine Or.inr ⟨{ h1 with }, ?_⟩
        unfold PassInv
        simp only [hpc']
        exact ⟨h2, h3⟩
      · exact Or.inl rfl
      · refine Or.inr ⟨h1, ?_⟩
        unfold PassInv
        rw [hpc']
        exact ⟨h2, h3⟩
  | unfreeze =>
    rw [hpc] at hinv hok
    unfold step
    rw [hpc]
    have hrun := sameRun_applyCommands s c.commands
    obtain ⟨h1, h2, _⟩ := between_commands hwf hinv.1 (by rw [hpc]; decide) hok
    refine Or.inr ⟨{ h1 with }, h2, ?_⟩
    show (s.applyCommands c.commands).timeTics < (s.applyCommands c.commands).nextFrameCheckTics
    rw [hrun.timeTics, hrun.nextFrameCheckTics]
    exact hinv.2
  | frameStart =>
    rw [hpc] at hinv
    unfold step
    rw [hpc]
    simp only
    split
    · obtain ⟨h1, h2⟩ := startDrain_runInv hwf hinv.1 (q := .topOfFrame) (by decide)
      exact Or.inr ⟨h1, h2, hinv.2⟩
    · obtain ⟨h1, h2⟩ := startDrain_runInv hwf hinv.1 (q := .inputProcessorRun) (by decide)
      exact Or.inr ⟨h1, h2, hinv.2⟩
  | find q =>
    cases q with
    | scheduled => exact find_scheduled_step hwf hpc hinv0 c
    | _ => exact find_other_step hwf (by decide) hpc hinv0 c
  | call q =>
    have hok' : StepOk s c := by unfold StepOk; exact hok
    unfold step
    rw [hpc] at hinv ⊢
    cases q with
    | scheduled =>
      simp only at hinv
      rcases hinv with ⟨hloc, hframe, hne⟩ | hadv | ⟨hloc, hlive, hne⟩
      · rcases callStep_scheduled hwf hpc (by decide) hloc hne hok' with
          ht | ⟨h1, h2, h3, h4, _, h6⟩
        · exact Or.inl ht
        · refine Or.inr ⟨h1, ?_⟩
          unfold PassInv
          rw [h3]
          exact Or.inl ⟨h2, by rw [h4, h6]; exact hframe⟩
      · exact callStep_advance hwf hpc hadv hok'
      · rcases callStep_scheduled hwf hpc (by decide) hloc hne hok' with
          ht | ⟨h1, h2, h3, h4, h5, h6⟩
        · exact Or.inl ht
        · refine Or.inr ⟨h1, ?_⟩
          unfold PassInv
          rw [h3]
          exact Or.inr (Or.inl ⟨h2, by unfold Live; rw [h4, h5, h6]; exact hlive⟩)
    | _ =>
      rcases callStep_other hwf (by decide) hpc hinv.1 hinv.2.2 hok' with ht | ⟨h1, h2, h3, h4, h5⟩
      · exact Or.inl ht
      · refine Or.inr ⟨h1, ?_⟩
        unfold PassInv
        rw [h3]
        exact ⟨h2, by rw [h4, h5]; exact hinv.2.1⟩
  | passEnd =>
    unfold step
    rw [hpc]
    exact passEnd_step hwf hpc hinv0
  | _ =>
    unfold step
    rw [hpc]
    exact Or.inr ⟨hwf, hinv0⟩

end Trick.Exec.Executive
