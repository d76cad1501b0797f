/-
  The invariant of the single threaded executive, and the commands that keep it.

  `Wf` is what holds at every moment of a run: the queues have no duplicates and share no job, the
  advancing job and the freeze job are what they should be, every scheduled job has a cycle.
  `Located` puts the zones of the scheduled queue in relation to its cursor: while the head is
  walked, while the tail is walked, and between the passes.

  `CommandOk` is the condition under which a command keeps both.  It is about the moment at which
  the command is given: where in the sorted queue a new job lands, what call time a job behind the
  cursor is given, where a removed job stands.  `applyCommands_settled` is the result.
-/
import Trick.Executive.Zones
import Trick.Executive.RunFrame

namespace Trick.Exec.Executive

open Trick.Lib

/-! ## Good order -/

/-- **The executive in good order.** -/
structure Wf (s : Executive) : Prop where
  threads_nil : s.threads = []
  frame_pos : 1 ≤ s.softwareFrameTics
  time_lt : s.timeTics < maxLongLong
  terminate_lt : s.terminateTime < maxLongLong
  nodup : ∀ q, (s.queue q).list.Nodup
  below : ∀ q, ∀ j ∈ (s.queue q).list, j < s.numJobs
  disjoint : ∀ q q', q ≠ q' → ∀ j ∈ (s.queue q).list, j ∉ (s.queue q').list
  cycle : ∀ j ∈ s.jobQueue.list, (s.jobs j).systemJobClass = false →
    1 ≤ (s.jobs j).cycleTics ∨ (s.jobs j).nextTics = maxLongLong
  adv_lt : s.advanceSimTimeJob < s.numJobs
  adv_code : (s.jobs s.advanceSimTimeJob).code = .advanceSimTime
  adv_enabled : (s.jobs s.advanceSimTimeJob).disabled = false
  adv_system : (s.jobs s.advanceSimTimeJob).systemJobClass = true
  adv_only : ∀ j, (s.jobs j).code = .advanceSimTime → j = s.advanceSimTimeJob
  freeze_lt : s.freezeJob < s.numJobs
  freeze_system : (s.jobs s.freezeJob).systemJobClass = true
  freeze_ne : s.freezeJob ≠ s.advanceSimTimeJob
  freeze_code : (s.jobs s.freezeJob).code ≠ .user

/-- One job changed in its times only. -/
theorem Wf.updateJob {s : Executive} (h : Wf s) (j : JobId) (d : JobData)
    (hcode : d.code = (s.jobs j).code) (hdis : d.disabled = (s.jobs j).disabled)
    (hsys : d.systemJobClass = (s.jobs j).systemJobClass)
    (hcyc : d.systemJobClass = false → 1 ≤ (s.jobs j).cycleTics ∨ (s.jobs j).nextTics = maxLongLong →
      1 ≤ d.cycleTics ∨ d.nextTics = maxLongLong) :
    Wf { s with jobs := Function.update s.jobs j d } := by
  have hfield : ∀ k, (Function.update s.jobs j d k).code = (s.jobs k).code ∧
      (Function.update s.jobs j d k).disabled = (s.jobs k).disabled ∧
      (Function.update s.jobs j d k).systemJobClass = (s.jobs k).systemJobClass := by
    intro k
    by_cases hk : k = j
    · subst hk; rw [Function.update_self]; exact ⟨hcode, hdis, hsys⟩
    · rw [Function.update_of_ne hk]; exact ⟨rfl, rfl, rfl⟩
  refine { h with
    cycle := ?_, adv_code := ?_, adv_enabled := ?_, adv_system := ?_, adv_only := ?_,
    freeze_system := ?_, freeze_code := ?_ }
  · intro k hk hs
    by_cases hkj : k = j
    · subst hkj
      simp only [Function.update_self] at hs ⊢
      exact hcyc hs (h.cycle k hk (hsys ▸ hs))
    · simp only [Function.update_of_ne hkj] at hs ⊢
      exact h.cycle k hk hs
  · exact (hfield _).1.trans h.adv_code
  · exact (hfield _).2.1.trans h.adv_enabled
  · exact (hfield _).2.2.trans h.adv_system
  · intro k hk
    exact h.adv_only k ((hfield k).1.symm.trans hk)
  · exact (hfield _).2.2.trans h.freeze_system
  · intro hk
    exact h.freeze_code ((hfield _).1.symm.trans hk)

/-- A queue of the main loop replaced by one whose jobs fit. -/
theorem Wf.setQueue {s : Executive} (h : Wf s) (q : LoopQueue) (v : ScheduledJobQueue)
    (hnd : v.list.Nodup) (hbelow : ∀ j ∈ v.list, j < s.numJobs)
    (hdis : ∀ j ∈ v.list, j ∈ (s.queue q).list ∨ (∀ q', j ∉ (s.queue q').list))
    (hcyc : q = .scheduled → ∀ j ∈ v.list, (s.jobs j).systemJobClass = false →
      1 ≤ (s.jobs j).cycleTics ∨ (s.jobs j).nextTics = maxLongLong) :
    Wf (s.setQueue q v) := by
  have hjobs : (s.setQueue q v).jobs = s.jobs := by cases q <;> rfl
  have hnum : (s.setQueue q v).numJobs = s.numJobs := by cases q <;> rfl
  have hadv : (s.setQueue q v).advanceSimTimeJob = s.advanceSimTimeJob := by cases q <;> rfl
  have hfrz : (s.setQueue q v).freezeJob = s.freezeJob := by cases q <;> rfl
  have hmain : (s.setQueue q v).jobQueue = (s.setQueue q v).queue .scheduled := rfl
  refine ⟨?_, ?_, ?_, ?_, ?_, ?_, ?_, ?_, ?_, ?_, ?_, ?_, ?_, ?_, ?_, ?_, ?_⟩
  · cases q <;> exact h.threads_nil
  · cases q <;> exact h.frame_pos
  · cases q <;> exact h.time_lt
  · cases q <;> exact h.terminate_lt
  · intro q'
    rw [queue_setQueue]
    split
    · exact hnd
    · exact h.nodup q'
  · intro q'
    rw [queue_setQueue, hnum]
    split
    · exact hbelow
    · exact h.below q'
  · intro q₁ q₂ hne j hj hj'
    rw [queue_setQueue] at hj hj'
    split at hj
    · -- the first queue was replaced
      rename_i hq
      subst hq
      rw [if_neg hne.symm] at hj'
      rcases hdis j hj with hin | hout
      · exact h.disjoint _ _ hne j hin hj'
      · exact hout q₂ hj'
    · split at hj'
      · rename_i hq
        subst hq
        rcases hdis j hj' with hin | hout
        · exact h.disjoint _ _ hne j hj hin
        · exact hout q₁ hj
      · exact h.disjoint _ _ hne j hj hj'
  · intro j hj
    rw [hmain, queue_setQueue] at hj
    rw [hjobs]
    split at hj
    · rename_i hq; exact hcyc hq.symm j hj
    · exact h.cycle j hj
  · rw [hadv, hnum]; exact h.adv_lt
  · rw [hjobs, hadv]; exact h.adv_code
  · rw [hjobs, hadv]; exact h.adv_enabled
  · rw [hjobs, hadv]; exact h.adv_system
  · rw [hjobs, hadv]; exact h.adv_only
  · rw [hfrz, hnum]; exact h.freeze_lt
  · rw [hjobs, hfrz]; exact h.freeze_system
  · rw [hfrz, hadv]; exact h.freeze_ne
  · rw [hjobs, hfrz]; exact h.freeze_code

/-- A queue replaced by one with the same jobs. -/
theorem Wf.setQueue_same {s : Executive} (h : Wf s) (q : LoopQueue) (v : ScheduledJobQueue)
    (hl : v.list = (s.queue q).list) : Wf (s.setQueue q v) := by
  refine h.setQueue q v (hl ▸ h.nodup q) (hl ▸ h.below q) ?_ ?_
  · intro j hj; exact Or.inl (hl ▸ hj)
  · rintro rfl j hj
    exact h.cycle j (hl ▸ hj)

/-! ## The zones and the cursor -/

/-- The three ways in which the scheduled queue is walked. -/
inductive Mode where
  | head | tail | between
deriving DecidableEq

/-- The zones of the scheduled queue of the executive. -/
abbrev ZonesOf (s : Executive) (P W Q V : List JobId) : Prop :=
  Zones s.jobs s.jobQueue s.timeTics s.advanceSimTimeJob s.freezeJob P W Q V

/-- **The zones with the cursor in its place.** -/
def Located (s : Executive) : Mode → Prop
  | .head => ∃ P W Q, ZonesOf s P W Q [] ∧ s.jobQueue.currIndex = P.length
  | .tail => ∃ W Q V, ZonesOf s [] W Q V ∧ s.jobQueue.currIndex = W.length + 1 + Q.length
  | .between => ∃ W Q, ZonesOf s [] W Q []

/-- A job of the scheduled queue that stands before the advancing job is being called. -/
def InHead (s : Executive) : Prop :=
  s.pc = .call .scheduled ∧
    s.jobQueue.currIndex ≤ s.jobQueue.list.idxOf s.advanceSimTimeJob

/-- A job of the scheduled queue that stands after the advancing job is being called. -/
def InTail (s : Executive) : Prop :=
  s.pc = .call .scheduled ∧
    s.jobQueue.list.idxOf s.advanceSimTimeJob < s.jobQueue.currIndex

/-- The mode that goes with a place of the loop from which commands come. -/
def Mode.At (s : Executive) : Mode → Prop
  | .between => s.pc ≠ .call .scheduled
  | _ => s.pc = .call .scheduled

/-- **In good order, the zones located, and the advancing job known.** -/
structure Settled (m : Mode) (a : JobId) (s : Executive) : Prop where
  wf : Wf s
  located : Located s m
  at_pc : m.At s
  adv : s.advanceSimTimeJob = a

variable {m : Mode} {a : JobId} {s : Executive}

theorem Settled.inHead (h : Settled .head a s) : InHead s := by
  obtain ⟨P, W, Q, hz, hcur⟩ := h.located
  refine ⟨h.at_pc, ?_⟩
  rw [hz.idxOf_adv (h.wf.nodup .scheduled), hcur]
  omega

theorem Settled.not_inHead (h : Settled .tail a s) : ¬ InHead s := by
  obtain ⟨W, Q, V, hz, hcur⟩ := h.located
  rintro ⟨_, hle⟩
  rw [hz.idxOf_adv (h.wf.nodup .scheduled), hcur, List.length_nil] at hle
  omega

/-- The jobs behind the cursor are the passed ones while the head is walked. -/
theorem take_passed {P W Q : List JobId} (hz : ZonesOf s P W Q [])
    (hcur : s.jobQueue.currIndex = P.length) :
    s.jobQueue.list.take s.jobQueue.currIndex = P := by
  rw [hz.list_eq, hcur, List.append_assoc, List.take_left]

/-! ## One job changed -/

/-- A change of one job that its zone allows keeps the executive settled. -/
theorem Settled.updateJob (h : Settled m a s) (j : JobId) (d : JobData)
    (hcode : d.code = (s.jobs j).code) (hdis : d.disabled = (s.jobs j).disabled)
    (hsys : d.systemJobClass = (s.jobs j).systemJobClass)
    (hcyc : d.systemJobClass = false → 1 ≤ (s.jobs j).cycleTics ∨ (s.jobs j).nextTics = maxLongLong →
      1 ≤ d.cycleTics ∨ d.nextTics = maxLongLong)
    (hadv : j = s.advanceSimTimeJob → d.nextTics = s.timeTics)
    (hbehind : InHead s → j ∈ s.jobQueue.list.take s.jobQueue.currIndex →
      s.timeTics < d.nextTics → s.jobQueue.nextJobTime ≤ d.nextTics)
    (hdue : d.systemJobClass = false → s.timeTics ≤ (s.jobs j).nextTics →
      s.timeTics ≤ d.nextTics)
    (hlater : d.systemJobClass = false → s.timeTics < (s.jobs j).nextTics →
      s.timeTics < d.nextTics) :
    Settled m a { s with jobs := Function.update s.jobs j d } := by
  refine ⟨h.wf.updateJob j d hcode hdis hsys hcyc, ?_, ?_, h.adv⟩
  · cases m with
    | head =>
      have hin := h.inHead
      obtain ⟨P, W, Q, hz, hcur⟩ := h.located
      refine ⟨P, W, Q, hz.update j d hsys hadv ?_ ?_ hdue hlater, hcur⟩
      · intro hj hs
        exact hlater hs (hz.passed j hj (hsys ▸ hs))
      · intro hj hn
        exact hbehind hin (by rw [take_passed hz hcur]; exact hj) hn
    | tail =>
      obtain ⟨W, Q, V, hz, hcur⟩ := h.located
      exact ⟨W, Q, V, hz.update j d hsys hadv (by intro hj; cases hj) (by intro hj; cases hj)
        hdue hlater, hcur⟩
    | between =>
      obtain ⟨W, Q, hz⟩ := h.located
      exact ⟨W, Q, hz.update j d hsys hadv (by intro hj; cases hj) (by intro hj; cases hj)
        hdue hlater⟩
  · cases m <;> exact h.at_pc

/-- A new call time for the freeze job: it stands in the tail and reschedules itself. -/
theorem Settled.setFreezeTics (h : Settled m a s) (n : Int) :
    Settled m a (s.setNextTics s.freezeJob n) := by
  have hsys := h.wf.freeze_system
  refine h.updateJob s.freezeJob _ rfl rfl rfl ?_ (fun he => absurd he h.wf.freeze_ne) ?_ ?_ ?_
  · intro hs; simp only [hsys, Bool.true_eq_false] at hs
  · intro hin hj
    cases m with
    | head =>
      obtain ⟨P, W, Q, hz, hcur⟩ := h.located
      rw [take_passed hz hcur] at hj
      exact absurd (List.mem_append_left _ hj) hz.freeze_tail
    | tail => exact absurd hin h.not_inHead
    | between => exact absurd hin.1 h.at_pc
  · intro hs; simp only [hsys, Bool.true_eq_false] at hs
  · intro hs; simp only [hsys, Bool.true_eq_false] at hs

/-! ## Conditions on commands -/

/-- `set_cycle` and `set_next_call_time` of `j`: the cycle is at least a tic, and a job behind the
    cursor is not given a call time below the cached one. -/
def RetimeOk (cycle : ℚ) (s : Executive) (j : JobId) : Prop :=
  1 ≤ roundTics s.timeTicValue cycle ∧
    (InHead s → j ∈ s.jobQueue.list.take s.jobQueue.currIndex →
      s.timeTics < ((retimeJob cycle s j).jobs j).nextTics →
      s.jobQueue.nextJobTime ≤ ((retimeJob cycle s j).jobs j).nextTics)

/-- The place in the scheduled queue at which `addJob` inserts. -/
def addIndex (id : Int) (s : Executive) (j : JobData) : Nat :=
  s.jobQueue.insertIndex (Function.update s.jobs s.numJobs (s.newJob id j)) s.numJobs

/-- What is asked of a new job that goes to the scheduled queue: a cycle of at least a tic, a first
    call that is not in the past, and

    * after the advancing job, unless the walk over the tail still comes to it: a first call later
      than the current tic;
    * behind the cursor while the head is walked: a first call not below the cached one. -/
structure LandingOk (id : Int) (s : Executive) (j : JobData) : Prop where
  cycle : 1 ≤ (s.newJob id j).cycleTics ∨ (s.newJob id j).nextTics = maxLongLong
  start : s.timeTics ≤ (s.newJob id j).nextTics
  after_adv : s.jobQueue.list.idxOf s.advanceSimTimeJob < addIndex id s j →
    (InTail s ∧ s.jobQueue.currIndex ≤ addIndex id s j) ∨ s.timeTics < (s.newJob id j).nextTics
  behind : InHead s → addIndex id s j < s.jobQueue.currIndex →
    s.timeTics < (s.newJob id j).nextTics ∧
      s.jobQueue.nextJobTime ≤ (s.newJob id j).nextTics
  size : s.jobQueue.list.length + 1 < uintSize

/-- A new job: user code for the main thread, not a second job that advances the clock, and landing
    well if it goes to the scheduled queue. -/
structure AddOk (id : Int) (s : Executive) (j : JobData) : Prop where
  code : j.code = .user
  className : j.jobClassName ≠ .systemAdvanceSimTime
  thread : j.thread = 0
  landing : s.queueRef (s.newJob id j) = some (.jobQueue 0) → LandingOk id s j

/-- A removed job: not the advancing job, and not the one that the cursor stands on. -/
def RemoveOk (s : Executive) (j : JobId) : Prop :=
  j ≠ s.advanceSimTimeJob ∧
    (s.pc = .call .scheduled → j ∈ s.jobQueue.list →
      s.jobQueue.list.idxOf j ≠ s.jobQueue.currIndex)

/-- **The condition on a command.** -/
def CommandOk (s : Executive) : Command → Prop
  | .setTerminateTime t => toTics s.timeTicValue t < maxLongLong
  | .setJobCycle js c => 0 ≤ c → Guarded (RetimeOk c) (retimeJob c) s js
  | .addSimObject o =>
    Guarded (fun s jobs => Guarded (AddOk (s.numSimObjects + 1)) (addJob (s.numSimObjects + 1))
      { s with numSimObjects := s.numSimObjects + 1 } jobs) addJobsToQueue s o.inOrder
  | .deleteSimObject ids =>
    Guarded (fun s id => Guarded RemoveOk removeJob s (s.simObjectJobs id)) removeJobs s ids
  | _ => True

/-- The commands of one call, each in the state in which it is given. -/
def CommandsOk (s : Executive) (cmds : List Command) : Prop :=
  Guarded CommandOk applyCommand s cmds

/-! The conditions can be tested. -/

instance (s : Executive) : Decidable (InHead s) := inferInstanceAs (Decidable (_ ∧ _))

instance (s : Executive) : Decidable (InTail s) := inferInstanceAs (Decidable (_ ∧ _))

instance (c : ℚ) (s : Executive) (j : JobId) : Decidable (RetimeOk c s j) :=
  inferInstanceAs (Decidable (_ ∧ (_ → _ → _ → _)))

instance (id : Int) (s : Executive) (j : JobData) : Decidable (LandingOk id s j) :=
  decidable_of_iff
    ((1 ≤ (s.newJob id j).cycleTics ∨ (s.newJob id j).nextTics = maxLongLong) ∧
      s.timeTics ≤ (s.newJob id j).nextTics ∧
      (s.jobQueue.list.idxOf s.advanceSimTimeJob < addIndex id s j →
        (InTail s ∧ s.jobQueue.currIndex ≤ addIndex id s j) ∨
          s.timeTics < (s.newJob id j).nextTics) ∧
      (InHead s → addIndex id s j < s.jobQueue.currIndex →
        s.timeTics < (s.newJob id j).nextTics ∧
          s.jobQueue.nextJobTime ≤ (s.newJob id j).nextTics) ∧
      s.jobQueue.list.length + 1 < uintSize)
    ⟨fun h => ⟨h.1, h.2.1, h.2.2.1, h.2.2.2.1, h.2.2.2.2⟩,
      fun h => ⟨h.cycle, h.start, h.after_adv, h.behind, h.size⟩⟩

instance (id : Int) (s : Executive) (j : JobData) : Decidable (AddOk id s j) :=
  decidable_of_iff
    (j.code = .user ∧ j.jobClassName ≠ .systemAdvanceSimTime ∧ j.thread = 0 ∧
      (s.queueRef (s.newJob id j) = some (.jobQueue 0) → LandingOk id s j))
    ⟨fun h => ⟨h.1, h.2.1, h.2.2.1, h.2.2.2⟩,
      fun h => ⟨h.code, h.className, h.thread, h.landing⟩⟩

instance (s : Executive) (j : JobId) : Decidable (RemoveOk s j) :=
  inferInstanceAs (Decidable (_ ∧ (_ → _ → _)))

instance CommandOk.decidable (s : Executive) : (c : Command) → Decidable (CommandOk s c)
  | .setTerminateTime _ => inferInstanceAs (Decidable (_ < _))
  | .setJobCycle _ _ => inferInstanceAs (Decidable (_ → Guarded _ _ _ _))
  | .addSimObject _ => inferInstanceAs (Decidable (Guarded _ _ _ _))
  | .deleteSimObject _ => inferInstanceAs (Decidable (Guarded _ _ _ _))
  | .freeze | .freezeAt _ | .setFreezeOnFrameBoundary _ | .setExecCommand _
  | .setThreadEnabled _ _ => isTrue trivial

instance (s : Executive) (cmds : List Command) : Decidable (CommandsOk s cmds) :=
  inferInstanceAs (Decidable (Guarded _ _ _ _))

/-! ## Each command keeps the executive settled -/

theorem retimeJob_settled {c : ℚ} {j : JobId} (h : Settled m a s) (hok : RetimeOk c s j) :
    Settled m a (retimeJob c s j) := by
  obtain ⟨hc, hbehind⟩ := hok
  have hself : (retimeJob c s j).jobs j =
      ((s.jobs j).setCycle s.timeTicValue c).setNextCallTime s.timeTics := by
    show Function.update s.jobs j _ j = _
    rw [Function.update_self]
  rw [hself] at hbehind
  have hcyc : 1 ≤ ((s.jobs j).setCycle s.timeTicValue c).cycleTics := hc
  refine h.updateJob j _ rfl rfl rfl (fun _ _ => Or.inl hcyc) ?_ hbehind ?_ ?_
  · rintro rfl
    refine JobData.setNextCallTime_of_le ?_
    show (s.jobs s.advanceSimTimeJob).nextTics ≤ s.timeTics
    have hadv : (s.jobs s.advanceSimTimeJob).nextTics = s.timeTics := by
      cases m with
      | head => obtain ⟨P, W, Q, hz, _⟩ := h.located; exact hz.adv_next
      | tail => obtain ⟨W, Q, V, hz, _⟩ := h.located; exact hz.adv_next
      | between => obtain ⟨W, Q, hz⟩ := h.located; exact hz.adv_next
    omega
  · intro _ _; exact JobData.setNextCallTime_ge hcyc
  · intro _ hn; exact JobData.setNextCallTime_gt hcyc hn

/-- An operation on the queues other than the scheduled one. -/
theorem Settled.setOther (h : Settled m a s) {q : LoopQueue} (hq : q ≠ .scheduled)
    {v : ScheduledJobQueue} (hwf : Wf (s.setQueue q v)) : Settled m a (s.setQueue q v) := by
  have hmain : (s.setQueue q v).jobQueue = s.jobQueue := by
    cases q <;> first | rfl | exact absurd rfl hq
  refine ⟨hwf, ?_, ?_, ?_⟩
  · cases m with
    | head =>
      obtain ⟨P, W, Q, hz, hcur⟩ := h.located
      refine ⟨P, W, Q, ?_, hmain ▸ hcur⟩
      cases q <;> first | exact hz | exact absurd rfl hq
    | tail =>
      obtain ⟨W, Q, V, hz, hcur⟩ := h.located
      refine ⟨W, Q, V, ?_, hmain ▸ hcur⟩
      cases q <;> first | exact hz | exact absurd rfl hq
    | between =>
      obtain ⟨W, Q, hz⟩ := h.located
      refine ⟨W, Q, ?_⟩
      cases q <;> first | exact hz | exact absurd rfl hq
  · cases q <;> cases m <;> exact h.at_pc
  · cases q <;> exact h.adv

/-! ## `add_sim_object` -/

/-- `push` into the scheduled queue, for a new job that lands well. -/
theorem Settled.pushScheduled (h : Settled m a s) {x : JobId}
    (hfresh : ∀ q, x ∉ (s.queue q).list) (hlt : x < s.numJobs) (hfrz : x ≠ s.freezeJob)
    (hcyc : 1 ≤ (s.jobs x).cycleTics ∨ (s.jobs x).nextTics = maxLongLong)
    (hstart : s.timeTics ≤ (s.jobs x).nextTics)
    (hafter : s.jobQueue.list.idxOf s.advanceSimTimeJob < s.jobQueue.insertIndex s.jobs x →
      (InTail s ∧ s.jobQueue.currIndex ≤ s.jobQueue.insertIndex s.jobs x) ∨
        s.timeTics < (s.jobs x).nextTics)
    (hbehind : InHead s → s.jobQueue.insertIndex s.jobs x < s.jobQueue.currIndex →
      s.timeTics < (s.jobs x).nextTics ∧ s.jobQueue.nextJobTime ≤ (s.jobs x).nextTics)
    (hsize : s.jobQueue.list.length + 1 < uintSize) :
    Settled m a (s.setQueue .scheduled (s.jobQueue.push s.jobs x)) := by
  have hnd := h.wf.nodup .scheduled
  have hidx : s.jobQueue.insertIndex s.jobs x ≤ s.jobQueue.list.length :=
    upperBound_le_length _ _ _
  have hwf : Wf (s.setQueue .scheduled (s.jobQueue.push s.jobs x)) := by
    refine h.wf.setQueue .scheduled _ (nodup_insertAt (hfresh .scheduled) hnd) ?_ ?_ ?_
    · intro j hj
      rcases mem_insertAt.mp hj with rfl | hj
      · exact hlt
      · exact h.wf.below .scheduled j hj
    · intro j hj
      rcases mem_insertAt.mp hj with rfl | hj
      · exact Or.inr hfresh
      · exact Or.inl hj
    · intro _ j hj hs
      rcases mem_insertAt.mp hj with rfl | hj
      · exact hcyc
      · exact h.wf.cycle j hj hs
  refine ⟨hwf, ?_, ?_, h.adv⟩
  swap
  · cases m <;> exact h.at_pc
  have hcase : ∀ {k : Nat}, s.jobQueue.currIndex = k →
      (s.jobQueue.push s.jobs x).currIndex =
        if s.jobQueue.insertIndex s.jobs x < k then (k + 1) % uintSize else k := by
    rintro k rfl; rfl
  cases m with
  | head =>
    have hin := h.inHead
    obtain ⟨P, W, Q, hz, hcur⟩ := h.located
    have hlen : s.jobQueue.list.length = P.length + W.length + 1 + Q.length := by
      rw [hz.list_eq]; simp only [List.length_append, List.length_cons, List.append_nil]; omega
    rw [hz.idxOf_adv hnd] at hafter
    rcases lt_or_ge (s.jobQueue.insertIndex s.jobs x) P.length with hi | hi
    · -- behind the cursor
      obtain ⟨hn, hle⟩ := hbehind hin (by omega)
      refine ⟨_, _, _, hz.insert_passed rfl rfl hfrz (le_of_lt hi) hn hle, ?_⟩
      show (s.jobQueue.push s.jobs x).currIndex = _
      rw [hcase hcur, if_pos hi, length_insertAt, Nat.mod_eq_of_lt (by omega)]
    · rcases le_or_gt (s.jobQueue.insertIndex s.jobs x) (P.length + W.length) with hi2 | hi2
      · -- in front of the cursor, before the advancing job
        refine ⟨_, _, _, hz.insert_waiting rfl rfl hfrz hi hi2 hstart, ?_⟩
        show (s.jobQueue.push s.jobs x).currIndex = _
        rw [hcase hcur, if_neg (by omega)]
      · -- after the advancing job
        have hn : s.timeTics < (s.jobs x).nextTics := by
          rcases hafter hi2 with ⟨hit, _⟩ | hn
          · have := hit.2; have := hin.2; omega
          · exact hn
        obtain ⟨k, hk⟩ : ∃ k, s.jobQueue.insertIndex s.jobs x = P.length + W.length + 1 + k :=
          ⟨_, (Nat.add_sub_cancel' hi2).symm⟩
        refine ⟨_, _, _, hz.insert_quiet rfl rfl hk (by omega) hn, ?_⟩
        show (s.jobQueue.push s.jobs x).currIndex = _
        rw [hcase hcur, if_neg (by omega)]
  | tail =>
    obtain ⟨W, Q, V, hz, hcur⟩ := h.located
    have hlen : s.jobQueue.list.length = W.length + 1 + Q.length + V.length := by
      rw [hz.list_eq]; simp only [List.length_append, List.length_cons, List.nil_append]; omega
    rw [hz.idxOf_adv hnd, List.length_nil, Nat.zero_add] at hafter
    rcases le_or_gt (s.jobQueue.insertIndex s.jobs x) W.length with hi | hi
    · -- before the advancing job: looked at in the next pass
      refine ⟨_, _, _, hz.insert_waiting rfl rfl hfrz (Nat.zero_le _) (by simpa using hi) hstart,
        ?_⟩
      show (s.jobQueue.push s.jobs x).currIndex = _
      rw [hcase hcur, if_pos (by omega), length_insertAt, Nat.mod_eq_of_lt (by omega)]
      omega
    · obtain ⟨k, hk⟩ : ∃ k, s.jobQueue.insertIndex s.jobs x = W.length + 1 + k :=
        ⟨_, (Nat.add_sub_cancel' hi).symm⟩
      rcases lt_or_ge k Q.length with hi2 | hi2
      · -- behind the cursor
        have hn : s.timeTics < (s.jobs x).nextTics := by
          rcases hafter hi with ⟨_, hle⟩ | hn
          · omega
          · exact hn
        refine ⟨_, _, _, hz.insert_quiet rfl rfl (by simpa using hk) (le_of_lt hi2) hn, ?_⟩
        show (s.jobQueue.push s.jobs x).currIndex = _
        rw [hcase hcur, if_pos (by omega), length_insertAt, Nat.mod_eq_of_lt (by omega)]
        omega
      · -- the walk still comes to it
        refine ⟨_, _, _, hz.insert_pending rfl rfl (by simpa using hk) hi2 hstart, ?_⟩
        show (s.jobQueue.push s.jobs x).currIndex = _
        rw [hcase hcur, if_neg (by omega)]
  | between =>
    obtain ⟨W, Q, hz⟩ := h.located
    have hlen : s.jobQueue.list.length = W.length + 1 + Q.length := by
      rw [hz.list_eq]; simp only [List.length_append, List.length_cons, List.nil_append,
        List.append_nil]; omega
    rw [hz.idxOf_adv hnd, List.length_nil, Nat.zero_add] at hafter
    rcases le_or_gt (s.jobQueue.insertIndex s.jobs x) W.length with hi | hi
    · exact ⟨_, _, hz.insert_waiting rfl rfl hfrz (Nat.zero_le _) (by simpa using hi) hstart⟩
    · have hn : s.timeTics < (s.jobs x).nextTics := by
        rcases hafter hi with ⟨hit, _⟩ | hn
        · exact absurd hit.1 h.at_pc
        · exact hn
      obtain ⟨k, hk⟩ : ∃ k, s.jobQueue.insertIndex s.jobs x = W.length + 1 + k :=
        ⟨_, (Nat.add_sub_cancel' hi).symm⟩
      exact ⟨_, _, hz.insert_quiet rfl rfl (by simpa using hk) (by omega) hn⟩

/-- A new job in the store, before it is pushed. -/
def withNewJob (id : Int) (s : Executive) (j : JobData) : Executive :=
  { s with
    jobs := Function.update s.jobs s.numJobs (s.newJob id j)
    numJobs := s.numJobs + 1
    simObjectJobs := Function.update s.simObjectJobs id (s.simObjectJobs id ++ [s.numJobs]) }

/-- `addJob` for a job of the main thread. -/
theorem addJob_eq {id : Int} {j : JobData} (hth : s.threads = [])
    (hcls : j.jobClassName ≠ .systemAdvanceSimTime) (hthr : j.thread = 0) :
    addJob id s j =
      match s.queueRef (s.newJob id j) with
      | some r => (withNewJob id s j).modifyQueue
          (fun q => q.push (withNewJob id s j).jobs s.numJobs) r
      | none => withNewJob id s j := by
  have hnil : s.threads ++ List.replicate (j.thread - s.threads.length) ({} : Threads) =
      s.threads := by rw [hth, hthr]; rfl
  unfold addJob
  simp only [if_neg hcls, hnil]
  rfl

/-- The store may grow. -/
theorem Settled.withNewJob (h : Settled m a s) (id : Int) {j : JobData}
    (hcode : j.code = .user) : Settled m a (withNewJob id s j) := by
  have hold : ∀ k, k < s.numJobs →
      Function.update s.jobs s.numJobs (s.newJob id j) k = s.jobs k := by
    intro k hk
    exact Function.update_of_ne (Nat.ne_of_lt hk) _ _
  have hmain : ∀ k ∈ s.jobQueue.list,
      Function.update s.jobs s.numJobs (s.newJob id j) k = s.jobs k :=
    fun k hk => hold k (h.wf.below .scheduled k hk)
  have hwf : Wf (Executive.withNewJob id s j) := by
    have hadv := hold _ h.wf.adv_lt
    have hfrz := hold _ h.wf.freeze_lt
    refine ⟨h.wf.threads_nil, h.wf.frame_pos, h.wf.time_lt, h.wf.terminate_lt, h.wf.nodup, ?_,
      h.wf.disjoint, ?_, Nat.lt_succ_of_lt h.wf.adv_lt, ?_, ?_, ?_, ?_,
      Nat.lt_succ_of_lt h.wf.freeze_lt, ?_, h.wf.freeze_ne, ?_⟩
    · intro q k hk
      exact Nat.lt_succ_of_lt (h.wf.below q k hk)
    · intro k hk
      show (Function.update s.jobs s.numJobs _ k).systemJobClass = false → _
      unfold Executive.withNewJob
      simp only [hmain k hk]
      exact h.wf.cycle k hk
    · exact (congrArg JobData.code hadv).trans h.wf.adv_code
    · exact (congrArg JobData.disabled hadv).trans h.wf.adv_enabled
    · exact (congrArg JobData.systemJobClass hadv).trans h.wf.adv_system
    · intro k hk
      by_cases hks : k = s.numJobs
      · subst hks
        have hnew : ((Executive.withNewJob id s j).jobs s.numJobs).code = j.code := by
          show (Function.update s.jobs s.numJobs _ s.numJobs).code = _
          rw [Function.update_self, newJob_code]
        rw [hnew, hcode] at hk
        cases hk
      · refine h.wf.adv_only k ?_
        have : (Executive.withNewJob id s j).jobs k = s.jobs k := Function.update_of_ne hks _ _
        rw [← this]; exact hk
    · exact (congrArg JobData.systemJobClass hfrz).trans h.wf.freeze_system
    · intro hk
      exact h.wf.freeze_code ((congrArg JobData.code hfrz).symm.trans hk)
  refine ⟨hwf, ?_, ?_, h.adv⟩
  · cases m with
    | head =>
      obtain ⟨P, W, Q, hz, hcur⟩ := h.located
      exact ⟨P, W, Q, hz.congr hmain, hcur⟩
    | tail =>
      obtain ⟨W, Q, V, hz, hcur⟩ := h.located
      exact ⟨W, Q, V, hz.congr hmain, hcur⟩
    | between =>
      obtain ⟨W, Q, hz⟩ := h.located
      exact ⟨W, Q, hz.congr hmain⟩
  · cases m <;> exact h.at_pc

theorem addJob_settled {id : Int} {j : JobData} (h : Settled m a s) (hok : AddOk id s j) :
    Settled m a (addJob id s j) := by
  have hnew := h.withNewJob id hok.code
  have hself : (withNewJob id s j).jobs s.numJobs = s.newJob id j := Function.update_self ..
  have hfresh : ∀ q, s.numJobs ∉ ((withNewJob id s j).queue q).list := by
    intro q hq
    have : s.numJobs < s.numJobs := h.wf.below q _ (by cases q <;> exact hq)
    omega
  have hlt : s.numJobs < (withNewJob id s j).numJobs := Nat.lt_succ_self _
  rw [addJob_eq h.wf.threads_nil hok.className hok.thread]
  cases hr : s.queueRef (s.newJob id j) with
  | none => exact hnew
  | some r =>
    simp only
    rw [modifyQueue_eq hnew.wf.threads_nil]
    cases hq : r.loopQueue with
    | none => exact hnew
    | some q =>
      simp only
      by_cases hsch : q = .scheduled
      · subst hsch
        have hl := hok.landing (hr.trans (congrArg some (QueueRef.loopQueue_eq_scheduled hq)))
        have hfrz : s.numJobs ≠ (withNewJob id s j).freezeJob :=
          (Nat.ne_of_lt h.wf.freeze_lt).symm
        refine hnew.pushScheduled hfresh hlt hfrz ?_ ?_ ?_ ?_ hl.size
        · rw [hself]; exact hl.cycle
        · rw [hself]; exact hl.start
        · rw [hself]; exact hl.after_adv
        · rw [hself]; exact hl.behind
      · refine hnew.setOther hsch (hnew.wf.setQueue q _ ?_ ?_ ?_ ?_)
        · exact nodup_insertAt (hfresh q) (hnew.wf.nodup q)
        · intro k hk
          rcases mem_insertAt.mp hk with rfl | hk
          · exact hlt
          · exact hnew.wf.below q k hk
        · intro k hk
          rcases mem_insertAt.mp hk with rfl | hk
          · exact Or.inr hfresh
          · exact Or.inl hk
        · intro he; exact absurd he hsch

/-! ## `delete_sim_object` -/

/-- `remove` from the scheduled queue, away from the cursor. -/
theorem Settled.removeScheduled (h : Settled m a s) {j : JobId} (hok : RemoveOk s j) :
    Settled m a (s.setQueue .scheduled (s.jobQueue.remove j)) := by
  have hnd := h.wf.nodup .scheduled
  obtain ⟨hadv, hcursor⟩ := hok
  by_cases hj : j ∈ s.jobQueue.list
  swap
  · -- the job is not in the queue
    have hsame : s.jobQueue.remove j = s.jobQueue := by
      unfold ScheduledJobQueue.remove; rw [if_neg hj]
    rw [hsame]
    exact h
  have hlist : (s.jobQueue.remove j).list = s.jobQueue.list.erase j := by
    unfold ScheduledJobQueue.remove; rw [if_pos hj]
  have htime : (s.jobQueue.remove j).nextJobTime = s.jobQueue.nextJobTime := by
    unfold ScheduledJobQueue.remove; rw [if_pos hj]
  have hcurIdx : (s.jobQueue.remove j).currIndex =
      if s.jobQueue.list.idxOf j ≤ s.jobQueue.currIndex then
        if s.jobQueue.currIndex = 0 then uintSize - 1 else s.jobQueue.currIndex - 1
      else s.jobQueue.currIndex := by
    unfold ScheduledJobQueue.remove; rw [if_pos hj]
  have hwf : Wf (s.setQueue .scheduled (s.jobQueue.remove j)) := by
    refine h.wf.setQueue .scheduled _ (hlist ▸ hnd.erase j) ?_ ?_ ?_
    · intro k hk
      rw [hlist] at hk
      exact h.wf.below .scheduled k (List.mem_of_mem_erase hk)
    · intro k hk
      rw [hlist] at hk
      exact Or.inl (List.mem_of_mem_erase hk)
    · intro _ k hk
      rw [hlist] at hk
      exact h.wf.cycle k (List.mem_of_mem_erase hk)
  refine ⟨hwf, ?_, ?_, h.adv⟩
  swap
  · cases m <;> exact h.at_pc
  cases m with
  | head =>
    have hne := hcursor h.at_pc hj
    obtain ⟨P, W, Q, hz, hcur⟩ := h.located
    refine ⟨_, _, _, hz.erase hlist htime hnd hadv, ?_⟩
    show (s.jobQueue.remove j).currIndex = _
    rw [hcurIdx, hcur]
    rw [hz.list_eq, List.append_assoc, List.idxOf_append, hcur] at hne
    rw [hz.list_eq, List.append_assoc, List.idxOf_append]
    by_cases hjP : j ∈ P
    · -- behind the cursor
      have hlt := List.idxOf_lt_length_of_mem hjP
      rw [if_pos hjP, if_pos (le_of_lt hlt), if_neg (by omega), List.length_erase_of_mem hjP]
    · rw [if_neg hjP] at hne
      rw [if_neg hjP, if_neg (by omega), List.erase_of_not_mem hjP]
  | tail =>
    have hne := hcursor h.at_pc hj
    obtain ⟨W, Q, V, hz, hcur⟩ := h.located
    have hadvnot := h.wf.nodup .scheduled
    refine ⟨_, _, _, hz.erase hlist htime hnd hadv, ?_⟩
    show (s.jobQueue.remove j).currIndex = _
    have hidx : s.jobQueue.list.idxOf j =
        if j ∈ W then W.idxOf j
        else if j ∈ Q then Q.idxOf j + 1 + W.length
        else V.idxOf j + Q.length + 1 + W.length := by
      rw [hz.list_eq, List.nil_append, List.idxOf_append, List.idxOf_cons_ne _ (Ne.symm hadv),
        List.idxOf_append]
      split_ifs <;> rfl
    rw [hcurIdx, hcur]
    rw [hidx, hcur] at hne
    rw [hidx]
    have hexcl : j ∈ W → j ∉ Q := by
      intro hw hq
      have := h.wf.nodup .scheduled
      rw [show s.queue .scheduled = s.jobQueue from rfl, hz.list_eq] at this
      exact (List.nodup_append.mp this).2.2 j (by simp [hw]) j (by simp [hq]) rfl
    by_cases hjW : j ∈ W
    · have hlt := List.idxOf_lt_length_of_mem hjW
      rw [if_pos hjW, if_pos (by omega), if_neg (by omega), List.length_erase_of_mem hjW,
        List.erase_of_not_mem (hexcl hjW)]
      omega
    · rw [if_neg hjW] at hne ⊢
      rw [List.erase_of_not_mem hjW]
      by_cases hjQ : j ∈ Q
      · have hlt := List.idxOf_lt_length_of_mem hjQ
        rw [if_pos hjQ, if_pos (by omega), if_neg (by omega), List.length_erase_of_mem hjQ]
        omega
      · rw [if_neg hjQ] at hne ⊢
        rw [if_neg (by omega), List.erase_of_not_mem hjQ]
  | between =>
    obtain ⟨W, Q, hz⟩ := h.located
    exact ⟨_, _, hz.erase hlist htime hnd hadv⟩

theorem removeJob_settled {j : JobId} (h : Settled m a s) (hok : RemoveOk s j) :
    Settled m a (s.removeJob j) := by
  unfold removeJob
  cases hr : s.queueRef (s.jobs j) with
  | none => exact h
  | some r =>
    simp only
    rw [modifyQueue_eq h.wf.threads_nil]
    cases hq : r.loopQueue with
    | none => exact h
    | some q =>
      simp only
      by_cases hsch : q = .scheduled
      · subst hsch
        exact h.removeScheduled hok
      · have hsub : ∀ k ∈ ((s.queue q).remove j).list, k ∈ (s.queue q).list := by
          intro k hk
          unfold ScheduledJobQueue.remove at hk
          split at hk
          · exact List.mem_of_mem_erase hk
          · exact hk
        have hnd : ((s.queue q).remove j).list.Nodup := by
          unfold ScheduledJobQueue.remove
          split
          · exact (h.wf.nodup q).erase j
          · exact h.wf.nodup q
        refine h.setOther hsch (h.wf.setQueue q _ hnd ?_ ?_ ?_)
        · intro k hk; exact h.wf.below q k (hsub k hk)
        · intro k hk; exact Or.inl (hsub k hk)
        · intro he; exact absurd he hsch

/-! ## All commands -/

/-- Fields that no invariant looks at may change. -/
theorem Settled.of_fields (h : Settled m a s) {s' : Executive} (hwf : Wf s')
    (hjobs : s'.jobs = s.jobs) (hq : s'.jobQueue = s.jobQueue) (ht : s'.timeTics = s.timeTics)
    (hadv : s'.advanceSimTimeJob = s.advanceSimTimeJob) (hfrz : s'.freezeJob = s.freezeJob)
    (hpc : s'.pc = s.pc) : Settled m a s' := by
  refine ⟨hwf, ?_, ?_, hadv.trans h.adv⟩
  · cases m with
    | head =>
      obtain ⟨P, W, Q, hz, hcur⟩ := h.located
      exact ⟨P, W, Q, by unfold ZonesOf; rw [hjobs, hq, ht, hadv, hfrz]; exact hz, by rw [hq, hcur]⟩
    | tail =>
      obtain ⟨W, Q, V, hz, hcur⟩ := h.located
      exact ⟨W, Q, V, by unfold ZonesOf; rw [hjobs, hq, ht, hadv, hfrz]; exact hz, by rw [hq, hcur]⟩
    | between =>
      obtain ⟨W, Q, hz⟩ := h.located
      exact ⟨W, Q, by unfold ZonesOf; rw [hjobs, hq, ht, hadv, hfrz]; exact hz⟩
  · have := h.at_pc
    cases m <;> (unfold Mode.At at this ⊢; rw [hpc]; exact this)

theorem freezeAt_settled (h : Settled m a s) (t : ℚ) : Settled m a (s.freezeAt t) := by
  have hpush : Settled m a { s with
      freezeTimes := s.freezeTimes.orderedInsert (· ≤ ·) (toTics s.timeTicValue t) } :=
    h.of_fields { h.wf with } rfl rfl rfl rfl rfl rfl
  unfold freezeAt
  simp only
  split
  · split
    · exact hpush.setFreezeTics _
    · exact hpush
  · exact h

theorem schedFreeze_settled (h : Settled m a s) (b : Bool) :
    Settled m a (s.schedFreezeToExecCommand b) := by
  unfold schedFreezeToExecCommand
  simp only
  split
  · refine Settled.setFreezeTics ?_ _
    exact h.of_fields { h.wf with } rfl rfl rfl rfl rfl rfl
  · exact h

/-- **A command that meets its condition keeps the executive settled.** -/
theorem applyCommand_settled {c : Command} (h : Settled m a s) (hok : CommandOk s c) :
    Settled m a (s.applyCommand c) := by
  cases c with
  | freezeAt t => exact freezeAt_settled h t
  | setTerminateTime t =>
    exact h.of_fields { h.wf with terminate_lt := hok } rfl rfl rfl rfl rfl rfl
  | setJobCycle js c =>
    show Settled m a (s.setJobCycle js c)
    unfold setJobCycle
    split
    · exact h
    · rename_i hneg
      exact Guarded.invariant (fun s j hs hj => retimeJob_settled hs hj) js s h
        (hok (not_lt.mp hneg))
  | addSimObject o =>
    refine Guarded.invariant (fun s jobs hs hjobs => ?_) _ s h hok
    refine Guarded.invariant (fun s j hs hj => addJob_settled hs hj) jobs _ ?_ hjobs
    exact hs.of_fields { hs.wf with } rfl rfl rfl rfl rfl rfl
  | deleteSimObject ids =>
    refine Guarded.invariant (fun s i hs hi => ?_) ids s h hok
    exact Guarded.invariant (fun s j hs hj => removeJob_settled hs hj) _ s hs hi
  | setThreadEnabled n b =>
    show Settled m a (s.setThreadEnabled n b)
    have hnil : (s.setThreadEnabled n b).threads = [] := by
      unfold setThreadEnabled
      split
      · exact h.wf.threads_nil
      · rename_i k
        show s.threads.modify k _ = []
        rw [h.wf.threads_nil]; cases k <;> rfl
    have hwf : Wf (s.setThreadEnabled n b) := by
      cases n with
      | zero => exact h.wf
      | succ n => exact { h.wf with threads_nil := hnil }
    cases n with
    | zero => exact h
    | succ n => exact h.of_fields hwf rfl rfl rfl rfl rfl rfl
  | _ => exact h.of_fields { h.wf with } rfl rfl rfl rfl rfl rfl

/-- **All the commands of a call.** -/
theorem applyCommands_settled {cmds : List Command} (h : Settled m a s)
    (hok : CommandsOk s cmds) : Settled m a (s.applyCommands cmds) :=
  Guarded.invariant (fun _ _ hs hc => applyCommand_settled hs hc) cmds s h hok

end Trick.Exec.Executive
