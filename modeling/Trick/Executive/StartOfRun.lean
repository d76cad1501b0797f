/-
  The start of a run.

  `Started` is what `no_stranded_job` and its companions ask of the state in which a run begins.
  `boot_started` says that the executive has it once `trick_sys` is registered, and `start_started`
  that it still has it when the objects of the simulation have been added.  The jobs of `trick_sys`
  say nothing about time, so the booted executive is the same for every length of a tic and every
  software frame (`boot_reclock`), and one of them can be looked at field by field.
-/
import Trick.Executive.PassInvariant

namespace Trick.Exec.Executive

open Trick.Lib

/-! ## A run about to begin -/

/-- **A run about to begin**: the loop is at its head, every job of the scheduled queue before the
    advancing job is due now or later and every job after it is due later. -/
structure Started (s : Executive) : Prop where
  wf : Wf s
  pc : s.pc = .freezeCheck
  located : Located s .between
  frame : s.timeTics < s.nextFrameCheckTics

theorem Started.runInv {s : Executive} (h : Started s) : RunInv s := by
  right
  refine ⟨h.wf, ?_⟩
  unfold PassInv
  rw [h.pc]
  exact ⟨h.located, h.frame⟩

/-! ## Tics and frames -/

/-- The same simulation with another tic and another software frame. -/
def reclock (v frame : Int) (s : Executive) : Executive :=
  { s with timeTicValue := v, nextFrameCheckTics := frame, softwareFrameTics := frame }

/-- The job says nothing about time. -/
structure Timeless (j : JobData) : Prop where
  cycle : j.cycle = 0
  start : j.start = 0
  stop : j.stop = 10 ^ 37

theorem toTics_zero (v : Int) : toTics v 0 = 0 := by
  unfold toTics
  simp

/-- The times of such a job do not depend on the length of a tic. -/
theorem scheduleTics_timeless {s : Executive} {j : JobData} (hj : Timeless j)
    (hv : 1 ≤ s.timeTicValue) :
    s.scheduleTics j =
      (let j := { j with cycleTics := 0, startTics := 0, stopTics := maxLongLong }
       { j with nextTics := if j.disabled = false then s.timeTics else maxLongLong }) := by
  have hv' : (1 : ℚ) ≤ s.timeTicValue := by exact_mod_cast hv
  have hpos : (0 : ℚ) < s.timeTicValue := lt_of_lt_of_le one_pos hv'
  have hstart : ¬ (0 : ℚ) > (maxLongLong : ℚ) / s.timeTicValue := by
    have : (0 : ℚ) ≤ (maxLongLong : ℚ) / s.timeTicValue :=
      div_nonneg (by unfold maxLongLong; norm_num) (le_of_lt hpos)
    exact not_lt.mpr this
  have hstop : (10 : ℚ) ^ 37 > (maxLongLong : ℚ) / s.timeTicValue := by
    have hle : (maxLongLong : ℚ) / s.timeTicValue ≤ maxLongLong :=
      div_le_self (by unfold maxLongLong; norm_num) hv'
    exact lt_of_le_of_lt hle (by unfold maxLongLong; norm_num)
  unfold scheduleTics JobData.calcCycleTics
  simp only [hj.cycle, hj.start, hj.stop, if_neg hstart, if_pos hstop, toTics_zero, roundTics_zero]
  by_cases hd : j.disabled = false
  · simp only [hd, if_true, add_zero, ite_self]
  · simp only [if_neg hd]

theorem newJob_reclock {s : Executive} {v frame : Int} {j : JobData} (hj : Timeless j)
    (hs : 1 ≤ s.timeTicValue) (hv : 1 ≤ v) (id : Int) :
    (s.reclock v frame).newJob id j = s.newJob id j := by
  have hreg : Timeless (s.registerJob id j) := ⟨hj.cycle, hj.start, hj.stop⟩
  have hsame : (s.reclock v frame).registerJob id j = s.registerJob id j := rfl
  unfold newJob
  rw [hsame, scheduleTics_timeless hreg hs, scheduleTics_timeless hreg (by exact hv)]
  rfl

theorem addJob_reclock {s : Executive} {v frame : Int} {j : JobData} (hj : Timeless j)
    (hs : 1 ≤ s.timeTicValue) (hv : 1 ≤ v) (id : Int) :
    addJob id (s.reclock v frame) j = (addJob id s j).reclock v frame := by
  unfold addJob
  rw [newJob_reclock hj hs hv]
  simp only
  generalize s.newJob id j = new
  -- both sides look at the same queue
  have hq : ∀ s' : Executive, s'.classMap = s.classMap → s'.queueRef new = s.queueRef new := by
    intro s' h
    unfold queueRef
    rw [h]
  conv_lhs => rw [hq]
  conv_rhs => rw [hq]
  cases s.queueRef new with
  | none => rfl
  | some r =>
    rcases r with n | n | n | _ | _
    all_goals first | rfl | (cases n <;> rfl)

theorem addJobs_reclock {v frame : Int} (hv : 1 ≤ v) :
    ∀ (id : Int) (jobs : List JobData) (s : Executive), 1 ≤ s.timeTicValue →
      (∀ j ∈ jobs, Timeless j) →
      jobs.foldl (addJob id) (s.reclock v frame) = (jobs.foldl (addJob id) s).reclock v frame
  | _, [], _, _, _ => rfl
  | id, j :: jobs, s, hs, hall => by
    rw [List.foldl_cons, addJob_reclock (hall j (by simp)) hs hv]
    refine addJobs_reclock hv id jobs _ ?_ fun j' hj' => hall j' (List.mem_cons_of_mem _ hj')
    rw [(sameRun_addJob id s j).timeTicValue]
    exact hs

/-- **A booted executive is the same for every tic and software frame.** -/
theorem boot_reclock {v frame : Int} (hv : 1 ≤ v) :
    boot v frame = (boot 1 10).reclock v frame := by
  have hobj : ∀ jobs ∈ trickSys.inOrder, ∀ j ∈ jobs, Timeless j := by
    intro jobs hjobs j hj
    simp only [trickSys, SimObject.inOrder, SimObject.allInOrder, List.nil_append,
      List.mem_singleton] at hjobs
    subst hjobs
    simp only [List.mem_cons, List.not_mem_nil, or_false] at hj
    rcases hj with rfl | rfl | rfl | rfl <;> exact ⟨rfl, rfl, rfl⟩
  have hadd : ((construct 1 10).reclock v frame).addSimObject trickSys =
      ((construct 1 10).addSimObject trickSys).reclock v frame := by
    unfold addSimObject
    generalize trickSys.inOrder = os at hobj
    have hfold : ∀ (os : List (List JobData)) (s : Executive), 1 ≤ s.timeTicValue →
        (∀ jobs ∈ os, ∀ j ∈ jobs, Timeless j) →
        os.foldl addJobsToQueue (s.reclock v frame) =
          (os.foldl addJobsToQueue s).reclock v frame := by
      intro os
      induction os with
      | nil => intro s _ _; rfl
      | cons o os ih =>
        intro s hs hall
        have hone : addJobsToQueue (s.reclock v frame) o = (addJobsToQueue s o).reclock v frame :=
          addJobs_reclock hv (s.numSimObjects + 1) o
            { s with numSimObjects := s.numSimObjects + 1 } hs (hall o (List.mem_cons_self ..))
        rw [List.foldl_cons, List.foldl_cons, hone]
        refine ih _ ?_ fun o' ho' => hall o' (List.mem_cons_of_mem _ ho')
        rw [(sameRun_addJobsToQueue s o).timeTicValue]
        exact hs
    exact hfold os _ (le_refl _) hobj
  have hconstruct : construct v frame = (construct 1 10).reclock v frame := rfl
  unfold boot
  rw [hconstruct, hadd]
  rfl

/-! ## The booted executive -/

/-- The ids that are not taken stand for blank jobs. -/
def Blank (s : Executive) : Prop := ∀ j, s.numJobs ≤ j → s.jobs j = {}

theorem modifyQueue_jobs (s : Executive) (f : ScheduledJobQueue → ScheduledJobQueue)
    (r : QueueRef) :
    (s.modifyQueue f r).jobs = s.jobs ∧ (s.modifyQueue f r).numJobs = s.numJobs := by
  rcases r with n | n | n | _ | _
  all_goals first | exact ⟨rfl, rfl⟩ | (cases n <;> exact ⟨rfl, rfl⟩)

theorem Blank.addJob {s : Executive} (h : Blank s) (id : Int) (j : JobData) :
    Blank (addJob id s j) := by
  have hjobs : (Executive.addJob id s j).jobs =
      Function.update s.jobs s.numJobs (s.newJob id j) ∧
      (Executive.addJob id s j).numJobs = s.numJobs + 1 := by
    unfold Executive.addJob
    simp only
    split
    · exact ⟨(modifyQueue_jobs _ _ _).1, (modifyQueue_jobs _ _ _).2⟩
    · exact ⟨rfl, rfl⟩
  intro k hk
  rw [hjobs.2] at hk
  rw [hjobs.1, Function.update_of_ne (Nat.ne_of_gt hk)]
  exact h k (Nat.le_of_succ_le hk)

theorem Blank.addSimObject {s : Executive} (h : Blank s) (o : SimObject) :
    Blank (s.addSimObject o) := by
  have hjobs : ∀ (id : Int) (jobs : List JobData) (s : Executive), Blank s →
      Blank (jobs.foldl (Executive.addJob id) s) := by
    intro id jobs
    induction jobs with
    | nil => intro s hs; exact hs
    | cons j jobs ih => intro s hs; exact ih _ (hs.addJob id j)
  have hall : ∀ (os : List (List JobData)) (s : Executive), Blank s →
      Blank (os.foldl addJobsToQueue s) := by
    intro os
    induction os with
    | nil => intro s hs; exact hs
    | cons o os ih => intro s hs; exact ih _ (hjobs _ o _ hs)
  exact hall _ s h

/-- The booted executive, one tic a second and ten tics a frame. -/
theorem boot_second_started : Started (boot 1 10) := by
  have hblank : Blank ((construct 1 10).addSimObject trickSys) :=
    Blank.addSimObject (fun _ _ => rfl) trickSys
  have hnum : ((construct 1 10).addSimObject trickSys).numJobs = 4 := by decide +kernel
  refine ⟨⟨?_, ?_, ?_, ?_, ?_, ?_, ?_, ?_, ?_, ?_, ?_, ?_, ?_, ?_, ?_, ?_, ?_⟩, ?_,
    ⟨[], [0], ?_⟩, ?_⟩
  case refine_5 => intro q; cases q <;> decide +kernel
  case refine_6 => intro q; cases q <;> decide +kernel
  case refine_7 => intro q q'; cases q <;> cases q' <;> decide +kernel
  case refine_13 =>
    have hlow : ∀ j < 4, ((boot 1 10).jobs j).code = .advanceSimTime →
        j = (boot 1 10).advanceSimTimeJob := by decide +kernel
    intro j hj
    by_cases h4 : j < 4
    · exact hlow j h4 hj
    · -- a blank job has user code
      have hj0 : (boot 1 10).jobs j = ((construct 1 10).addSimObject trickSys).jobs j :=
        Function.update_of_ne (by rintro rfl; exact h4 (by decide)) _ _
      rw [hj0, hblank j (hnum ▸ not_lt.mp h4)] at hj
      cases hj
  case refine_19 =>
    refine ⟨?_, ?_, ?_, ?_, ?_, ?_, ?_, ?_, ?_⟩ <;> decide +kernel
  all_goals decide +kernel

/-- **The booted executive**, for every tic and software frame. -/
theorem boot_started {v frame : Int} (hv : 1 ≤ v) (hframe : 1 ≤ frame) :
    Started (boot v frame) := by
  have h := boot_second_started
  have ht : (boot 1 10).timeTics = 0 := by decide +kernel
  have hlt : (boot 1 10).timeTics < frame := by omega
  rw [boot_reclock hv]
  exact ⟨{ h.wf with frame_pos := hframe }, h.pc, h.located, hlt⟩

/-- **A simulation with well landing objects is about to begin its run.** -/
theorem start_started {v frame T : Int} {objects : List SimObject} (hv : 1 ≤ v)
    (hframe : 1 ≤ frame) (hT : T < maxLongLong)
    (hok : CommandsOk (boot v frame) (objects.map .addSimObject)) :
    Started (start v frame T objects) := by
  have hboot := boot_started hv hframe
  have hset : Settled .between (boot v frame).advanceSimTimeJob (boot v frame) :=
    ⟨hboot.wf, hboot.located, by rw [Mode.At, hboot.pc]; decide, rfl⟩
  have h := applyCommands_settled hset hok
  have hrun := sameRun_applyCommands (boot v frame) (objects.map .addSimObject)
  have heq : (boot v frame).applyCommands (objects.map .addSimObject) =
      objects.foldl addSimObject (boot v frame) := by
    unfold applyCommands
    rw [List.foldl_map]
    rfl
  rw [heq] at h hrun
  refine ⟨{ h.wf with terminate_lt := hT }, hrun.pc.trans hboot.pc, h.located, ?_⟩
  show (objects.foldl addSimObject (boot v frame)).timeTics <
    (objects.foldl addSimObject (boot v frame)).nextFrameCheckTics
  rw [hrun.timeTics, hrun.nextFrameCheckTics]
  exact hboot.frame

end Trick.Exec.Executive
