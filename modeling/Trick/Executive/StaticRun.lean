/-
  Runs in which no job changes the schedule.

  `Plan` is what such a run leaves alone: the jobs of the scheduled queue before the advancing job
  (`head`) and after it (`tail`), their cycles, the terminate time.  The clock is advanced in the
  middle of a pass, so at each tic the jobs of the tail are called first, as the end of one pass, and
  then the jobs of the head, as the beginning of the next: `Plan.before t` is the list of calls that
  are made before tic `t`.

  `Periodic` is the invariant: each job keeps its next due tic, and the calls made so far are
  `before t`, the due jobs of the tail that have been passed at `t`, and those of the head.  `rank`
  goes down at every step, so the run ends; `static_run` is the result.
-/
import Trick.Lib.Cycle
import Trick.Executive.ClockStep

namespace Trick.Exec.Executive

open Trick.Lib

/-! ## The plan of a run -/

/-- **What a run without changes to the schedule leaves alone.** -/
structure Plan where
  head : List JobId
  tail : List JobId
  adv : JobId
  frz : JobId
  /-- The jobs at the start of the run. -/
  jobs : JobHeap
  startTics : Int
  terminateTime : Int

namespace Plan

variable (p : Plan)

/-- The job is one that the scheduler reschedules. -/
def User (j : JobId) : Prop := j ∈ p.head ++ p.tail ∧ (p.jobs j).systemJobClass = false

instance (j : JobId) : Decidable (p.User j) := inferInstanceAs (Decidable (_ ∧ _))

/-- The cycle of a job: from its first call time on. -/
def cycle (j : JobId) : Cycle := ⟨(p.jobs j).nextTics, (p.jobs j).cycleTics, (p.jobs j).stopTics⟩

/-- The calls at tic `t` among the jobs of `l`, in the order of `l`. -/
def due (l : List JobId) (t : Int) : List (JobId × Int) :=
  (l.filter fun j => p.User j ∧ (p.cycle j).Due t).map fun j => (j, t)

/-- **The calls before tic `t`.** -/
def before (t : Int) : List (JobId × Int) :=
  (List.range (t - p.startTics).toNat).flatMap fun k : Nat =>
    p.due p.tail (p.startTics + k) ++ p.due p.head (p.startTics + k)

/-- What is asked of the jobs: those of the user are enabled, have a cycle of at least a tic and do
    not stop before they start; the only other job is the freeze job, in the tail. -/
structure Ok : Prop where
  terminate_lt : p.terminateTime < maxLongLong
  code : ∀ j, p.User j → (p.jobs j).code = .user
  enabled : ∀ j, p.User j → (p.jobs j).disabled = false
  period : ∀ j, p.User j → 1 ≤ (p.jobs j).cycleTics
  first_le : ∀ j, p.User j → (p.jobs j).nextTics ≤ (p.jobs j).stopTics
  head_user : ∀ j ∈ p.head, p.User j
  tail_user : ∀ j ∈ p.tail, p.User j ∨ j = p.frz
  frz_system : (p.jobs p.frz).systemJobClass = true
  adv_system : (p.jobs p.adv).systemJobClass = true

variable {p}

theorem due_append (l l' : List JobId) (t : Int) : p.due (l ++ l') t = p.due l t ++ p.due l' t := by
  unfold due
  rw [List.filter_append, List.map_append]

theorem due_eq_nil {l : List JobId} {t : Int}
    (h : ∀ j ∈ l, p.User j → ¬ (p.cycle j).Due t) : p.due l t = [] := by
  unfold due
  rw [List.map_eq_nil_iff, List.filter_eq_nil_iff]
  intro j hj hd
  simp only [decide_eq_true_eq] at hd
  exact h j hj hd.1 hd.2

theorem due_singleton {j : JobId} {t : Int} (hu : p.User j) (hd : (p.cycle j).Due t) :
    p.due [j] t = [(j, t)] := by
  unfold due
  rw [List.filter_cons_of_pos (by simpa using ⟨hu, hd⟩), List.filter_nil]
  rfl

theorem before_start : p.before p.startTics = [] := by
  unfold before
  rw [Int.sub_self]
  rfl

/-- The calls before the next tic. -/
theorem before_succ {t : Int} (ht : p.startTics ≤ t) :
    p.before (t + 1) = p.before t ++ (p.due p.tail t ++ p.due p.head t) := by
  have hlen : (t + 1 - p.startTics).toNat = (t - p.startTics).toNat + 1 := by omega
  have hlast : p.startTics + ((t - p.startTics).toNat : Int) = t := by omega
  unfold before
  rw [hlen, List.range_succ, List.flatMap_append, List.flatMap_singleton, hlast]

/-- Tics at which nothing is due add no call. -/
theorem before_skip {t : Int} (ht : p.startTics ≤ t) (n : Nat)
    (h : ∀ τ, t ≤ τ → τ < t + n → ∀ j, p.User j → ¬ (p.cycle j).Due τ) :
    p.before (t + n) = p.before t := by
  induction n with
  | zero => rw [Int.natCast_zero, Int.add_zero]
  | succ n ih =>
    have hn : t + ((n + 1 : Nat) : Int) = t + n + 1 := by omega
    have hlt : t + (n : Int) < t + ((n + 1 : Nat) : Int) := by omega
    rw [hn, before_succ (by omega), ih (fun τ hτ hlt' => h τ hτ (by omega))]
    rw [due_eq_nil (fun j _ hu => h _ (by omega) hlt j hu),
      due_eq_nil (fun j _ hu => h _ (by omega) hlt j hu)]
    simp

end Plan

/-! ## The invariant -/

variable {p : Plan} {s : Executive}

/-- **The run keeps to its plan**: the queues, the jobs up to their call times, no pending request. -/
structure Static (p : Plan) (s : Executive) : Prop where
  list : s.jobQueue.list = p.head ++ p.adv :: p.tail
  adv : s.advanceSimTimeJob = p.adv
  frz : s.freezeJob = p.frz
  jobs : ∀ j, s.jobs j = { p.jobs j with nextTics := (s.jobs j).nextTics }
  frz_next : (s.jobs p.frz).nextTics = maxLongLong
  freezeTimes : s.freezeTimes = []
  input : s.inputProcessorRunQueue.list = []
  others : ∀ q, q ≠ .scheduled → ∀ j ∈ (s.queue q).list, (p.jobs j).code ≠ .user
  async : s.asyncFreezeCommand = false
  exec : s.execCommand = .noCmd
  terminate : s.terminateTime = p.terminateTime
  start_le : p.startTics ≤ s.timeTics
  le_terminate : s.timeTics ≤ p.terminateTime

/-- The calls of the user's jobs. -/
def userTrace (p : Plan) (s : Executive) : List (JobId × Int) :=
  s.trace.filter fun e => p.User e.1

/-- Every job of the user in `l` has its next due tic from `t` on as call time. -/
def NextFrom (p : Plan) (s : Executive) (l : List JobId) (t : Int) : Prop :=
  ∀ j ∈ l, p.User j → (p.cycle j).IsNext maxLongLong (s.jobs j).nextTics t

/-- **How far the run is**: at the current tic the first `g` jobs of the tail and the first `h` jobs
    of the head have been passed, and the call of `pending` is about to be made. -/
structure Progress (p : Plan) (s : Executive) (h g : Nat) (pending : List (JobId × Int)) :
    Prop where
  head_passed : NextFrom p s (p.head.take h) (s.timeTics + 1)
  head_waiting : NextFrom p s (p.head.drop h) s.timeTics
  tail_passed : NextFrom p s (p.tail.take g) (s.timeTics + 1)
  tail_waiting : NextFrom p s (p.tail.drop g) s.timeTics
  trace : userTrace p s ++ pending =
    p.before s.timeTics ++ (p.due (p.tail.take g) s.timeTics ++ p.due (p.head.take h) s.timeTics)

/-- All calls have been made, and the clock stands still. -/
def Ended (p : Plan) (s : Executive) : Prop :=
  Doomed s ∧ userTrace p s = p.before (p.terminateTime + 1)

/-- The clock went forward in this pass. -/
abbrev Forward (s : Executive) : Prop := s.timeLastPassTics < s.timeTics

/-- **The invariant of a run without changes to the schedule.** -/
def Periodic (p : Plan) (s : Executive) : Prop :=
  match s.pc with
  | .terminated => userTrace p s = p.before (p.terminateTime + 1)
  | .find .scheduled =>
    Static p s ∧
      ((s.jobQueue.currIndex ≤ p.head.length ∧
          Progress p s s.jobQueue.currIndex p.tail.length []) ∨
        (∃ g, s.jobQueue.currIndex = p.head.length + 1 + g ∧ g ≤ p.tail.length ∧ Forward s ∧
          Progress p s 0 g []) ∨
        Ended p s)
  | .call .scheduled =>
    Static p s ∧
      ((s.jobQueue.currIndex ≤ p.head.length ∧ p.User s.currJob ∧
          Progress p s s.jobQueue.currIndex p.tail.length [(s.currJob, s.timeTics)]) ∨
        (s.currJob = p.adv ∧ s.jobQueue.currIndex = p.head.length + 1 ∧
          Progress p s p.head.length p.tail.length []) ∨
        (∃ g, s.jobQueue.currIndex = p.head.length + 1 + g ∧ g ≤ p.tail.length ∧ Forward s ∧
          p.User s.currJob ∧ Progress p s 0 g [(s.currJob, s.timeTics)]))
  | .passEnd =>
    Static p s ∧ ((Forward s ∧ Progress p s 0 p.tail.length []) ∨ Ended p s)
  | .freezeCheck | .frameStart | .find .topOfFrame | .find .inputProcessorRun
  | .find .endOfFrame => Static p s ∧ Progress p s 0 p.tail.length []
  | .call .topOfFrame | .call .endOfFrame =>
    Static p s ∧ Progress p s 0 p.tail.length [] ∧ (p.jobs s.currJob).code ≠ .user
  | _ => False

/-! ## Steps that leave the jobs alone -/

/-- The two states differ in cursors, cached times and the place of the loop at most. -/
structure SamePlan (s s' : Executive) : Prop where
  lists : ∀ q, (s'.queue q).list = (s.queue q).list
  jobs : s'.jobs = s.jobs
  adv : s'.advanceSimTimeJob = s.advanceSimTimeJob
  frz : s'.freezeJob = s.freezeJob
  freezeTimes : s'.freezeTimes = s.freezeTimes
  async : s'.asyncFreezeCommand = s.asyncFreezeCommand
  exec : s'.execCommand = s.execCommand
  terminate : s'.terminateTime = s.terminateTime
  time : s'.timeTics = s.timeTics

theorem Static.congr (h : Static p s) {s' : Executive} (hs : SamePlan s s') : Static p s' := by
  have hmain : s'.jobQueue.list = s.jobQueue.list := hs.lists .scheduled
  have hin : s'.inputProcessorRunQueue.list = s.inputProcessorRunQueue.list :=
    hs.lists .inputProcessorRun
  refine ⟨hmain.trans h.list, hs.adv.trans h.adv, hs.frz.trans h.frz, ?_, ?_,
    hs.freezeTimes.trans h.freezeTimes, hin.trans h.input, ?_, hs.async.trans h.async,
    hs.exec.trans h.exec, hs.terminate.trans h.terminate, ?_, ?_⟩
  · rw [hs.jobs]; exact h.jobs
  · rw [hs.jobs]; exact h.frz_next
  · intro q hq j hj
    exact h.others q hq j (hs.lists q ▸ hj)
  · rw [hs.time]; exact h.start_le
  · rw [hs.time]; exact h.le_terminate

theorem Progress.congr {h g : Nat} {pending : List (JobId × Int)} (hp : Progress p s h g pending)
    {s' : Executive} (hjobs : s'.jobs = s.jobs) (htime : s'.timeTics = s.timeTics)
    {pending' : List (JobId × Int)}
    (htrace : userTrace p s' ++ pending' = userTrace p s ++ pending) :
    Progress p s' h g pending' := by
  obtain ⟨h1, h2, h3, h4, h5⟩ := hp
  unfold NextFrom at h1 h2 h3 h4
  refine ⟨?_, ?_, ?_, ?_, ?_⟩
  · unfold NextFrom; rw [hjobs, htime]; exact h1
  · unfold NextFrom; rw [hjobs, htime]; exact h2
  · unfold NextFrom; rw [hjobs, htime]; exact h3
  · unfold NextFrom; rw [hjobs, htime]; exact h4
  · rw [htrace, htime]; exact h5

/-- `setQueue` with a queue that has the same jobs, and a new place of the loop. -/
theorem samePlan_setQueue {q : LoopQueue} {v : ScheduledJobQueue}
    (hv : v.list = (s.queue q).list) (pc : Pc) (n : Nat) :
    SamePlan s { s.setQueue q v with pc := pc, frameCount := n } := by
  have hlists : ∀ q', (Executive.queue { s.setQueue q v with pc := pc, frameCount := n } q').list =
      (s.queue q').list := by
    intro q'
    have : Executive.queue { s.setQueue q v with pc := pc, frameCount := n } q' =
        (s.setQueue q v).queue q' := by cases q' <;> rfl
    rw [this, queue_setQueue]
    split
    · rename_i hq; subst hq; exact hv
    · rfl
  cases q <;> exact ⟨hlists, rfl, rfl, rfl, rfl, rfl, rfl, rfl, rfl⟩

/-- A call that only logs itself: the executive's own jobs have nothing to do, and the user's jobs
    do not touch the executive. -/
theorem callStep_static (h : Static p s) {q : LoopQueue} (hq : q ≠ .inputProcessorRun)
    (hcode : (s.jobs s.currJob).code ≠ .advanceSimTime)
    (htest : q = .scheduled → (s.jobs s.currJob).systemJobClass = false) :
    s.callStep q idle = { s.logCall s.currJob with pc := .find q } := by
  have hret : s.returnOf s.currJob idle = 0 := by
    unfold returnOf; split <;> rfl
  have hnone : (s.logCall s.currJob).setNextTics s.freezeJob maxLongLong = s.logCall s.currJob := by
    have hnext : (s.jobs s.freezeJob).nextTics = maxLongLong := by rw [h.frz]; exact h.frz_next
    unfold setNextTics
    have : ({ s.jobs s.freezeJob with nextTics := maxLongLong } : JobData) =
        s.jobs s.freezeJob := by rw [← hnext]
    show ({ s.logCall s.currJob with
      jobs := Function.update s.jobs s.freezeJob
        { s.jobs s.freezeJob with nextTics := maxLongLong } } : Executive) = _
    rw [this, Function.update_eq_self]
    rfl
  have hfreeze : ∀ b, (s.logCall s.currJob).schedFreezeToExecCommand b = s.logCall s.currJob := by
    intro b
    have hempty : (s.logCall s.currJob).freezeTimes = [] := h.freezeTimes
    unfold schedFreezeToExecCommand
    simp only [hempty, List.dropWhile_nil, List.length_nil, lt_irrefl, if_false, List.headD_nil]
    split
    · have : ({ s.logCall s.currJob with
          execCommand := (s.logCall s.currJob).execCommand, freezeTimes := [] } : Executive) =
          s.logCall s.currJob := by rw [← hempty]
      rw [this]
      exact hnone
    · rfl
  have hasync : (s.logCall s.currJob).asyncFreezeToExecCommand = s.logCall s.currJob := by
    unfold asyncFreezeToExecCommand
    exact if_neg (by rw [show (s.logCall s.currJob).asyncFreezeCommand = false from h.async]; simp)
  have hcall : s.callJob s.currJob idle = s.logCall s.currJob := by
    unfold callJob runJobCode
    rw [show ((s.logCall s.currJob).jobs s.currJob).code = (s.jobs s.currJob).code from rfl]
    cases hc : (s.jobs s.currJob).code with
    | user => rfl
    | advanceSimTime => exact absurd hc hcode
    | schedFreezeToExecCommand b => exact hfreeze b
    | asyncFreezeToExecCommand => exact hasync
  have hnotest : (s.logCall s.currJob).testAfterCall q s.currJob = s.logCall s.currJob := by
    refine testAfterCall_neg ?_
    rintro (he | ⟨he, hsys⟩)
    · exact hq he
    · have hsys' : (s.jobs s.currJob).systemJobClass = true := hsys
      rw [htest he] at hsys'
      cases hsys'
  unfold callStep
  simp only
  rw [if_neg (by rw [hret]; simp), hcall, hnotest]

theorem userTrace_logCall (j : JobId) :
    userTrace p (s.logCall j) =
      userTrace p s ++ if p.User j then [(j, s.timeTics)] else [] := by
  unfold userTrace logCall
  simp only
  rw [List.filter_append]
  congr 1
  by_cases hu : p.User j
  · rw [if_pos hu, List.filter_cons_of_pos (by simpa using hu), List.filter_nil]
  · rw [if_neg hu, List.filter_cons_of_neg (by simpa using hu), List.filter_nil]

/-! ## The walk over the scheduled queue -/

/-- The state after a scan of the scheduled queue. -/
def scanned (s : Executive) (mid : List JobId) : Executive :=
  { s with
    jobs := visitAll s.timeTics mid s.jobs
    jobQueue := { s.jobQueue with
      currIndex := s.jobQueue.currIndex + mid.length
      nextJobTime := trackAll s.timeTics mid s.jobs s.jobQueue.nextJobTime } }

/-- A visit changes nothing but the call time. -/
theorem visited_eq (t : Int) (j : JobData) :
    j.visited t = { j with nextTics := (j.visited t).nextTics } := by
  unfold JobData.visited JobData.reschedule
  split <;> rfl

theorem Static.scanned (h : Static p s) (hp : p.Ok) (mid : List JobId) :
    Static p (s.scanned mid) := by
  have hlists : ∀ q, ((s.scanned mid).queue q).list = (s.queue q).list := by
    intro q; cases q <;> rfl
  refine ⟨h.list, h.adv, h.frz, ?_, ?_, h.freezeTimes, h.input, ?_, h.async, h.exec, h.terminate,
    h.start_le, h.le_terminate⟩
  · intro j
    show visitAll s.timeTics mid s.jobs j =
      { p.jobs j with nextTics := (visitAll s.timeTics mid s.jobs j).nextTics }
    unfold visitAll
    split
    · rw [visited_eq]
      have := h.jobs j
      rw [this]
    · exact h.jobs j
  · have hsys : (s.jobs p.frz).systemJobClass = true := by rw [h.jobs]; exact hp.frz_system
    show (visitAll s.timeTics mid s.jobs p.frz).nextTics = _
    unfold visitAll
    split
    · rw [JobData.visited_of_system hsys]; exact h.frz_next
    · exact h.frz_next
  · intro q hq j hj
    exact h.others q hq j (hlists q ▸ hj)

/-- Jobs that were not scanned keep their call times. -/
theorem NextFrom.scanned_of_disjoint {l mid : List JobId} {t : Int} (h : NextFrom p s l t)
    (hdis : ∀ j ∈ l, j ∉ mid) : NextFrom p (s.scanned mid) l t := by
  intro j hj hu
  show (p.cycle j).IsNext maxLongLong (visitAll s.timeTics mid s.jobs j).nextTics t
  rw [visitAll_of_notMem (hdis j hj)]
  exact h j hj hu

/-- **A scanned job has its next due tic from the next tic on as call time.** -/
theorem NextFrom.scanned_of_mem (hp : p.Ok) (hst : Static p s) {l mid : List JobId}
    (h : NextFrom p s l s.timeTics) (hmem : ∀ j ∈ l, j ∈ mid) :
    NextFrom p (s.scanned mid) l (s.timeTics + 1) := by
  have ht : s.timeTics < maxLongLong := by
    have := hst.le_terminate; have := hp.terminate_lt; omega
  intro j hj hu
  show (p.cycle j).IsNext maxLongLong (visitAll s.timeTics mid s.jobs j).nextTics (s.timeTics + 1)
  rw [visitAll_of_mem (hmem j hj)]
  have hnext := h j hj hu
  have hsys : (s.jobs j).systemJobClass = false := by rw [hst.jobs]; exact hu.2
  by_cases hn : (s.jobs j).nextTics = s.timeTics
  · -- due now: one period later
    have hvis : ((s.jobs j).visited s.timeTics).nextTics =
        if s.timeTics + (p.cycle j).period > (p.cycle j).last then maxLongLong
        else s.timeTics + (p.cycle j).period := by
      have hcyc : (s.jobs j).cycleTics = (p.cycle j).period := by rw [hst.jobs]; rfl
      have hstop : (s.jobs j).stopTics = (p.cycle j).last := by rw [hst.jobs]; rfl
      unfold JobData.visited JobData.reschedule
      rw [if_pos ⟨hn, hsys⟩]
      simp only
      rw [hn, hcyc, hstop]
    rw [hvis]
    rw [hn] at hnext
    exact hnext.again ht (hp.period j hu)
  · rw [JobData.visited_of_ne hn]
    exact hnext.pass ht hn

/-- Among jobs that are not due, none is called. -/
theorem due_of_not_due (hp : p.Ok) (hst : Static p s) {l : List JobId}
    (h : NextFrom p s l s.timeTics) (hnot : ∀ j ∈ l, ¬ (s.jobs j).Due s.timeTics) :
    p.due l s.timeTics = [] := by
  have ht : s.timeTics < maxLongLong := by
    have := hst.le_terminate; have := hp.terminate_lt; omega
  refine Plan.due_eq_nil fun j hj hu hd => ?_
  have hn := ((h j hj hu).due_iff ht).mp hd
  have hen : (s.jobs j).disabled = false := by rw [hst.jobs]; exact hp.enabled j hu
  exact hnot j hj ⟨hn, hen⟩

/-- A job that is found is called now. -/
theorem due_of_found (hp : p.Ok) (hst : Static p s) {pre : List JobId} {j : JobId}
    (h : NextFrom p s (pre ++ [j]) s.timeTics) (hnot : ∀ i ∈ pre, ¬ (s.jobs i).Due s.timeTics)
    (hu : p.User j) (hdue : (s.jobs j).Due s.timeTics) :
    p.due (pre ++ [j]) s.timeTics = [(j, s.timeTics)] := by
  have ht : s.timeTics < maxLongLong := by
    have := hst.le_terminate; have := hp.terminate_lt; omega
  rw [Plan.due_append, due_of_not_due hp hst (fun i hi => h i (List.mem_append_left _ hi)) hnot,
    List.nil_append]
  exact Plan.due_singleton hu (((h j (by simp) hu).due_iff ht).mpr hdue.1)

theorem NextFrom.append {l l' : List JobId} {t : Int} (h : NextFrom p s l t)
    (h' : NextFrom p s l' t) : NextFrom p s (l ++ l') t := by
  intro j hj
  rcases List.mem_append.mp hj with hj | hj
  · exact h j hj
  · exact h' j hj

theorem NextFrom.mono {l l' : List JobId} {t : Int} (h : NextFrom p s l t)
    (hsub : ∀ j ∈ l', j ∈ l) : NextFrom p s l' t :=
  fun j hj => h j (hsub j hj)

/-- The parts of the scheduled queue have no job in common. -/
theorem Static.nodup (hst : Static p s) (hwf : Wf s) :
    (p.head ++ p.adv :: p.tail).Nodup := by
  have := hwf.nodup .scheduled
  rw [show (s.queue .scheduled).list = p.head ++ p.adv :: p.tail from hst.list] at this
  exact this

/-- **The scan of a part of the head.**  The first `k` jobs in front of the cursor are passed. -/
theorem Progress.scan_head (hp : p.Ok) (hst : Static p s) (hwf : Wf s) {h k : Nat}
    {mid : List JobId} {pending : List (JobId × Int)} (hpr : Progress p s h p.tail.length [])
    (hk : mid = (p.head.drop h).take k ∨ mid = (p.head.drop h).take k ++ [p.adv])
    (hdue : p.due ((p.head.drop h).take k) s.timeTics = pending) :
    Progress p (s.scanned mid) (h + k) p.tail.length pending := by
  have hnd := hst.nodup hwf
  have hmem : ∀ j, j ∈ mid → j ∈ (p.head.drop h).take k ∨ j = p.adv := by
    intro j hj
    rcases hk with rfl | rfl
    · exact Or.inl hj
    · simpa using hj
  have hsub : ∀ j ∈ (p.head.drop h).take k, j ∈ mid := by
    intro j hj
    rcases hk with rfl | rfl
    · exact hj
    · exact List.mem_append_left _ hj
  have hheadnd : p.head.Nodup := (List.nodup_append.mp hnd).1
  have hadvhead : p.adv ∉ p.head := fun hm =>
    (List.nodup_append.mp hnd).2.2 _ hm _ (List.mem_cons_self ..) rfl
  have hparts : (p.head.take h ++ ((p.head.drop h).take k ++ (p.head.drop h).drop k)).Nodup := by
    rw [List.take_append_drop, List.take_append_drop]; exact hheadnd
  obtain ⟨_, hmidrest, hcross⟩ := List.nodup_append.mp hparts
  -- nothing outside the scanned part is touched
  have hout : ∀ j, (j ∈ p.head.take h ∨ j ∈ (p.head.drop h).drop k ∨ j ∈ p.tail) → j ∉ mid := by
    intro j hj hm
    have hhead : j ∈ p.head.take h ∨ j ∈ (p.head.drop h).drop k → j ∈ p.head := by
      rintro (hj | hj)
      · exact List.mem_of_mem_take hj
      · exact List.mem_of_mem_drop (List.mem_of_mem_drop hj)
    rcases hmem j hm with hin | rfl
    · rcases hj with hj | hj | hj
      · exact hcross j hj j (List.mem_append_left _ hin) rfl
      · exact (List.nodup_append.mp hmidrest).2.2 j hin j hj rfl
      · exact (List.nodup_append.mp hnd).2.2 j
          (List.mem_of_mem_drop (List.mem_of_mem_take hin)) j (List.mem_cons_of_mem _ hj) rfl
    · rcases hj with hj | hj | hj
      · exact hadvhead (hhead (Or.inl hj))
      · exact hadvhead (hhead (Or.inr hj))
      · exact (List.nodup_cons.mp (List.nodup_append.mp hnd).2.1).1 hj
  have hsplit : p.head.take (h + k) = p.head.take h ++ (p.head.drop h).take k := List.take_add
  obtain ⟨h1, h2, h3, h4, h5⟩ := hpr
  refine ⟨?_, ?_, ?_, ?_, ?_⟩
  · rw [hsplit]
    refine NextFrom.append ?_ ?_
    · exact h1.scanned_of_disjoint fun j hj => hout j (Or.inl hj)
    · exact NextFrom.scanned_of_mem hp hst (h2.mono fun j hj => List.mem_of_mem_take hj) hsub
  · have hdrop : p.head.drop (h + k) = (p.head.drop h).drop k := by rw [List.drop_drop]
    rw [hdrop]
    exact (h2.mono fun j hj => List.mem_of_mem_drop hj).scanned_of_disjoint
      fun j hj => hout j (Or.inr (Or.inl hj))
  · exact h3.scanned_of_disjoint fun j hj => hout j (Or.inr (Or.inr (List.mem_of_mem_take hj)))
  · exact h4.scanned_of_disjoint fun j hj => hout j (Or.inr (Or.inr (List.mem_of_mem_drop hj)))
  · rw [List.append_nil] at h5
    have htime : (s.scanned mid).timeTics = s.timeTics := rfl
    show userTrace p s ++ pending = _
    rw [htime, h5, hsplit, Plan.due_append, hdue]
    simp only [List.append_assoc]

/-- **The scan of a part of the tail.** -/
theorem Progress.scan_tail (hp : p.Ok) (hst : Static p s) (hwf : Wf s) {g k : Nat}
    {pending : List (JobId × Int)} (hpr : Progress p s 0 g [])
    (hdue : p.due ((p.tail.drop g).take k) s.timeTics = pending) :
    Progress p (s.scanned ((p.tail.drop g).take k)) 0 (g + k) pending := by
  have hnd := hst.nodup hwf
  have htailnd : p.tail.Nodup := (List.nodup_cons.mp (List.nodup_append.mp hnd).2.1).2
  have hparts : (p.tail.take g ++ ((p.tail.drop g).take k ++ (p.tail.drop g).drop k)).Nodup := by
    rw [List.take_append_drop, List.take_append_drop]; exact htailnd
  obtain ⟨_, hmidrest, hcross⟩ := List.nodup_append.mp hparts
  have hout : ∀ j, (j ∈ p.tail.take g ∨ j ∈ (p.tail.drop g).drop k ∨ j ∈ p.head) →
      j ∉ (p.tail.drop g).take k := by
    intro j hj hin
    rcases hj with hj | hj | hj
    · exact hcross j hj j (List.mem_append_left _ hin) rfl
    · exact (List.nodup_append.mp hmidrest).2.2 j hin j hj rfl
    · exact (List.nodup_append.mp hnd).2.2 j hj j
        (List.mem_cons_of_mem _ (List.mem_of_mem_drop (List.mem_of_mem_take hin))) rfl
  have hsplit : p.tail.take (g + k) = p.tail.take g ++ (p.tail.drop g).take k := List.take_add
  obtain ⟨h1, h2, h3, h4, h5⟩ := hpr
  refine ⟨?_, ?_, ?_, ?_, ?_⟩
  · exact h1.scanned_of_disjoint fun j hj => hout j (Or.inr (Or.inr (List.mem_of_mem_take hj)))
  · exact h2.scanned_of_disjoint fun j hj => hout j (Or.inr (Or.inr (List.mem_of_mem_drop hj)))
  · rw [hsplit]
    refine NextFrom.append ?_ ?_
    · exact h3.scanned_of_disjoint fun j hj => hout j (Or.inl hj)
    · exact NextFrom.scanned_of_mem hp hst (h4.mono fun j hj => List.mem_of_mem_take hj)
        (fun j hj => hj)
  · have hdrop : p.tail.drop (g + k) = (p.tail.drop g).drop k := by rw [List.drop_drop]
    rw [hdrop]
    exact (h4.mono fun j hj => List.mem_of_mem_drop hj).scanned_of_disjoint
      fun j hj => hout j (Or.inr (Or.inl hj))
  · rw [List.append_nil] at h5
    have htime : (s.scanned ((p.tail.drop g).take k)).timeTics = s.timeTics := rfl
    show userTrace p s ++ pending = _
    rw [htime, h5, hsplit, Plan.due_append, hdue]
    have hnil : p.due (p.head.take 0) s.timeTics = [] := by rw [List.take_zero]; rfl
    rw [hnil]
    simp only [List.append_assoc, List.append_nil]

end Trick.Exec.Executive
