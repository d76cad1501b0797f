/-
  What each step of the loop does to the freeze requests.

  `Stepped` is the case distinction that the invariants of the requests go by: a step between the walks
  makes the requests of the jobs of the freeze loop, a step of a walk finds a job or comes to the end of the
  queue, and a call is that of a user's job, of a job that serves requests or of the advancing job.
-/
import Trick.Executive.FreezeRequests

namespace Trick.Exec.Executive

open Trick.Lib

variable {e : JobId} {s s' : Executive}

/-! ## Steps between the walks -/

/-- The job code that a step runs makes these requests. -/
def issued (s : Executive) (rs : List Request) : List Int :=
  if RunsCommands s then rs.flatMap (Request.accepted s) else []

/-- **A step that neither walks nor calls**: the requests of the jobs of the freeze loop are made, and the
    walk that begins is none over the scheduled queue. -/
structure Away (new : List Int) (s s' : Executive) : Prop where
  requested : Requested new s s'
  not_call : ∀ q, s'.pc ≠ .call q
  not_scheduled : s'.pc ≠ .find .scheduled
  frame : s'.pc = .find .endOfFrame → s'.timeTics = s'.nextFrameCheckTics ∧ s'.endOfFrameQueue.currIndex = 0

theorem away_startDrain (q : LoopQueue) (hq : q ≠ .scheduled)
    (hframe : q = .endOfFrame → s.timeTics = s.nextFrameCheckTics) : Away [] s (s.startDrain q) := by
  refine ⟨(quiet_startDrain s q).requested, nofun, ?_, ?_⟩
  · intro hpc
    exact hq (Pc.find.inj hpc)
  · intro hpc
    have hq : q = .endOfFrame := Pc.find.inj hpc
    subst hq
    exact ⟨hframe rfl, rfl⟩

/-- A step to a place at which nothing is walked or called. -/
theorem away_of_pc {new : List Int} (h : Requested new s s') (hcall : ∀ q, s'.pc ≠ .call q)
    (hfind : ∀ q, s'.pc ≠ .find q) : Away new s s' :=
  ⟨h, hcall, hfind _, fun hpc => absurd hpc (hfind _)⟩

/-- A turn of the freeze loop, and the steps before and after it. -/
theorem away_freeze {rs : List Request} (n : Option Int) (ret : Int)
    (hpc : s.pc = .freezeInit ∨ s.pc = .freezeLoop ∨ s.pc = .unfreeze) (hfits : ∀ r ∈ rs, r.Fits s) :
    Away (rs.flatMap (Request.accepted s)) s (s.step (jobCall rs n ret)) := by
  have hreq := requested_requests hfits
  have hplace := samePlace_requests rs s
  have hto : ∀ (p : Pc) (c : SimCommand), (∀ q, p ≠ .call q) → (∀ q, p ≠ .find q) →
      Away (rs.flatMap (Request.accepted s)) s
        { s.applyCommands (rs.map Request.command) with pc := p, execCommand := c } :=
    fun p c hcall hfind => away_of_pc (hreq.quiet_after (quiet_goto _ p c _ _ _)) hcall hfind
  unfold step
  rcases hpc with hpc | hpc | hpc
  · rw [hpc]
    exact hto .freezeLoop _ nofun nofun
  · rw [hpc]
    have hsame : (s.applyCommands (rs.map Request.command)).pc = .freezeLoop := hplace.pc.trans hpc
    have hcall : ∀ q, (s.applyCommands (rs.map Request.command)).pc ≠ .call q := by
      rw [hsame]
      nofun
    have hfind : ∀ q, (s.applyCommands (rs.map Request.command)).pc ≠ .find q := by
      rw [hsame]
      nofun
    show Away _ s (s.freezeLoopTurn _)
    unfold freezeLoopTurn
    dsimp only
    split
    · exact hto .terminated _ nofun nofun
    · split
      · exact hto .unfreeze _ nofun nofun
      · exact hto _ _ hcall hfind
      · exact hto .terminated _ nofun nofun
      · exact away_of_pc hreq hcall hfind
  · rw [hpc]
    exact hto .frameStart _ nofun nofun

/-- The end of a pass: the run ends without moving the clock, or the frame ends. -/
theorem away_passEnd (h : InFrame s) : Away [] s s.passEndStep := by
  have hgoto : ∀ (p : Pc) (c : SimCommand), (∀ q, p ≠ .call q) → (∀ q, p ≠ .find q) →
      Away [] s { s with pc := p, execCommand := c } :=
    fun p c hcall hfind => away_of_pc (quiet_goto s p c _ _ _).requested hcall hfind
  have hto : ∀ c : SimCommand, Away [] s
      (if s.terminateTime ≤ s.timeLastPassTics then
        { s with timeTics := s.timeLastPassTics, execCommand := .exitCmd, pc := .terminated }
      else if s.timeTics = s.nextFrameCheckTics then { s with execCommand := c }.startDrain .endOfFrame
      else { s with execCommand := c, pc := .freezeCheck }) := by
    intro c
    split
    · -- the terminate time has been reached, and the clock stands there
      rename_i hterm
      have htime : s.timeLastPassTics = s.timeTics := by
        have hlast := h.last_le
        have hle := h.le_terminate
        omega
      refine away_of_pc (Quiet.requested ?_) nofun nofun
      exact ⟨kept_clock s _ _ _ _, htime, rfl, rfl, rfl, rfl⟩
    · split
      · rename_i hframe
        have hstart : Away [] { s with execCommand := c }
            ({ s with execCommand := c }.startDrain .endOfFrame) :=
          away_startDrain .endOfFrame (by decide) fun _ => hframe
        exact ⟨(quiet_goto s s.pc c _ _ _).requested.trans hstart.requested, hstart.not_call,
          hstart.not_scheduled, hstart.frame⟩
      · exact hgoto .freezeCheck c nofun nofun
  unfold passEndStep
  split
  · exact hgoto .terminated _ nofun nofun
  · dsimp only
    split
    · exact hto .noCmd
    · exact hto s.execCommand

/-- **A step between the walks.** -/
theorem away_step {rs : List Request} (n : Option Int) (ret : Int) (hframe : InFrame s)
    (hfits : ∀ r ∈ rs, r.Fits s) (hfind : ∀ q, s.pc ≠ .find q) (hcall : ∀ q, s.pc ≠ .call q) :
    Away (issued s rs) s (s.step (jobCall rs n ret)) := by
  have hfreeze : s.pc = .freezeInit ∨ s.pc = .freezeLoop ∨ s.pc = .unfreeze →
      Away (rs.flatMap (Request.accepted s)) s (s.step (jobCall rs n ret)) :=
    fun hpc => away_freeze n ret hpc hfits
  have hnone : ¬ RunsCommands s → issued s rs = [] := fun h => if_neg h
  have hsome : RunsCommands s → issued s rs = rs.flatMap (Request.accepted s) := fun h => if_pos h
  cases hpc : s.pc with
  | find q => exact absurd hpc (hfind q)
  | call q => exact absurd hpc (hcall q)
  | freezeInit =>
    rw [hsome (by unfold RunsCommands; rw [hpc]; trivial)]
    exact hfreeze (Or.inl hpc)
  | freezeLoop =>
    rw [hsome (by unfold RunsCommands; rw [hpc]; trivial)]
    exact hfreeze (Or.inr (Or.inl hpc))
  | unfreeze =>
    rw [hsome (by unfold RunsCommands; rw [hpc]; trivial)]
    exact hfreeze (Or.inr (Or.inr hpc))
  | freezeCheck =>
    rw [hnone (by unfold RunsCommands; rw [hpc]; exact id)]
    unfold step
    rw [hpc]
    dsimp only
    split
    · exact away_of_pc (quiet_goto s .freezeInit .noCmd _ _ _).requested nofun nofun
    · exact away_of_pc (quiet_goto s .frameStart s.execCommand _ _ _).requested nofun nofun
  | frameStart =>
    rw [hnone (by unfold RunsCommands; rw [hpc]; exact id)]
    unfold step
    rw [hpc]
    dsimp only
    split
    · exact away_startDrain .topOfFrame (by decide) nofun
    · exact away_startDrain .inputProcessorRun (by decide) nofun
  | passEnd =>
    rw [hnone (by unfold RunsCommands; rw [hpc]; exact id)]
    unfold step
    rw [hpc]
    exact away_passEnd hframe
  | childFrame | childFrameCall | startThreads | threadSync | terminated =>
    rw [hnone (by unfold RunsCommands; rw [hpc]; exact id)]
    unfold step
    rw [hpc]
    apply away_of_pc (quiet_refl s).requested
    · intro q
      rw [hpc]
      nofun
    · intro q
      rw [hpc]
      nofun

/-! ## Steps of a walk -/

/-- The jobs that a walk has still to look at. -/
def ahead (s : Executive) (q : LoopQueue) : List JobId := (s.queue q).list.drop (s.queue q).currIndex

/-- The walk goes on behind the job: it is not due, or in a queue without call times it is disabled. -/
def Skipped (s : Executive) (q : LoopQueue) (j : JobId) : Prop :=
  if q = .inputProcessorRun ∨ q = .scheduled then ¬ (s.jobs j).Due s.timeTics
  else (s.jobs j).disabled = true

/-- The loop of `get_next_job`: the first job that is not disabled. -/
theorem getNextJobLoop_spec (jobs : JobHeap) :
    ∀ (l : List JobId) (k : Nat),
      ((ScheduledJobQueue.getNextJobLoop jobs l k).1 = none ∧ ∀ i ∈ l, (jobs i).disabled = true) ∨
        ∃ pre j rest, (ScheduledJobQueue.getNextJobLoop jobs l k) = (some j, k + pre.length + 1) ∧
          l = pre ++ j :: rest ∧ ∀ i ∈ pre, (jobs i).disabled = true := by
  intro l
  induction l with
  | nil => exact fun k => Or.inl ⟨rfl, fun i hi => (by cases hi)⟩
  | cons j l ih =>
    intro k
    unfold ScheduledJobQueue.getNextJobLoop
    by_cases hj : (jobs j).disabled = false
    · rw [if_pos hj]
      exact Or.inr ⟨[], j, l, rfl, rfl, fun i hi => (by cases hi)⟩
    · rw [if_neg hj]
      rw [Bool.not_eq_false] at hj
      rcases ih (k + 1) with ⟨hnone, hall⟩ | ⟨pre, i, rest, hsome, hl, hpre⟩
      · refine Or.inl ⟨hnone, ?_⟩
        intro i hi
        rcases List.mem_cons.mp hi with rfl | hi
        · exact hj
        · exact hall i hi
      · refine Or.inr ⟨j :: pre, i, rest, ?_, ?_, ?_⟩
        · rw [hsome, List.length_cons]
          congr 1
          omega
        · rw [hl]
          rfl
        · intro i hi
          rcases List.mem_cons.mp hi with rfl | hi
          · exact hj
          · exact hpre i hi

/-- **Asking a queue for its next job** does not concern the requests; the jobs in front of the one that is
    found are skipped. -/
theorem nextJob_spec (h : FreezeJobs e s) (q : LoopQueue) :
    Quiet s (s.nextJob q).2 ∧
      (((s.nextJob q).1 = none ∧ ∀ i ∈ ahead s q, Skipped s q i) ∨
        ∃ pre j rest, (s.nextJob q).1 = some j ∧ ahead s q = pre ++ j :: rest ∧
          (∀ i ∈ pre, Skipped s q i) ∧ ahead (s.nextJob q).2 q = rest) := by
  have hdrop : ∀ {pre rest : List JobId} {j : JobId}, ahead s q = pre ++ j :: rest →
      (s.queue q).list.drop ((s.queue q).currIndex + pre.length + 1) = rest := by
    intro pre rest j hl
    unfold ahead at hl
    rw [Nat.add_assoc, ← List.drop_drop, hl, ← List.drop_drop, List.drop_left]
    rfl
  by_cases hq : q = .inputProcessorRun ∨ q = .scheduled
  · have hnd : (ahead s q).Nodup := (h.nodup q).sublist (List.drop_sublist _ _)
    have heq : s.nextJob q = (((s.queue q).findNextJob s.timeTics s.jobs).job,
        { s with jobs := ((s.queue q).findNextJob s.timeTics s.jobs).jobs }.setQueue q
          { s.queue q with
            currIndex := ((s.queue q).findNextJob s.timeTics s.jobs).currIndex
            nextJobTime := ((s.queue q).findNextJob s.timeTics s.jobs).nextJobTime }) := by
      rcases hq with rfl | rfl <;> rfl
    have hskip : ∀ i, ¬ (s.jobs i).Due s.timeTics → Skipped s q i := by
      intro i hi
      unfold Skipped
      rw [if_pos hq]
      exact hi
    obtain ⟨mid, rest, hsplit, hidx, hjobs, -, hres⟩ := findNextJobLoop_spec s.timeTics _ s.jobs
      (s.queue q).currIndex (s.queue q).nextJobTime hnd
    have hmid : ∀ {i : JobId}, i ∈ mid → (i ∈ (s.queue q).list) := by
      intro i hi
      have hi : i ∈ mid ++ rest := List.mem_append_left rest hi
      rw [← hsplit] at hi
      exact List.mem_of_mem_drop hi
    have hquiet : Quiet s
        ({ s with jobs := visitAll s.timeTics mid s.jobs }.setQueue q
          { s.queue q with
            currIndex := ((s.queue q).findNextJob s.timeTics s.jobs).currIndex
            nextJobTime := ((s.queue q).findNextJob s.timeTics s.jobs).nextJobTime }) := by
      refine (quiet_visitAll s mid h.freeze_system).trans (quiet_setQueue _ ?_)
      cases q <;> rfl
    have hjobs : ((s.queue q).findNextJob s.timeTics s.jobs).jobs = visitAll s.timeTics mid s.jobs := hjobs
    rw [heq, hjobs]
    refine ⟨hquiet, ?_⟩
    rcases hres with ⟨hnone, hrest, hall⟩ | ⟨pre, j, hpre, hsome, -, hall⟩
    · refine Or.inl ⟨hnone, ?_⟩
      intro i hi
      rw [show ahead s q = mid ++ rest from hsplit, hrest, List.append_nil] at hi
      exact hskip i (hall i hi)
    · have hahead : ahead s q = pre ++ j :: rest := by
        rw [show ahead s q = mid ++ rest from hsplit, hpre, List.append_assoc]
        rfl
      refine Or.inr ⟨pre, j, rest, hsome, hahead, fun i hi => hskip i (hall i hi), ?_⟩
      unfold ahead
      rw [queue_setQueue_self]
      show (s.queue q).list.drop ((s.queue q).findNextJob s.timeTics s.jobs).currIndex = rest
      have hidx : ((s.queue q).findNextJob s.timeTics s.jobs).currIndex = _ := hidx
      rw [hidx, hpre, List.length_append]
      exact hdrop hahead
  · have heq : s.nextJob q =
        (((s.queue q).getNextJob s.jobs).1, s.setQueue q ((s.queue q).getNextJob s.jobs).2) := by
      rw [not_or] at hq
      cases q <;> first | rfl | exact absurd rfl hq.1 | exact absurd rfl hq.2
    have hskip : ∀ i, (s.jobs i).disabled = true → Skipped s q i := by
      intro i hi
      unfold Skipped
      rw [if_neg hq]
      exact hi
    rw [heq]
    refine ⟨quiet_setQueue s (ScheduledJobQueue.getNextJob_list ..), ?_⟩
    unfold ahead
    rw [queue_setQueue_self]
    unfold ScheduledJobQueue.getNextJob
    split
    · -- the cursor is behind the last job
      rename_i hlen
      refine Or.inl ⟨rfl, ?_⟩
      rw [List.drop_eq_nil_of_le hlen]
      exact fun i hi => (by cases hi)
    · rcases getNextJobLoop_spec s.jobs ((s.queue q).list.drop (s.queue q).currIndex)
        (s.queue q).currIndex with ⟨hnone, hall⟩ | ⟨pre, j, rest, hsome, hl, hpre⟩
      · exact Or.inl ⟨hnone, fun i hi => hskip i (hall i hi)⟩
      · rw [hsome]
        exact Or.inr ⟨pre, j, rest, rfl, hl, fun i hi => hskip i (hpre i hi), hdrop hl⟩

/-- **The walk is over**: only the end of a frame moves the time of the next one. -/
structure Walked (q : LoopQueue) (s s' : Executive) : Prop extends Kept s s' where
  timeTics : s'.timeTics = s.timeTics
  timeLast : s'.timeLastPassTics = s.timeLastPassTics
  frameCheck : s'.nextFrameCheckTics =
    if q = .endOfFrame then s.nextFrameCheckTics + s.softwareFrameTics else s.nextFrameCheckTics
  freezeTimes : s'.freezeTimes = s.freezeTimes
  next : (s'.jobs s.freezeJob).nextTics = (s.jobs s.freezeJob).nextTics

/-- Where the loop goes on behind the walk over a queue that stood at `p`. -/
def afterWalk (p : Pc) : LoopQueue → Pc
  | .topOfFrame => .find .inputProcessorRun
  | .inputProcessorRun => .find .scheduled
  | .scheduled => .passEnd
  | .endOfFrame => .freezeCheck
  | .threadSync => p

theorem walked_afterDrain (s : Executive) (q : LoopQueue) :
    Walked q s (s.afterDrain q) ∧ (s.afterDrain q).pc = afterWalk s.pc q := by
  have hquiet : ∀ {s' : Executive}, q ≠ .endOfFrame → Quiet s s' → Walked q s s' := by
    intro s' hq h
    refine ⟨h.toKept, h.timeTics, h.timeLast, ?_, h.freezeTimes, h.next⟩
    rw [if_neg hq]
    exact h.frameCheck
  cases q with
  | topOfFrame =>
    have hcount := quiet_goto s s.pc s.execCommand s.currJob (s.frameCount + 1) s.trace
    exact ⟨hquiet nofun (hcount.trans (quiet_startDrain _ .inputProcessorRun)), rfl⟩
  | inputProcessorRun => exact ⟨hquiet nofun (quiet_startDrain s .scheduled), rfl⟩
  | scheduled => exact ⟨hquiet nofun (quiet_goto s .passEnd _ _ _ _), rfl⟩
  | endOfFrame => exact ⟨⟨kept_clock s _ _ s.execCommand _, rfl, rfl, rfl, rfl, rfl⟩, rfl⟩
  | threadSync => exact ⟨hquiet nofun (quiet_refl s), rfl⟩

/-- **What a step of a walk does.** -/
inductive FindStep (q : LoopQueue) (s s' : Executive) : Prop where
  | found (pre : List JobId) (h : Quiet s s') (hpc : s'.pc = .call q)
      (hahead : ahead s q = pre ++ s'.currJob :: ahead s' q) (hpre : ∀ i ∈ pre, Skipped s q i)
  | walked (h : Walked q s s') (hpc : s'.pc = afterWalk (.find q) q)
      (hall : ∀ i ∈ ahead s q, Skipped s q i)

theorem findStep_step (h : FreezeJobs e s) {q : LoopQueue} (hpc : s.pc = .find q) (c : JobCall) :
    FindStep q s (s.step c) := by
  have hspec := nextJob_spec h q
  have hsame : (s.nextJob q).2.pc = s.pc := by cases q <;> rfl
  unfold step
  rw [hpc]
  dsimp only
  generalize s.nextJob q = r at hspec hsame
  obtain ⟨found, s'⟩ := r
  dsimp only at hspec hsame
  obtain ⟨hquiet, ⟨rfl, hall⟩ | ⟨pre, j, rest, rfl, hahead, hpre, hrest⟩⟩ := hspec
  · have hafter := walked_afterDrain s' q
    have hwalked := hafter.1
    refine .walked ⟨hquiet.toKept.trans hwalked.toKept, hwalked.timeTics.trans hquiet.timeTics,
      hwalked.timeLast.trans hquiet.timeLast, ?_, hwalked.freezeTimes.trans hquiet.freezeTimes, ?_⟩ ?_ hall
    · rw [hwalked.frameCheck, hquiet.frameCheck, hquiet.frame]
    · have hnext := hwalked.next
      rw [hquiet.freezeJob] at hnext
      exact hnext.trans hquiet.next
    · rw [← hpc, ← hsame]
      exact hafter.2
  · refine .found pre (hquiet.trans (quiet_goto s' _ _ _ _ _)) rfl ?_ hpre
    rw [hahead, ← hrest]
    cases q <;> rfl

/-- **What a step does to the requests**, as the loop stands. -/
inductive Stepped (rs : List Request) (s s' : Executive) : Prop where
  | away (hfind : ∀ q, s.pc ≠ .find q) (hcall : ∀ q, s.pc ≠ .call q) (h : Away (issued s rs) s s')
      (hterm : s.pc = .terminated → s'.pc = .terminated)
  | find (q : LoopQueue) (hpc : s.pc = .find q) (h : FindStep q s s')
  | call (q : LoopQueue) (hpc : s.pc = .call q) (h : Called rs s s')
      (hpc' : s'.pc = .terminated ∨ s'.pc = .find q) (hahead : ∀ q', ahead s' q' = ahead s q')

theorem stepped_step (h : FreezeJobs e s) (hframe : InFrame s) {rs : List Request} (n : Option Int) (ret : Int)
    (hfits : ∀ r ∈ rs, r.Fits s) : Stepped rs s (s.step (jobCall rs n ret)) := by
  have haway := away_step (s := s) n ret hframe hfits
  cases hpc : s.pc with
  | find q => exact .find q hpc (findStep_step h hpc _)
  | call q =>
    have hstep : s.step (jobCall rs n ret) = s.callStep q (jobCall rs n ret) := by
      unfold step
      rw [hpc]
    have hcalled := called_callStep h n ret q fun _ => hfits
    rw [hstep]
    refine .call q hpc hcalled.1 hcalled.2 ?_
    intro q'
    unfold ahead
    rw [callStep_currIndex]
    congr 1
    rcases hcalled.1 with ⟨-, hc⟩ | ⟨-, -, -, hc⟩ | ⟨-, hc⟩ | ⟨-, -, hc⟩ <;> exact hc.list q'
  | terminated =>
    have hsame : s.step (jobCall rs n ret) = s := by
      unfold step
      rw [hpc]
    refine .away ?_ ?_ (haway ?_ ?_) fun _ => by rw [hsame, hpc]
    all_goals
      rw [hpc]
      nofun
  | _ =>
    refine .away ?_ ?_ (haway ?_ ?_) fun hterm => by rw [hpc] at hterm; cases hterm
    all_goals
      rw [hpc]
      nofun

end Trick.Exec.Executive
