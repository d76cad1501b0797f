/-
  A run without changes to the schedule calls every job at its due tics, in the planned order, and
  ends.

  Every step keeps `Periodic` and takes `rank` down: `rank` counts the tics to the terminate time,
  the walks left in the pass, and the jobs left in the walk.  `static_run` puts both together.
-/
import Trick.Executive.StaticRun

namespace Trick.Exec.Executive

open Trick.Lib

variable {p : Plan} {s : Executive}

/-! ## The rank of a state -/

/-- The walks and tests that are left before the clock is advanced again, or the run ends. -/
def phase (p : Plan) (s : Executive) : Nat :=
  match s.pc with
  | .find .scheduled =>
    if s.jobQueue.currIndex ≤ p.head.length then 3 else if Forward s then 10 else 2
  | .call .scheduled =>
    if s.jobQueue.currIndex ≤ p.head.length ∨ s.currJob = p.adv then 3 else 10
  | .passEnd => if Forward s then 9 else 1
  | .find .endOfFrame | .call .endOfFrame => 8
  | .freezeCheck => 7
  | .frameStart => 6
  | .find .topOfFrame | .call .topOfFrame => 5
  | .find .inputProcessorRun => 4
  | _ => 0

/-- The steps that are left in the walk over a queue. -/
def walkLeft (s : Executive) : Nat :=
  match s.pc with
  | .find q => 2 * ((s.queue q).list.length - (s.queue q).currIndex) + 1
  | .call q => 2 * ((s.queue q).list.length - (s.queue q).currIndex) + 2
  | _ => 0

/-- **What goes down at every step.** -/
def rank (p : Plan) (s : Executive) : Nat ×ₗ Nat ×ₗ Nat :=
  toLex ((p.terminateTime - s.timeTics).toNat, toLex (phase p s, walkLeft s))

theorem rank_lt_of_time {s' : Executive} (h : s.timeTics < s'.timeTics)
    (hle : s'.timeTics ≤ p.terminateTime) : rank p s' < rank p s :=
  Prod.Lex.toLex_lt_toLex.mpr (Or.inl (by show (_ : Nat) < _; omega))

theorem rank_lt_of_phase {s' : Executive} (ht : s.timeTics ≤ s'.timeTics)
    (h : phase p s' < phase p s) : rank p s' < rank p s := by
  have hle : (p.terminateTime - s'.timeTics).toNat ≤ (p.terminateTime - s.timeTics).toNat := by
    omega
  rcases lt_or_eq_of_le hle with hlt | heq
  · exact Prod.Lex.toLex_lt_toLex.mpr (Or.inl hlt)
  · exact Prod.Lex.toLex_lt_toLex.mpr
      (Or.inr ⟨heq, Prod.Lex.toLex_lt_toLex.mpr (Or.inl h)⟩)

theorem rank_lt_of_walk {s' : Executive} (ht : s'.timeTics = s.timeTics)
    (hp : phase p s' = phase p s) (h : walkLeft s' < walkLeft s) : rank p s' < rank p s := by
  unfold rank
  rw [ht, hp]
  exact Prod.Lex.toLex_lt_toLex.mpr
    (Or.inr ⟨rfl, Prod.Lex.toLex_lt_toLex.mpr (Or.inr ⟨rfl, h⟩)⟩)

theorem phase_freezeCheck (h : s.pc = .freezeCheck) : phase p s = 7 := by unfold phase; rw [h]

theorem phase_frameStart (h : s.pc = .frameStart) : phase p s = 6 := by unfold phase; rw [h]

theorem phase_topOfFrame (h : s.pc = .find .topOfFrame ∨ s.pc = .call .topOfFrame) :
    phase p s = 5 := by
  unfold phase; rcases h with h | h <;> rw [h]

theorem phase_input (h : s.pc = .find .inputProcessorRun) : phase p s = 4 := by
  unfold phase; rw [h]

theorem phase_endOfFrame (h : s.pc = .find .endOfFrame ∨ s.pc = .call .endOfFrame) :
    phase p s = 8 := by
  unfold phase; rcases h with h | h <;> rw [h]

/-- The state after a step is on its plan, and nearer to the end. -/
def Onward (p : Plan) (s s' : Executive) : Prop := Periodic p s' ∧ rank p s' < rank p s

/-! ## The walks over the other queues -/

/-- The loop goes on between two passes. -/
theorem onward_idle (hst : Static p s) (hpr : Progress p s 0 p.tail.length []) {s' : Executive}
    (hs : SamePlan s s') (htrace : s'.trace = s.trace)
    (hper : Static p s' ∧ Progress p s' 0 p.tail.length [] → Periodic p s')
    (hphase : phase p s' < phase p s) : Onward p s s' := by
  refine ⟨hper ⟨hst.congr hs, hpr.congr hs.jobs hs.time ?_⟩, rank_lt_of_phase (le_of_eq hs.time.symm) hphase⟩
  unfold userTrace
  rw [htrace]

theorem freezeCheck_onward (hpc : s.pc = .freezeCheck) (hper : Periodic p s) :
    Onward p s (s.step idle) := by
  unfold Periodic at hper
  rw [hpc] at hper
  obtain ⟨hst, hpr⟩ := hper
  have hstep : s.step idle = { s with pc := .frameStart } := by
    unfold step
    rw [hpc]
    simp only
    rw [if_neg (by rw [hst.exec]; simp)]
  rw [hstep]
  refine onward_idle hst hpr ⟨fun q => ?_, rfl, rfl, rfl, rfl, rfl, rfl, rfl, rfl⟩ rfl id ?_
  · cases q <;> rfl
  · rw [phase_freezeCheck hpc, phase_frameStart rfl]
    decide

theorem frameStart_onward (hpc : s.pc = .frameStart) (hper : Periodic p s) :
    Onward p s (s.step idle) := by
  unfold Periodic at hper
  rw [hpc] at hper
  obtain ⟨hst, hpr⟩ := hper
  have hdrain : ∀ q, q = .topOfFrame ∨ q = .inputProcessorRun → Onward p s (s.startDrain q) := by
    intro q hq
    rcases hq with rfl | rfl
    · refine onward_idle hst hpr (samePlan_setQueue (q := .topOfFrame)
        (v := s.topOfFrameQueue.resetCurrIndex) rfl (.find .topOfFrame) s.frameCount) rfl id ?_
      rw [phase_frameStart hpc, phase_topOfFrame (Or.inl rfl)]
      decide
    · refine onward_idle hst hpr (samePlan_setQueue (q := .inputProcessorRun)
        (v := s.inputProcessorRunQueue.resetCurrIndex) rfl (.find .inputProcessorRun)
        s.frameCount) rfl id ?_
      rw [phase_frameStart hpc, phase_input rfl]
      decide
  unfold step
  rw [hpc]
  simp only
  split
  · exact hdrain _ (Or.inl rfl)
  · exact hdrain _ (Or.inr rfl)

/-- The request of the next job of one of the frame queues. -/
theorem find_frame_onward {q : LoopQueue} (hq : q = .topOfFrame ∨ q = .endOfFrame)
    (hpc : s.pc = .find q) (hper : Periodic p s) : Onward p s (s.step idle) := by
  have hparts : Static p s ∧ Progress p s 0 p.tail.length [] := by
    unfold Periodic at hper
    rw [hpc] at hper
    rcases hq with rfl | rfl <;> exact hper
  obtain ⟨hst, hpr⟩ := hparts
  have hnext : s.nextJob q =
      (((s.queue q).getNextJob s.jobs).1, s.setQueue q ((s.queue q).getNextJob s.jobs).2) := by
    rcases hq with rfl | rfl <;> rfl
  have hl := ScheduledJobQueue.getNextJob_list s.jobs (s.queue q)
  cases hj : ((s.queue q).getNextJob s.jobs).1 with
  | some j =>
    have hstep : s.step idle = { s.setQueue q ((s.queue q).getNextJob s.jobs).2 with
        currJob := j, pc := .call q } := by
      unfold step
      rw [hpc]
      simp only
      rw [hnext, hj]
    rw [hstep]
    obtain ⟨hi1, hi2⟩ := ScheduledJobQueue.getNextJob_index hj
    have hmem := ScheduledJobQueue.getNextJob_mem hj
    have hcode : (p.jobs j).code ≠ .user := by
      rcases hq with rfl | rfl
      · exact hst.others .topOfFrame (by decide) j hmem
      · exact hst.others .endOfFrame (by decide) j hmem
    generalize ((s.queue q).getNextJob s.jobs).2 = v at *
    have hsame := samePlan_setQueue hl (.call q) s.frameCount
    have hplan : Static p { s.setQueue q v with currJob := j, pc := .call q } ∧
        Progress p { s.setQueue q v with currJob := j, pc := .call q } 0 p.tail.length [] := by
      rcases hq with rfl | rfl
      · refine ⟨hst.congr ⟨hsame.lists, rfl, rfl, rfl, rfl, rfl, rfl, rfl, rfl⟩, hpr.congr ?_ ?_ ?_⟩
        all_goals rfl
      · refine ⟨hst.congr ⟨hsame.lists, rfl, rfl, rfl, rfl, rfl, rfl, rfl, rfl⟩, hpr.congr ?_ ?_ ?_⟩
        all_goals rfl
    refine ⟨?_, rank_lt_of_walk ?_ ?_ ?_⟩
    · unfold Periodic
      rcases hq with rfl | rfl <;> exact ⟨hplan.1, hplan.2, hcode⟩
    · rcases hq with rfl | rfl <;> rfl
    · rcases hq with rfl | rfl
      · rw [phase_topOfFrame (Or.inl hpc), phase_topOfFrame (Or.inr rfl)]
      · rw [phase_endOfFrame (Or.inl hpc), phase_endOfFrame (Or.inr rfl)]
    · have hwalk : walkLeft { s.setQueue q v with currJob := j, pc := .call q } =
          2 * (v.list.length - v.currIndex) + 2 := by
        rcases hq with rfl | rfl <;> rfl
      have hwalk0 : walkLeft s =
          2 * ((s.queue q).list.length - (s.queue q).currIndex) + 1 := by
        unfold walkLeft; rw [hpc]
      rw [hwalk, hwalk0, hl]
      omega
  | none =>
    have hstep : s.step idle = (s.setQueue q ((s.queue q).getNextJob s.jobs).2).afterDrain q := by
      unfold step
      rw [hpc]
      simp only
      rw [hnext, hj]
    rw [hstep]
    generalize ((s.queue q).getNextJob s.jobs).2 = v at *
    rcases hq with rfl | rfl
    · refine onward_idle hst hpr ?_ rfl id ?_
      · refine ⟨fun q => ?_, rfl, rfl, rfl, rfl, rfl, rfl, rfl, rfl⟩
        cases q <;> first | exact hl | rfl
      · rw [phase_topOfFrame (Or.inl hpc), phase_input rfl]
        decide
    · refine onward_idle hst hpr ?_ rfl id ?_
      · refine ⟨fun q => ?_, rfl, rfl, rfl, rfl, rfl, rfl, rfl, rfl⟩
        cases q <;> first | exact hl | rfl
      · rw [phase_endOfFrame (Or.inl hpc), phase_freezeCheck rfl]
        decide

/-- The input processor queue is empty: the walk over it ends at once. -/
theorem find_input_onward (hpc : s.pc = .find .inputProcessorRun) (hper : Periodic p s) :
    Onward p s (s.step idle) := by
  have hparts : Static p s ∧ Progress p s 0 p.tail.length [] := by
    unfold Periodic at hper
    rw [hpc] at hper
    exact hper
  obtain ⟨hst, hpr⟩ := hparts
  have hnext : s.nextJob .inputProcessorRun = (none, s) := by
    have hdrop : (s.queue .inputProcessorRun).list.drop (s.queue .inputProcessorRun).currIndex =
        [] := by
      rw [show (s.queue .inputProcessorRun).list = [] from hst.input, List.drop_nil]
    unfold nextJob ScheduledJobQueue.findNextJob
    simp only
    rw [hdrop]
    rfl
  have hstep : s.step idle = s.startDrain .scheduled := by
    unfold step
    rw [hpc]
    simp only
    rw [hnext]
    rfl
  have hphase : phase p (s.startDrain .scheduled) = 3 := by
    have hdef : phase p (s.startDrain .scheduled) =
        if 0 ≤ p.head.length then 3 else if Forward (s.startDrain .scheduled) then 10 else 2 := rfl
    rw [hdef, if_pos (Nat.zero_le _)]
  rw [hstep]
  refine onward_idle hst hpr (samePlan_setQueue (q := .scheduled)
    (v := s.jobQueue.resetCurrIndex) rfl (.find .scheduled) s.frameCount) rfl ?_ ?_
  · rintro ⟨h1, h2⟩
    exact ⟨h1, Or.inl ⟨Nat.zero_le _, h2⟩⟩
  · rw [hphase, phase_input hpc]
    decide

/-- The call of one of the executive's own jobs of the frame queues. -/
theorem call_frame_onward (hp : p.Ok) (hinv : RunInv s) {q : LoopQueue}
    (hq : q = .topOfFrame ∨ q = .endOfFrame) (hpc : s.pc = .call q) (hper : Periodic p s) :
    Onward p s (s.step idle) := by
  have hparts : Static p s ∧ Progress p s 0 p.tail.length [] ∧
      (p.jobs s.currJob).code ≠ .user := by
    unfold Periodic at hper
    rw [hpc] at hper
    rcases hq with rfl | rfl <;> exact hper
  obtain ⟨hst, hpr, hcode⟩ := hparts
  have hnot : ¬ p.User s.currJob := fun hu => hcode (hp.code _ hu)
  have hnadv : (s.jobs s.currJob).code ≠ .advanceSimTime := by
    intro hc
    rcases hinv with hterm | ⟨hwf, hpass⟩
    · rw [hpc] at hterm; cases hterm
    · unfold PassInv at hpass
      rw [hpc] at hpass
      rcases hq with rfl | rfl
      · exact hpass.2.2 (hwf.adv_only _ hc)
      · exact hpass.2.2 (hwf.adv_only _ hc)
  have hstep : s.step idle = { s.logCall s.currJob with pc := .find q } := by
    rw [← callStep_static hst (by rcases hq with rfl | rfl <;> decide) hnadv
      (by rintro rfl; rcases hq with he | he <;> cases he)]
    unfold step
    rw [hpc]
  have htrace : userTrace p (s.logCall s.currJob) = userTrace p s := by
    rw [userTrace_logCall, if_neg hnot, List.append_nil]
  rw [hstep]
  have hplan : Static p { s.logCall s.currJob with pc := .find q } ∧
      Progress p { s.logCall s.currJob with pc := .find q } 0 p.tail.length [] := by
    refine ⟨hst.congr ⟨fun q' => by cases q' <;> rfl, rfl, rfl, rfl, rfl, rfl, rfl, rfl, rfl⟩,
      hpr.congr ?_ ?_ ?_⟩
    · rfl
    · rfl
    · rw [List.append_nil, List.append_nil]
      exact htrace
  refine ⟨?_, rank_lt_of_walk rfl ?_ ?_⟩
  · unfold Periodic
    rcases hq with rfl | rfl <;> exact hplan
  · rcases hq with rfl | rfl
    · rw [phase_topOfFrame (Or.inl rfl), phase_topOfFrame (Or.inr hpc)]
    · rw [phase_endOfFrame (Or.inl rfl), phase_endOfFrame (Or.inr hpc)]
  · have hwalk0 : walkLeft s =
        2 * ((s.queue q).list.length - (s.queue q).currIndex) + 2 := by
      unfold walkLeft; rw [hpc]
    rw [hwalk0]
    rcases hq with rfl | rfl <;> exact Nat.lt_succ_self _

/-! ## The walk over the scheduled queue -/

/-- The place of the advancing job. -/
theorem Static.idxOf_adv (hst : Static p s) (hwf : Wf s) :
    s.jobQueue.list.idxOf s.advanceSimTimeJob = p.head.length := by
  have hnot : p.adv ∉ p.head := fun hm =>
    (List.nodup_append.mp (hst.nodup hwf)).2.2 _ hm _ (List.mem_cons_self ..) rfl
  rw [hst.adv, hst.list, List.idxOf_append, if_neg hnot, List.idxOf_cons_self, Nat.zero_add]

/-- The step of a search of the scheduled queue that finds a job. -/
theorem step_find_some (hpc : s.pc = .find .scheduled) {mid : List JobId} {j : JobId}
    (hnext : s.nextJob .scheduled = (some j, s.scanned mid)) (c : JobCall) :
    s.step c = { s.scanned mid with currJob := j, pc := .call .scheduled } := by
  unfold step
  rw [hpc]
  simp only
  rw [hnext]

/-- The step of a search that comes to the end of the pass. -/
theorem step_find_none (hpc : s.pc = .find .scheduled) {mid : List JobId}
    (hnext : s.nextJob .scheduled = (none, s.scanned mid)) (c : JobCall) :
    s.step c = { s.scanned mid with pc := .passEnd } := by
  unfold step
  rw [hpc]
  simp only
  rw [hnext]
  rfl

/-- What a search of the scheduled queue does. -/
theorem nextJob_scanned (hwf : Wf s) :
    ∃ mid rest, s.jobQueue.list.drop s.jobQueue.currIndex = mid ++ rest ∧
      ((s.nextJob .scheduled = (none, s.scanned mid) ∧ rest = [] ∧
          ∀ i ∈ mid, ¬ (s.jobs i).Due s.timeTics) ∨
        ∃ pre j, mid = pre ++ [j] ∧ s.nextJob .scheduled = (some j, s.scanned mid) ∧
          (s.jobs j).Due s.timeTics ∧ ∀ i ∈ pre, ¬ (s.jobs i).Due s.timeTics) := by
  obtain ⟨mid, rest, hsplit, hidx, hjobs, htime, hres⟩ :=
    findNextJobLoop_spec s.timeTics _ s.jobs s.jobQueue.currIndex s.jobQueue.nextJobTime
      hwf.nodup_drop
  have hnext : s.nextJob .scheduled =
      ((findNextJobLoop s.timeTics (s.jobQueue.list.drop s.jobQueue.currIndex) s.jobs
        s.jobQueue.currIndex s.jobQueue.nextJobTime).job, s.scanned mid) := by
    rw [nextJob_scheduled]
    simp only
    rw [hjobs, hidx, htime]
    rfl
  refine ⟨mid, rest, hsplit, ?_⟩
  rw [hnext]
  rcases hres with ⟨hnone, hrest, hnot⟩ | ⟨pre, j, hmid, hsome, hdue, hnot⟩
  · exact Or.inl ⟨by rw [hnone], hrest, hnot⟩
  · exact Or.inr ⟨pre, j, hmid, by rw [hsome], hdue, hnot⟩

theorem phase_find_head (hpc : s.pc = .find .scheduled)
    (hcur : s.jobQueue.currIndex ≤ p.head.length) : phase p s = 3 := by
  unfold phase; rw [hpc]; exact if_pos hcur

theorem phase_call_head (hpc : s.pc = .call .scheduled)
    (hcur : s.jobQueue.currIndex ≤ p.head.length ∨ s.currJob = p.adv) : phase p s = 3 := by
  unfold phase; rw [hpc]; exact if_pos hcur

theorem phase_find_tail (hpc : s.pc = .find .scheduled)
    (hcur : p.head.length < s.jobQueue.currIndex) (hf : Forward s) : phase p s = 10 := by
  unfold phase; rw [hpc]; simp only; rw [if_neg (by omega), if_pos hf]

theorem phase_call_tail (hpc : s.pc = .call .scheduled)
    (hcur : p.head.length < s.jobQueue.currIndex) (hne : s.currJob ≠ p.adv) : phase p s = 10 := by
  unfold phase; rw [hpc]; simp only
  rw [if_neg (by rintro (h | h); exacts [by omega, hne h])]

theorem phase_find_ended (hpc : s.pc = .find .scheduled)
    (hcur : p.head.length < s.jobQueue.currIndex) (hf : ¬ Forward s) : phase p s = 2 := by
  unfold phase; rw [hpc]; simp only; rw [if_neg (by omega), if_neg hf]

theorem phase_passEnd (hpc : s.pc = .passEnd) : phase p s = if Forward s then 9 else 1 := by
  unfold phase; rw [hpc]

/-- A search that finds a job shortens the walk. -/
theorem walk_find_call (hpc : s.pc = .find .scheduled) {mid rest : List JobId} {j : JobId}
    (hsplit : s.jobQueue.list.drop s.jobQueue.currIndex = mid ++ rest) (hmid : mid ≠ []) :
    walkLeft { s.scanned mid with currJob := j, pc := .call .scheduled } < walkLeft s := by
  have hlen := congrArg List.length hsplit
  rw [List.length_drop, List.length_append] at hlen
  have hpos : 0 < mid.length := List.length_pos_iff.mpr hmid
  have h0 : walkLeft s = 2 * (s.jobQueue.list.length - s.jobQueue.currIndex) + 1 := by
    unfold walkLeft; rw [hpc]; rfl
  rw [h0]
  show 2 * (s.jobQueue.list.length - (s.jobQueue.currIndex + mid.length)) + 2 < _
  omega

/-- Progress does not look at the place of the loop. -/
theorem Progress.setPc {h g : Nat} {pending : List (JobId × Int)} (hpr : Progress p s h g pending)
    (pc : Pc) (j : JobId) : Progress p { s with currJob := j, pc := pc } h g pending := by
  refine hpr.congr ?_ ?_ ?_ <;> rfl

theorem Static.setPc (hst : Static p s) (pc : Pc) (j : JobId) :
    Static p { s with currJob := j, pc := pc } :=
  hst.congr ⟨fun q => by cases q <;> rfl, rfl, rfl, rfl, rfl, rfl, rfl, rfl, rfl⟩

/-- A walk that still has the advancing job in front of it is a walk over the head. -/
theorem located_head (hwf : Wf s) (hst : Static p s) (hpc : s.pc = .find .scheduled)
    (hpass : PassInv s) (hcur : s.jobQueue.currIndex ≤ p.head.length) : Located s .head := by
  have hidx := hst.idxOf_adv hwf
  unfold PassInv at hpass
  rw [hpc] at hpass
  rcases hpass with ⟨hl, _⟩ | ⟨hl, _⟩ | ⟨_, _, W, Q, hlist, hle, _, _⟩
  · exact hl
  · have := cursor_of_tail hwf hl; omega
  · exfalso
    have hnd := hwf.nodup .scheduled
    rw [show (s.queue .scheduled).list = W ++ s.advanceSimTimeJob :: Q from hlist] at hnd
    have hnot : s.advanceSimTimeJob ∉ W := fun hm =>
      (List.nodup_append.mp hnd).2.2 _ hm _ (List.mem_cons_self ..) rfl
    rw [hlist, List.idxOf_append, if_neg hnot, List.idxOf_cons_self] at hidx
    omega

/-- The search in the walk over the head. -/
theorem find_head_onward (hp : p.Ok) (hwf : Wf s) (hpass : PassInv s) (hst : Static p s)
    (hpc : s.pc = .find .scheduled) (hcur : s.jobQueue.currIndex ≤ p.head.length)
    (hpr : Progress p s s.jobQueue.currIndex p.tail.length []) : Onward p s (s.step idle) := by
  obtain ⟨P, W, Q, hz, _⟩ := located_head hwf hst hpc hpass hcur
  have hadvdue : (s.jobs p.adv).Due s.timeTics :=
    ⟨hst.adv ▸ hz.adv_next, hst.adv ▸ hwf.adv_enabled⟩
  have hdrop : s.jobQueue.list.drop s.jobQueue.currIndex =
      p.head.drop s.jobQueue.currIndex ++ p.adv :: p.tail := by
    rw [hst.list, List.drop_append_of_le_length hcur]
  obtain ⟨mid, rest, hsplit, hres⟩ := nextJob_scanned hwf
  rw [hdrop] at hsplit
  rcases hres with ⟨_, hrest, hnot⟩ | ⟨pre, j, hmid, hnext, hdue, hnot⟩
  · exact absurd hadvdue (hnot p.adv (by
      rw [hrest, List.append_nil] at hsplit; rw [← hsplit]; simp))
  rw [step_find_some hpc hnext]
  have hwalk := walk_find_call (j := j) hpc (hdrop.trans hsplit) (by rw [hmid]; simp)
  have hsplit' := hsplit
  rw [hmid, List.append_assoc, List.singleton_append] at hsplit'
  rcases append_cons_cases hsplit' with ⟨W', hW⟩ | ⟨hj, hpre⟩ | hin
  · -- a job of the head
    have hparts : p.head.drop s.jobQueue.currIndex = mid ++ W' := by rw [hW, hmid]; simp
    have htake : mid = (p.head.drop s.jobQueue.currIndex).take mid.length := by
      rw [hparts, List.take_left' rfl]
    have hjmem : j ∈ p.head := List.mem_of_mem_drop (hW ▸ (by simp : j ∈ pre ++ j :: W'))
    have hu := hp.head_user j hjmem
    have hpart : NextFrom p s (pre ++ [j]) s.timeTics :=
      hpr.head_waiting.mono (by rw [hW]; intro i hi; simp at hi ⊢; tauto)
    have hdue' : p.due ((p.head.drop s.jobQueue.currIndex).take mid.length) s.timeTics =
        [(j, s.timeTics)] := by
      rw [← htake, hmid]
      exact due_of_found hp hst hpart hnot hu hdue
    have hlen : s.jobQueue.currIndex + mid.length ≤ p.head.length := by
      have := congrArg List.length hW
      rw [List.length_drop, List.length_append, List.length_cons] at this
      rw [hmid, List.length_append, List.length_singleton]
      omega
    have hprog := hpr.scan_head hp hst hwf (Or.inl htake) hdue'
    refine ⟨?_, rank_lt_of_walk rfl ?_ hwalk⟩
    · exact ⟨(hst.scanned hp mid).setPc _ _, Or.inl ⟨hlen, hu, hprog.setPc _ _⟩⟩
    · rw [phase_find_head hpc hcur]
      exact phase_call_head rfl (Or.inl hlen)
  · -- the advancing job
    have htake : (p.head.drop s.jobQueue.currIndex).take (p.head.length - s.jobQueue.currIndex) =
        p.head.drop s.jobQueue.currIndex := by
      rw [List.take_of_length_le (by rw [List.length_drop])]
    have hmid' : mid = (p.head.drop s.jobQueue.currIndex).take
        (p.head.length - s.jobQueue.currIndex) ++ [p.adv] := by
      rw [htake, hmid, hpre, hj]
    have hdue' : p.due ((p.head.drop s.jobQueue.currIndex).take
        (p.head.length - s.jobQueue.currIndex)) s.timeTics = [] := by
      rw [htake]
      exact due_of_not_due hp hst hpr.head_waiting (hpre ▸ hnot)
    have hlen : s.jobQueue.currIndex + mid.length = p.head.length + 1 := by
      rw [hmid', htake, List.length_append, List.length_drop, List.length_singleton]
      omega
    have hprog := hpr.scan_head hp hst hwf (Or.inr hmid') hdue'
    rw [Nat.add_sub_cancel' hcur] at hprog
    refine ⟨?_, rank_lt_of_walk rfl ?_ hwalk⟩
    · exact ⟨(hst.scanned hp mid).setPc _ _, Or.inr (Or.inl ⟨hj, hlen, hprog.setPc _ _⟩)⟩
    · rw [phase_find_head hpc hcur]
      exact phase_call_head rfl (Or.inr hj)
  · exact absurd hadvdue (hnot _ hin)

/-- The search in the walk over the tail. -/
theorem find_tail_onward (hp : p.Ok) (hwf : Wf s) (hst : Static p s)
    (hpc : s.pc = .find .scheduled) {g : Nat} (hcur : s.jobQueue.currIndex = p.head.length + 1 + g)
    (hg : g ≤ p.tail.length) (hf : Forward s) (hpr : Progress p s 0 g []) :
    Onward p s (s.step idle) := by
  have hdrop : s.jobQueue.list.drop s.jobQueue.currIndex = p.tail.drop g := by
    have hsplit : p.head ++ p.adv :: p.tail = (p.head ++ [p.adv]) ++ p.tail := by simp
    have hlen : (p.head ++ [p.adv]).length = p.head.length + 1 := by simp
    rw [hst.list, hcur, hsplit, ← hlen, List.drop_length_add_append]
  obtain ⟨mid, rest, hsplit, hres⟩ := nextJob_scanned hwf
  rw [hdrop] at hsplit
  have htake : mid = (p.tail.drop g).take mid.length := by rw [hsplit, List.take_left']; rfl
  have hlen : g + mid.length ≤ p.tail.length := by
    have := congrArg List.length hsplit
    rw [List.length_drop, List.length_append] at this
    omega
  have hphase := phase_find_tail hpc (p := p) (by omega) hf
  rcases hres with ⟨hnext, hrest, hnot⟩ | ⟨pre, j, hmid, hnext, hdue, hnot⟩
  · -- the end of the pass
    rw [step_find_none hpc hnext]
    have hfull : g + mid.length = p.tail.length := by
      have := congrArg List.length hsplit
      rw [List.length_drop, List.length_append, hrest, List.length_nil] at this
      omega
    have hpart : NextFrom p s mid s.timeTics :=
      hpr.tail_waiting.mono fun i hi => hsplit ▸ List.mem_append_left _ hi
    have hdue' : p.due ((p.tail.drop g).take mid.length) s.timeTics = [] := by
      rw [← htake]
      exact due_of_not_due hp hst hpart hnot
    have hprog := hpr.scan_tail hp hst hwf hdue'
    rw [← htake, hfull] at hprog
    have hforward : Forward { s.scanned mid with pc := .passEnd } := hf
    refine ⟨⟨(hst.scanned hp mid).setPc _ s.currJob, Or.inl ⟨hf, hprog.setPc _ s.currJob⟩⟩,
      rank_lt_of_phase (le_refl _) ?_⟩
    rw [hphase, phase_passEnd rfl, if_pos hforward]
    decide
  · rw [step_find_some hpc hnext]
    have hwalk := walk_find_call (j := j) hpc (hdrop.trans hsplit) (by rw [hmid]; simp)
    have hjmem : j ∈ p.tail :=
      List.mem_of_mem_drop (hsplit ▸ List.mem_append_left _ (by rw [hmid]; simp))
    have hu : p.User j := by
      rcases hp.tail_user j hjmem with hu | rfl
      · exact hu
      · -- the freeze job is never due
        exfalso
        have h1 := hdue.1
        rw [hst.frz_next] at h1
        have := hst.le_terminate
        have := hp.terminate_lt
        omega
    have hpart : NextFrom p s (pre ++ [j]) s.timeTics :=
      hpr.tail_waiting.mono fun i hi => hsplit ▸ List.mem_append_left _ (hmid ▸ hi)
    have hdue' : p.due ((p.tail.drop g).take mid.length) s.timeTics = [(j, s.timeTics)] := by
      rw [← htake, hmid]
      exact due_of_found hp hst hpart hnot hu hdue
    have hprog := hpr.scan_tail hp hst hwf hdue'
    rw [← htake] at hprog
    have hne : j ≠ p.adv := by
      rintro rfl
      exact (List.nodup_cons.mp (List.nodup_append.mp (hst.nodup hwf)).2.1).1 hjmem
    have hcur' : s.jobQueue.currIndex + mid.length = p.head.length + 1 + (g + mid.length) := by
      omega
    refine ⟨⟨(hst.scanned hp mid).setPc _ _,
      Or.inr (Or.inr ⟨g + mid.length, hcur', hlen, hf, hu, hprog.setPc _ _⟩)⟩,
      rank_lt_of_walk rfl ?_ hwalk⟩
    rw [hphase]
    refine phase_call_tail rfl ?_ hne
    show p.head.length < s.jobQueue.currIndex + mid.length
    omega

/-- Nothing is found any more once all calls have been made. -/
theorem find_ended_onward (hp : p.Ok) (hwf : Wf s) (hst : Static p s)
    (hpc : s.pc = .find .scheduled) (he : Ended p s) : Onward p s (s.step idle) := by
  obtain ⟨hnone, _, hd'⟩ := nextJob_doomed hwf he.1
  obtain ⟨mid, rest, _, hres⟩ := nextJob_scanned hwf
  have hnext : s.nextJob .scheduled = (none, s.scanned mid) := by
    rcases hres with ⟨hnext, _⟩ | ⟨pre, j, _, hnext, _⟩
    · exact hnext
    · rw [hnext] at hnone; cases hnone
  rw [hnext] at hd'
  rw [step_find_none hpc hnext]
  have hback : ¬ Forward s := by
    have := he.1.2.1
    show ¬ s.timeLastPassTics < s.timeTics
    omega
  have hcur : p.head.length < s.jobQueue.currIndex := by
    obtain ⟨_, _, W, Q, hlist, hle, _, _⟩ := he.1
    have hidx := hst.idxOf_adv hwf
    have hnd := hwf.nodup .scheduled
    rw [show (s.queue .scheduled).list = W ++ s.advanceSimTimeJob :: Q from hlist] at hnd
    have hnot : s.advanceSimTimeJob ∉ W := fun hm =>
      (List.nodup_append.mp hnd).2.2 _ hm _ (List.mem_cons_self ..) rfl
    rw [hlist, List.idxOf_append, if_neg hnot, List.idxOf_cons_self] at hidx
    omega
  refine ⟨⟨(hst.scanned hp mid).setPc _ s.currJob, Or.inr ⟨hd', he.2⟩⟩, rank_lt_of_phase (le_refl _) ?_⟩
  have hback' : ¬ Forward { s.scanned mid with pc := .passEnd } := hback
  rw [phase_find_ended hpc hcur hback, phase_passEnd rfl, if_neg hback']
  decide

/-! ## The calls of the scheduled queue -/

/-- The step that calls a job of the user. -/
theorem step_call_user (hp : p.Ok) (hst : Static p s) (hpc : s.pc = .call .scheduled)
    (hu : p.User s.currJob) :
    s.step idle = { s.logCall s.currJob with pc := .find .scheduled } := by
  have hcode : (s.jobs s.currJob).code = .user := by rw [hst.jobs]; exact hp.code _ hu
  have hsys : (s.jobs s.currJob).systemJobClass = false := by rw [hst.jobs]; exact hu.2
  rw [← callStep_static hst (by decide) (by rw [hcode]; simp) (fun _ => hsys)]
  unfold step
  rw [hpc]

/-- The pending call is made. -/
theorem Progress.called {h g : Nat} (hu : p.User s.currJob)
    (hpr : Progress p s h g [(s.currJob, s.timeTics)]) :
    Progress p { s.logCall s.currJob with pc := .find .scheduled } h g [] := by
  refine hpr.congr ?_ ?_ ?_
  · rfl
  · rfl
  · show userTrace p (s.logCall s.currJob) ++ [] = _
    rw [userTrace_logCall, if_pos hu, List.append_nil]

theorem Static.called (hst : Static p s) :
    Static p { s.logCall s.currJob with pc := .find .scheduled } :=
  hst.congr ⟨fun q => by cases q <;> rfl, rfl, rfl, rfl, rfl, rfl, rfl, rfl, rfl⟩

theorem walk_call_find (hpc : s.pc = .call .scheduled) :
    walkLeft { s.logCall s.currJob with pc := .find .scheduled } < walkLeft s := by
  have h0 : walkLeft s = 2 * (s.jobQueue.list.length - s.jobQueue.currIndex) + 2 := by
    unfold walkLeft; rw [hpc]; rfl
  rw [h0]
  exact Nat.lt_succ_self _

/-- The call of a job of the head. -/
theorem call_head_onward (hp : p.Ok) (hst : Static p s) (hpc : s.pc = .call .scheduled)
    (hcur : s.jobQueue.currIndex ≤ p.head.length) (hu : p.User s.currJob)
    (hpr : Progress p s s.jobQueue.currIndex p.tail.length [(s.currJob, s.timeTics)]) :
    Onward p s (s.step idle) := by
  rw [step_call_user hp hst hpc hu]
  refine ⟨⟨hst.called, Or.inl ⟨hcur, hpr.called hu⟩⟩, rank_lt_of_walk rfl ?_ (walk_call_find hpc)⟩
  rw [phase_call_head hpc (Or.inl hcur)]
  exact phase_find_head rfl hcur

/-- The call of a job of the tail. -/
theorem call_tail_onward (hp : p.Ok) (hst : Static p s) (hpc : s.pc = .call .scheduled) {g : Nat}
    (hcur : s.jobQueue.currIndex = p.head.length + 1 + g) (hg : g ≤ p.tail.length)
    (hf : Forward s) (hu : p.User s.currJob)
    (hpr : Progress p s 0 g [(s.currJob, s.timeTics)]) : Onward p s (s.step idle) := by
  rw [step_call_user hp hst hpc hu]
  have hne : s.currJob ≠ p.adv := by
    intro he
    have := hu.2
    rw [he, hp.adv_system] at this
    cases this
  refine ⟨⟨hst.called, Or.inr (Or.inl ⟨g, hcur, hg, hf, hpr.called hu⟩)⟩,
    rank_lt_of_walk rfl ?_ (walk_call_find hpc)⟩
  rw [phase_call_tail hpc (by omega) hne]
  exact phase_find_tail rfl (by show _ < s.jobQueue.currIndex; omega) hf

/-- The jobs of the tail that reschedule themselves are not late. -/
theorem Static.tail_not_late (hp : p.Ok) (hst : Static p s)
    (hcur : s.jobQueue.currIndex = p.head.length + 1) :
    ∀ j ∈ s.jobQueue.list.drop s.jobQueue.currIndex, (s.jobs j).systemJobClass = true →
      s.timeTics < (s.jobs j).nextTics := by
  have hdrop : s.jobQueue.list.drop s.jobQueue.currIndex = p.tail := by
    have hsplit : p.head ++ p.adv :: p.tail = (p.head ++ [p.adv]) ++ p.tail := by simp
    have hlen : (p.head ++ [p.adv]).length = p.head.length + 1 := by simp
    rw [hst.list, hcur, hsplit, ← hlen, List.drop_left' rfl]
  intro j hj hsys
  rw [hdrop] at hj
  rcases hp.tail_user j hj with hu | rfl
  · rw [hst.jobs] at hsys
    have := hu.2
    simp only [this, Bool.false_eq_true] at hsys
  · rw [hst.frz_next]
    have := hst.le_terminate
    have := hp.terminate_lt
    omega

/-- **The clock is advanced**: past tics at which nothing is due, or not at all when the terminate
    time has been reached. -/
theorem call_adv_onward (hp : p.Ok) (hwf : Wf s) (hpass : PassInv s) (hclock : ClockInv s)
    (hst : Static p s) (hpc : s.pc = .call .scheduled) (hcurr : s.currJob = p.adv)
    (hcur : s.jobQueue.currIndex = p.head.length + 1)
    (hpr : Progress p s p.head.length p.tail.length []) : Onward p s (s.step idle) := by
  have hcurr' : s.currJob = s.advanceSimTimeJob := hcurr.trans hst.adv.symm
  have hadv : Advancing s := by
    unfold PassInv at hpass
    rw [hpc] at hpass
    rcases hpass with ⟨_, _, hne⟩ | hadv | ⟨_, _, hne⟩
    · exact absurd hcurr' hne
    · exact hadv
    · exact absurd hcurr' hne
  have hlate := hst.tail_not_late hp hcur
  have hleast := nextTimeTics_isLeast hwf hclock hadv hpc hlate (by
    rw [hst.input, List.drop_nil]; intro j hj; cases hj)
  have hle : s.nextTimeTics ≤ p.terminateTime :=
    hst.terminate ▸ hleast.2 (Or.inr (Or.inl rfl))
  have hnotU : ¬ p.User s.currJob := by
    intro hu
    have := hu.2
    rw [hcurr, hp.adv_system] at this
    cases this
  obtain ⟨h1, _, h3, _, h5⟩ := hpr
  rw [List.take_length] at h1 h3
  rw [List.take_length, List.take_length, List.append_nil, ← Plan.before_succ hst.start_le] at h5
  -- every call time is later, and the clock does not pass it
  have hnext : ∀ j, p.User j →
      (p.cycle j).IsNext maxLongLong (s.jobs j).nextTics (s.timeTics + 1) ∧
        s.nextTimeTics ≤ (s.jobs j).nextTics := by
    intro j hu
    have hn : (p.cycle j).IsNext maxLongLong (s.jobs j).nextTics (s.timeTics + 1) := by
      rcases List.mem_append.mp hu.1 with hj | hj
      · exact h1 j hj hu
      · exact h3 j hj hu
    have hlt : s.timeTics + 1 ≤ (s.jobs j).nextTics := by
      have := hst.le_terminate
      have := hp.terminate_lt
      exact hn.le (by omega)
    have hmem : j ∈ s.jobQueue.list := by
      rw [hst.list]
      rcases List.mem_append.mp hu.1 with hj | hj <;> simp [hj]
    exact ⟨hn, hleast.2 (Or.inr (Or.inr ⟨j, Or.inl hmem, by omega, rfl⟩))⟩
  have hstep : s.step idle =
      { (s.logCall s.currJob).advanceSimTime with pc := .find .scheduled } := by
    rw [← callStep_advance_eq hwf hcurr' idle]
    unfold step
    rw [hpc]
  have htrace : userTrace p { (s.logCall s.currJob).advanceSimTime with pc := .find .scheduled } =
      p.before (s.timeTics + 1) := by
    rw [← h5]
    show userTrace p (s.logCall s.currJob) = _
    rw [userTrace_logCall, if_neg hnotU, List.append_nil]
  have hupd : (s.logCall s.currJob).advanceSimTime.jobs =
      Function.update s.jobs s.advanceSimTimeJob
        { s.jobs s.advanceSimTimeJob with nextTics := s.nextTimeTics } := rfl
  have hother : ∀ j, j ≠ p.adv → (s.logCall s.currJob).advanceSimTime.jobs j = s.jobs j := by
    intro j hj
    rw [hupd, hst.adv, Function.update_of_ne hj]
  have huser : ∀ j, p.User j → j ≠ p.adv := by
    rintro j hu rfl
    have := hu.2
    rw [hp.adv_system] at this
    cases this
  have hfrz : p.frz ≠ p.adv := by
    have := hwf.freeze_ne
    rw [hst.frz, hst.adv] at this
    exact this
  have hstatic : s.timeTics ≤ s.nextTimeTics →
      Static p { (s.logCall s.currJob).advanceSimTime with pc := .find .scheduled } := by
    intro hge
    refine ⟨hst.list, hst.adv, hst.frz, ?_, ?_, hst.freezeTimes, hst.input, ?_, hst.async,
      hst.exec, hst.terminate, le_trans hst.start_le hge, hle⟩
    · intro j
      show (s.logCall s.currJob).advanceSimTime.jobs j =
        { p.jobs j with nextTics := ((s.logCall s.currJob).advanceSimTime.jobs j).nextTics }
      by_cases hj : j = p.adv
      · rw [hj, ← hst.adv, hupd, Function.update_self, hst.jobs]
      · rw [hother j hj]; exact hst.jobs j
    · rw [hother p.frz hfrz]; exact hst.frz_next
    · intro q hq j hj
      refine hst.others q hq j ?_
      cases q <;> exact hj
  rw [hstep]
  obtain ⟨_, hrest⟩ := advance_step (s := s.logCall s.currJob) { hwf with } hadv hlate
  have hcur' : p.head.length < s.jobQueue.currIndex := by omega
  rcases hrest with ⟨_, hlive⟩ | hdoom
  · -- the clock goes forward
    have hgt : s.timeTics < s.nextTimeTics := hlive.1
    have hskip : p.before (s.timeTics + 1) = p.before s.nextTimeTics := by
      have h := Plan.before_skip (p := p) (t := s.timeTics + 1) (by have := hst.start_le; omega)
        (s.nextTimeTics - (s.timeTics + 1)).toNat ?_
      · rw [← h]; congr 1; omega
      · intro τ hτ hlt j hu
        obtain ⟨hn, hjle⟩ := hnext j hu
        exact hn.not_due hτ (by omega)
    have hall : ∀ l, (∀ j ∈ l, j ∈ p.head ++ p.tail) → NextFrom p
        { (s.logCall s.currJob).advanceSimTime with pc := .find .scheduled } l s.nextTimeTics := by
      intro l _ j _ hu
      obtain ⟨hn, hjle⟩ := hnext j hu
      show (p.cycle j).IsNext maxLongLong
        ((s.logCall s.currJob).advanceSimTime.jobs j).nextTics s.nextTimeTics
      rw [hother j (huser j hu)]
      exact hn.mono (by omega) hjle
    refine ⟨⟨hstatic (le_of_lt hgt), Or.inr (Or.inl ⟨0, hcur, Nat.zero_le _, hgt, ?_⟩)⟩,
      rank_lt_of_time hgt hle⟩
    refine ⟨?_, hall _ (fun j hj => List.mem_append_left _ (List.mem_of_mem_drop hj)), ?_,
      hall _ (fun j hj => List.mem_append_right _ (List.mem_of_mem_drop hj)), ?_⟩
    · intro j hj; cases hj
    · intro j hj; cases hj
    · rw [htrace, hskip]
      rfl
  · -- the terminate time has been reached
    have hstay : s.nextTimeTics = p.terminateTime ∧ s.timeTics = p.terminateTime := by
      have hterm : s.terminateTime ≤ s.timeTics := hdoom.1
      have := hst.le_terminate
      have hteq := hst.terminate
      have hframe := hadv.2.1
      rcases hleast.1 with he | he | ⟨_, _, hlt, _⟩ <;> omega
    have hphase : phase p { (s.logCall s.currJob).advanceSimTime with pc := .find .scheduled } =
        2 := by
      refine phase_find_ended rfl hcur' ?_
      show ¬ s.timeTics < s.nextTimeTics
      omega
    refine ⟨⟨hstatic (by omega), Or.inr (Or.inr ⟨hdoom, ?_⟩)⟩, rank_lt_of_phase ?_ ?_⟩
    · rw [htrace, hstay.2]
    · show s.timeTics ≤ s.nextTimeTics
      omega
    · rw [phase_call_head hpc (Or.inr hcurr), hphase]
      decide

/-! ## The end of a pass -/

/-- The tests at the end of a pass: of the frame, or of the terminate time. -/
theorem passEnd_onward (hpc : s.pc = .passEnd) (hper : Periodic p s) :
    Onward p s (s.step idle) := by
  unfold Periodic at hper
  rw [hpc] at hper
  obtain ⟨hst, hrest⟩ := hper
  have hstep : s.step idle =
      if s.terminateTime ≤ s.timeLastPassTics then
        { s with timeTics := s.timeLastPassTics, execCommand := .exitCmd, pc := .terminated }
      else if s.timeTics = s.nextFrameCheckTics then s.startDrain .endOfFrame
      else { s with pc := .freezeCheck } := by
    unfold step
    rw [hpc]
    simp only
    unfold passEndStep
    have hexit : ¬ s.execCommand = .exitCmd := by rw [hst.exec]; simp
    have hrun : ¬ s.execCommand = .runCmd := by rw [hst.exec]; simp
    simp only [if_neg hexit, if_neg hrun]
  rw [hstep]
  rcases hrest with ⟨hf, hpr⟩ | he
  · have hlive : ¬ s.terminateTime ≤ s.timeLastPassTics := by
      have hlt : s.timeLastPassTics < s.timeTics := hf
      have := hst.le_terminate
      have := hst.terminate
      omega
    have hphase : phase p s = 9 := by rw [phase_passEnd hpc, if_pos hf]
    rw [if_neg hlive]
    split
    · refine onward_idle hst hpr (samePlan_setQueue (q := .endOfFrame)
        (v := s.endOfFrameQueue.resetCurrIndex) rfl (.find .endOfFrame) s.frameCount) rfl id ?_
      rw [hphase, phase_endOfFrame (Or.inl rfl)]
      decide
    · refine onward_idle hst hpr ⟨fun q => ?_, rfl, rfl, rfl, rfl, rfl, rfl, rfl, rfl⟩ rfl id ?_
      · cases q <;> rfl
      · rw [hphase, phase_freezeCheck rfl]
        decide
  · rw [if_pos he.1.1]
    have hback : ¬ Forward s := by
      have := he.1.2.1
      show ¬ s.timeLastPassTics < s.timeTics
      omega
    refine ⟨he.2, rank_lt_of_phase he.1.2.1 ?_⟩
    rw [phase_passEnd hpc, if_neg hback]
    exact Nat.zero_lt_one

/-! ## The step -/

/-- A call with no commands is in order when the clock is not late. -/
theorem stepOk_idle (hp : p.Ok) (hinv : RunInv s) (hper : Periodic p s) :
    StepOk s idle ∧ ClockStepOk s idle := by
  have hadvance : ∀ q, s.pc = .call q → (s.jobs s.currJob).code = .advanceSimTime →
      (∀ j ∈ s.jobQueue.list.drop s.jobQueue.currIndex, (s.jobs j).systemJobClass = true →
        s.timeTics < (s.jobs j).nextTics) ∧
      ∀ j ∈ s.inputProcessorRunQueue.list.drop s.inputProcessorRunQueue.currIndex,
        s.timeTics < (s.jobs j).nextTics := by
    intro q hpc hcode
    rcases hinv with hterm | ⟨hwf, hpass⟩
    · rw [hpc] at hterm; cases hterm
    have hcurr := hwf.adv_only _ hcode
    unfold Periodic at hper
    rw [hpc] at hper
    have hnotU : Static p s → ¬ p.User s.currJob := by
      intro hst hu
      rw [hst.jobs] at hcode
      have : (p.jobs s.currJob).code = .advanceSimTime := hcode
      rw [hp.code _ hu] at this
      cases this
    unfold PassInv at hpass
    rw [hpc] at hpass
    cases q with
    | topOfFrame => exact absurd hcurr hpass.2.2
    | endOfFrame => exact absurd hcurr hpass.2.2
    | threadSync => exact absurd hcurr hpass.2.2
    | inputProcessorRun => exact absurd hcurr hpass.2.2
    | scheduled =>
      obtain ⟨hst, ⟨_, hu, _⟩ | ⟨_, hcur, _⟩ | ⟨_, _, _, _, hu, _⟩⟩ := hper
      · exact absurd hu (hnotU hst)
      · refine ⟨hst.tail_not_late hp hcur, ?_⟩
        rw [hst.input, List.drop_nil]
        intro j hj; cases hj
      · exact absurd hu (hnotU hst)
  constructor
  · unfold StepOk
    cases hpc : s.pc with
    | call q =>
      simp only
      cases hcode : (s.jobs s.currJob).code with
      | advanceSimTime => exact (hadvance q hpc hcode).1
      | _ => trivial
    | _ => trivial
  · unfold ClockStepOk
    cases hpc : s.pc with
    | call q =>
      simp only
      cases hcode : (s.jobs s.currJob).code with
      | advanceSimTime => exact (hadvance q hpc hcode).2
      | user => exact ⟨trivial, fun h => by cases h⟩
      | _ => trivial
    | _ => trivial

/-- The clock is right where the clock is about to be advanced. -/
theorem ClockRun.clock (h : ClockRun s) {q : LoopQueue} (hpc : s.pc = .call q) : ClockInv s := by
  rcases h with hterm | ⟨hpc' | hpc', _⟩ | ⟨hc, _⟩
  · rw [hpc] at hterm; cases hterm
  · rw [hpc] at hpc'; cases hpc'
  · rw [hpc] at hpc'; cases hpc'
  · exact hc

/-- **The step lemma.** -/
theorem step_onward (hp : p.Ok) (hinv : RunInv s) (hclock : ClockRun s) (hper : Periodic p s)
    (hrun : s.pc ≠ .terminated) : Onward p s (s.step idle) := by
  obtain ⟨hwf, hpass⟩ := hinv.resolve_left hrun
  cases hpc : s.pc with
  | terminated => exact absurd hpc hrun
  | freezeCheck => exact freezeCheck_onward hpc hper
  | frameStart => exact frameStart_onward hpc hper
  | passEnd => exact passEnd_onward hpc hper
  | find q =>
    cases q with
    | topOfFrame => exact find_frame_onward (Or.inl rfl) hpc hper
    | endOfFrame => exact find_frame_onward (Or.inr rfl) hpc hper
    | inputProcessorRun => exact find_input_onward hpc hper
    | threadSync => unfold Periodic at hper; rw [hpc] at hper; exact hper.elim
    | scheduled =>
      unfold Periodic at hper
      rw [hpc] at hper
      obtain ⟨hst, ⟨hcur, hpr⟩ | ⟨g, hcur, hg, hf, hpr⟩ | he⟩ := hper
      · exact find_head_onward hp hwf hpass hst hpc hcur hpr
      · exact find_tail_onward hp hwf hst hpc hcur hg hf hpr
      · exact find_ended_onward hp hwf hst hpc he
  | call q =>
    cases q with
    | topOfFrame => exact call_frame_onward hp hinv (Or.inl rfl) hpc hper
    | endOfFrame => exact call_frame_onward hp hinv (Or.inr rfl) hpc hper
    | inputProcessorRun => unfold Periodic at hper; rw [hpc] at hper; exact hper.elim
    | threadSync => unfold Periodic at hper; rw [hpc] at hper; exact hper.elim
    | scheduled =>
      unfold Periodic at hper
      rw [hpc] at hper
      obtain ⟨hst, ⟨hcur, hu, hpr⟩ | ⟨hcurr, hcur, hpr⟩ | ⟨g, hcur, hg, hf, hu, hpr⟩⟩ := hper
      · exact call_head_onward hp hst hpc hcur hu hpr
      · exact call_adv_onward hp hwf hpass (hclock.clock hpc) hst hpc hcurr hcur hpr
      · exact call_tail_onward hp hst hpc hcur hg hf hu hpr
  | _ => unfold Periodic at hper; rw [hpc] at hper; exact hper.elim

/-- **The run ends, with exactly the planned calls.** -/
theorem static_run (hp : p.Ok) (hinv : RunInv s) (hclock : ClockRun s) (hper : Periodic p s) :
    ∃ n, (run step s (List.replicate n idle)).pc = .terminated ∧
      userTrace p (run step s (List.replicate n idle)) = p.before (p.terminateTime + 1) := by
  let Inv : Executive → Prop := fun s => RunInv s ∧ ClockRun s ∧ Periodic p s
  have hwf : WellFounded fun s' s : Executive => rank p s' < rank p s :=
    InvImage.wf (rank p) wellFounded_lt
  have hkeep : ∀ s, Inv s → ¬ s.pc = .terminated → Inv (s.step idle) := by
    rintro s ⟨hinv, hclock, hper⟩ hrun
    obtain ⟨hok, hcok⟩ := stepOk_idle hp hinv hper
    exact ⟨step_runInv hinv hok, step_clockRun hinv hclock hok hcok,
      (step_onward hp hinv hclock hper hrun).1⟩
  have hdown : ∀ s, Inv s → ¬ s.pc = .terminated → rank p (s.step idle) < rank p s := by
    rintro s ⟨hinv, hclock, hper⟩ hrun
    exact (step_onward hp hinv hclock hper hrun).2
  obtain ⟨n, hhalt, _, _, hper'⟩ := exists_halted hwf hkeep hdown s ⟨hinv, hclock, hper⟩
  refine ⟨n, hhalt, ?_⟩
  unfold Periodic at hper'
  rw [hhalt] at hper'
  exact hper'

end Trick.Exec.Executive
