/-
  Every request to freeze is served once, and in time.

  `Recorded` adds the logs to the invariant of the executive: the requests that were accepted are those that
  were served and those that wait, and each was served at its tic, or at the first end of frame that is not
  before its tic.  `freeze_scheduling` is the result, for every run with requests at any moment.

  A simulation of user jobs starts well for any of these runs (`start_freezeStarted`).
-/
import Trick.Executive.FreezeInvariant
import Trick.Executive.StartOfRun

namespace Trick.Exec.Executive

open Trick.Lib

variable {e : JobId} {s s' : Executive}

/-! ## In time -/

/-- The tics at which the software frames end, from the first one of the run on. -/
def FrameEnd (s : Executive) (t : Int) : Prop :=
  ∃ k : Nat, t = s.nextFrameCheckTics + k * s.softwareFrameTics

/-- **Served in time**, in the run that starts from `s`: at the tic of the request, or at the first end of
    frame that is not before it. -/
def Service.InTime (s : Executive) (x : Service) : Prop :=
  x.command = .freezeCmd ∧
    if s.freezeOnFrameBoundary = true then IsLeast {t | FrameEnd s t ∧ x.time ≤ t} x.tics
    else x.tics = x.time

/-- A run about to begin, in which a request may be waiting. -/
structure FreezeStarted (e : JobId) (s : Executive) : Prop extends Started s where
  jobs : FreezeJobs e s
  order : InOrder s
  inFrame : InFrame s
  later : Later s

/-! ## The logs -/

/-- **The requests and their services.** -/
structure Recorded (e : JobId) (s₀ : Executive) (r : FreezeRun) : Prop where
  timely : Timely e r.exec
  boundary : r.exec.freezeOnFrameBoundary = s₀.freezeOnFrameBoundary
  frame : r.exec.softwareFrameTics = s₀.softwareFrameTics
  aligned : FrameEnd s₀ r.exec.nextFrameCheckTics
  account : r.requested.Perm (r.served.map Service.time ++ r.exec.freezeTimes)
  inTime : ∀ x ∈ r.served, x.InTime s₀

variable {rs : List Request}

/-- What comes off the queue when the called job serves requests. -/
theorem popped_call {q : LoopQueue} (hpc : s.pc = .call q) {b : Bool}
    (hcode : (s.jobs s.currJob).code = .schedFreezeToExecCommand b)
    (hb : b = true ∨ s.freezeOnFrameBoundary = false) :
    popped s = s.freezeTimes.takeWhile (· ≤ s.timeTics) := by
  unfold popped
  rw [hpc, hcode]
  exact if_pos hb

/-- Nothing comes off the queue in any other step. -/
theorem popped_nil (h : ∀ q b, s.pc = .call q → (s.jobs s.currJob).code = .schedFreezeToExecCommand b →
    ¬ (b = true ∨ s.freezeOnFrameBoundary = false)) : popped s = [] := by
  unfold popped
  split
  · rename_i q b hpc hcode
    exact if_neg (h q b hpc hcode)
  · rfl

/-- **No request is lost in a step, and none is served twice.** -/
theorem Stepped.account (h : Stepped rs s s') :
    (issued s rs ++ s.freezeTimes).Perm (popped s ++ s'.freezeTimes) := by
  have hquiet : ∀ q, s.pc = .find q → popped s = [] ∧ issued s rs = [] := by
    intro q hpc
    refine ⟨popped_nil fun p b hcall => ?_, if_neg ?_⟩
    · rw [hpc] at hcall
      cases hcall
    · unfold RunsCommands
      rw [hpc]
      exact id
  have hnone : ∀ q, s.pc = .call q → (s.jobs s.currJob).code ≠ .user → issued s rs = [] := by
    intro q hpc hcode
    refine if_neg ?_
    unfold RunsCommands
    rw [hpc]
    exact hcode
  cases h with
  | away hfind hcall h =>
    rw [popped_nil fun q b hpc => absurd hpc (hcall q), List.nil_append]
    exact h.requested.perm.symm
  | find q hpc h =>
    rw [(hquiet q hpc).1, (hquiet q hpc).2]
    cases h with
    | found _ h => rw [h.freezeTimes]
    | walked h => rw [h.freezeTimes]
  | call q hpc h =>
    cases h with
    | requested hcode h =>
      have hissued : issued s rs = rs.flatMap (Request.accepted s) := by
        refine if_pos ?_
        unfold RunsCommands
        rw [hpc]
        exact hcode
      rw [hissued, popped_nil, List.nil_append]
      · exact h.perm.symm
      · intro p b _ hb
        rw [hcode] at hb
        cases hb
    | served b hcode hb h =>
      rw [hnone q hpc (by rw [hcode]; nofun), popped_call hpc hcode hb, h.freezeTimes,
        List.takeWhile_append_dropWhile, List.nil_append]
    | advanced hcode h =>
      rw [hnone q hpc (by rw [hcode]; nofun), h.freezeTimes, popped_nil]
      intro p b _ hb
      rw [hcode] at hb
      cases hb
    | quiet hcode hnot h =>
      rw [hnone q hpc hcode, h.freezeTimes, popped_nil]
      intro p b _ hb hor
      obtain ⟨rfl, hon⟩ := hnot b hb
      rcases hor with hor | hoff
      · cases hor
      · rw [hon] at hoff
        cases hoff

/-- The ends of two frames: the one that is not before a tic of a frame is its end. -/
theorem FrameEnd.isLeast {s₀ : Executive} (hpos : 1 ≤ s₀.softwareFrameTics) {f t : Int} (hf : FrameEnd s₀ f)
    (hlow : f - s₀.softwareFrameTics < t) (hup : t ≤ f) : IsLeast {t' | FrameEnd s₀ t' ∧ t ≤ t'} f := by
  refine ⟨⟨hf, hup⟩, ?_⟩
  rintro t' ⟨⟨k', rfl⟩, hle⟩
  obtain ⟨k, rfl⟩ := hf
  by_contra hlt
  have hk : k' + 1 ≤ k := by
    by_contra hk
    have hmul : (k : Int) * s₀.softwareFrameTics ≤ k' * s₀.softwareFrameTics :=
      mul_le_mul_of_nonneg_right (by omega) (by omega)
    omega
  have hmul : ((k' + 1 : Nat) : Int) * s₀.softwareFrameTics ≤ k * s₀.softwareFrameTics :=
    mul_le_mul_of_nonneg_right (by exact_mod_cast hk) (by omega)
  push_cast at hmul
  rw [add_mul, one_mul] at hmul
  omega

/-- The end of the frame moves by a frame. -/
theorem Stepped.aligned {s₀ : Executive} (h : Stepped rs s s') (hframe : s.softwareFrameTics = s₀.softwareFrameTics)
    (hs : FrameEnd s₀ s.nextFrameCheckTics) : FrameEnd s₀ s'.nextFrameCheckTics := by
  have hsame : s'.nextFrameCheckTics = s.nextFrameCheckTics → FrameEnd s₀ s'.nextFrameCheckTics := by
    intro heq
    rw [heq]
    exact hs
  cases h with
  | away _ _ h => exact hsame h.requested.frameCheck
  | find q _ h =>
    cases h with
    | found _ h => exact hsame h.frameCheck
    | walked h =>
      have hcheck := h.frameCheck
      split at hcheck
      · obtain ⟨k, hk⟩ := hs
        refine ⟨k + 1, ?_⟩
        rw [hcheck, hk, hframe]
        push_cast
        ring
      · exact hsame hcheck
  | call _ _ h =>
    cases h with
    | requested _ h => exact hsame h.frameCheck
    | served _ _ _ h => exact hsame h.frameCheck
    | advanced _ h => exact hsame h.frameCheck
    | quiet _ _ h => exact hsame h.frameCheck

/-- **What comes off the queue is served in time.** -/
theorem Recorded.inTime_stepped {s₀ : Executive} {r : FreezeRun} (hr : Recorded e s₀ r)
    (h : Stepped rs r.exec s') {t : Int} (ht : t ∈ popped r.exec) :
    Service.InTime s₀ ⟨t, r.exec.timeTics, s'.execCommand⟩ := by
  have hs := hr.timely
  -- only the call of a job that serves requests takes any off the queue
  obtain ⟨q, b, hpc, hcode, hb, hserves⟩ : ∃ q b, r.exec.pc = .call q ∧
      (r.exec.jobs r.exec.currJob).code = .schedFreezeToExecCommand b ∧
      (b = true ∨ r.exec.freezeOnFrameBoundary = false) ∧ Serves r.exec s' := by
    have hnone : popped r.exec ≠ [] := List.ne_nil_of_mem ht
    by_contra hcon
    push Not at hcon
    refine hnone (popped_nil fun q b hpc hcode hb => ?_)
    cases h with
    | away _ hcall => exact hcall q hpc
    | find p hfind =>
      rw [hpc] at hfind
      cases hfind
    | call p _ h =>
      cases h with
      | requested hu =>
        rw [hcode] at hu
        cases hu
      | served b' hcode' hb' h => exact hcon q b' hpc hcode' hb' h
      | advanced ha =>
        rw [hcode] at ha
        cases ha
      | quiet _ hnot =>
        obtain ⟨rfl, hon⟩ := hnot b hcode
        rcases hb with hb | hoff
        · cases hb
        · rw [hon] at hoff
          cases hoff
  rw [popped_call hpc hcode hb] at ht
  have hle : t ≤ r.exec.timeTics := by
    have hp := List.mem_takeWhile_imp ht
    exact of_decide_eq_true hp
  have hmem : t ∈ r.exec.freezeTimes := (List.takeWhile_sublist _).subset ht
  refine ⟨hserves.command (List.ne_nil_of_mem ht), ?_⟩
  by_cases hon : r.exec.freezeOnFrameBoundary = true
  · -- the job is that of the end of frame, which is walked at the end of the frame
    rw [← hr.boundary, if_pos hon]
    have hb : b = true := by
      rcases hb with hb | hoff
      · exact hb
      · rw [hon] at hoff
        cases hoff
    rw [hb] at hcode
    have hq : q = .endOfFrame := by
      by_contra hq
      exact hs.jobs.frame_only q hq _ (hs.current q hpc) hcode
    rw [hq] at hpc
    have hplace := hs.place (Or.inr hpc)
    have hlow := (hs.boundary hon).pending t hmem
    have hpos := hs.jobs.frame_pos
    rw [hr.frame] at hlow hpos
    show IsLeast _ r.exec.timeTics
    rw [hplace]
    exact FrameEnd.isLeast hpos hr.aligned hlow (hplace ▸ hle)
  · rw [← hr.boundary, if_neg hon]
    have hlow := (hs.tic (Bool.not_eq_true _ ▸ hon)).pending t hmem
    show r.exec.timeTics = t
    omega

/-- Those that wait change places with those that have just been made. -/
theorem perm_append_swap (a b c : List Int) : ((a ++ b) ++ c).Perm (a ++ (c ++ b)) := by
  rw [List.append_assoc]
  exact List.perm_append_comm.append_left a

/-- **The step lemma** of a run with requests. -/
theorem Recorded.step {s₀ : Executive} {r : FreezeRun} (hr : Recorded e s₀ r) {i : FreezeEvent}
    (hfits : i.Fits r) : Recorded e s₀ (r.step i) := by
  cases i with
  | step rs n ret =>
    obtain ⟨hstep, htimely⟩ := hr.timely.stepped (n := n) hfits.1 hfits.2
    refine ⟨htimely, hstep.kept.boundary.trans hr.boundary, hstep.kept.frame.trans hr.frame,
      hstep.aligned hr.frame hr.aligned, ?_, ?_⟩
    · have haccount := hstep.account
      have hbefore := hr.account
      show (r.requested ++ issued r.exec rs).Perm
        ((r.served ++ (popped r.exec).map _).map Service.time ++ _)
      rw [List.map_append, List.map_map, show Service.time ∘ _ = id from rfl, List.map_id, List.append_assoc]
      have hmoved := (hbefore.append_right (issued r.exec rs)).trans (perm_append_swap _ _ _)
      exact hmoved.trans (haccount.append_left _)
    · intro x hx
      rcases List.mem_append.mp hx with hx | hx
      · exact hr.inTime x hx
      · obtain ⟨t, ht, rfl⟩ := List.mem_map.mp hx
        exact hr.inTime_stepped hstep ht
  | request q =>
    have hreq := requested_request (r := q) hfits
    refine ⟨hr.timely.request hfits, hreq.boundary.trans hr.boundary, hreq.frame.trans hr.frame, ?_, ?_, hr.inTime⟩
    · show FrameEnd s₀ (r.exec.applyCommand q.command).nextFrameCheckTics
      rw [hreq.frameCheck]
      exact hr.aligned
    · have hbefore := hr.account
      have hperm := hreq.perm
      show (r.requested ++ q.accepted r.exec).Perm (r.served.map Service.time ++ _)
      have hmoved := (hbefore.append_right (q.accepted r.exec)).trans (perm_append_swap _ _ _)
      exact hmoved.trans (hperm.symm.append_left _)

/-! ## Runs -/

theorem FreezeStarted.recorded {s : Executive} (h : FreezeStarted e s) :
    Recorded e s ⟨s, s.freezeTimes, []⟩ := by
  have hcall : ∀ q, s.pc ≠ .call q := by
    intro q
    rw [h.pc]
    nofun
  have hfind : ∀ q, s.pc ≠ .find q := by
    intro q
    rw [h.pc]
    nofun
  refine ⟨⟨h.jobs, h.order, h.inFrame, ?_, fun q hpc => absurd hpc (hcall q), ?_, ?_⟩, rfl, rfl, ⟨0, ?_⟩, ?_,
    fun x hx => (by cases hx)⟩
  · intro hpc
    rcases hpc with hpc | hpc
    · exact absurd hpc (hfind _)
    · exact absurd hpc (hcall _)
  · intro _
    exact ⟨h.toStarted.runInv, fun t ht => le_of_lt (h.later t ht), Or.inr (Or.inl h.later)⟩
  · intro _
    refine ⟨?_, fun hpc => absurd hpc (hfind _), fun hpc => absurd hpc (hcall _)⟩
    intro t ht
    have hlater := h.later t ht
    have hlow := h.inFrame.frame_le
    show s.nextFrameCheckTics - s.softwareFrameTics < t
    omega
  · rw [Nat.cast_zero, zero_mul, add_zero]
  · exact List.Perm.refl _

/-- **The jobs of the executive that serve requests**, and the jobs that others are: nothing waits. -/
structure Serving (e : JobId) (s : Executive) : Prop where
  freeze_code : (s.jobs s.freezeJob).code = .schedFreezeToExecCommand false
  freeze_enabled : (s.jobs s.freezeJob).disabled = false
  freeze_mem : s.freezeJob ∈ s.jobQueue.list
  frame_lt : e < s.numJobs
  frame_code : (s.jobs e).code = .schedFreezeToExecCommand true
  frame_enabled : (s.jobs e).disabled = false
  frame_mem : e ∈ s.endOfFrameQueue.list
  frame_only : ∀ q, q ≠ .endOfFrame → ∀ j ∈ (s.queue q).list,
    (s.jobs j).code ≠ .schedFreezeToExecCommand true
  times : s.freezeTimes = []
  next : (s.jobs s.freezeJob).nextTics = maxLongLong

/-- What the registration of a job changes. -/
theorem addJob_frame {id : Int} {j : JobData} (hth : s.threads = []) (hok : AddOk id s j) :
    (addJob id s j).jobs = Function.update s.jobs s.numJobs (s.newJob id j) ∧
      (addJob id s j).numJobs = s.numJobs + 1 ∧ (addJob id s j).freezeTimes = s.freezeTimes ∧
      ∀ q, (∀ k ∈ (s.queue q).list, k ∈ ((addJob id s j).queue q).list) ∧
        ∀ k ∈ ((addJob id s j).queue q).list, k ∈ (s.queue q).list ∨ k = s.numJobs := by
  rw [addJob_eq hth hok.className hok.thread]
  have hnew : ∀ q, ((withNewJob id s j).queue q) = s.queue q := by
    intro q
    cases q <;> rfl
  have hsame : ∀ q, (∀ k ∈ (s.queue q).list, k ∈ ((withNewJob id s j).queue q).list) ∧
      ∀ k ∈ ((withNewJob id s j).queue q).list, k ∈ (s.queue q).list ∨ k = s.numJobs := by
    intro q
    rw [hnew]
    exact ⟨fun k hk => hk, fun k hk => Or.inl hk⟩
  cases hr : s.queueRef (s.newJob id j) with
  | none => exact ⟨rfl, rfl, rfl, hsame⟩
  | some r =>
    dsimp only
    have hmod := modifyQueue_jobs (withNewJob id s j)
      (fun q => q.push (withNewJob id s j).jobs s.numJobs) r
    refine ⟨hmod.1, hmod.2, ?_, ?_⟩
    · rw [modifyQueue_eq (s := withNewJob id s j) hth]
      cases r.loopQueue with
      | none => rfl
      | some q => cases q <;> rfl
    · rw [modifyQueue_eq (s := withNewJob id s j) hth]
      cases r.loopQueue with
      | none => exact hsame
      | some q' =>
        dsimp only
        intro q
        rw [queue_setQueue]
        split
        · rename_i heq
          subst heq
          rw [hnew]
          refine ⟨fun k hk => mem_insertAt.mpr (Or.inr hk), fun k hk => ?_⟩
          rcases mem_insertAt.mp hk with rfl | hk
          · exact Or.inr rfl
          · exact Or.inl hk
        · exact hsame q

/-- A job of the user joins them. -/
theorem Serving.addJob {id : Int} {j : JobData} (h : Serving e s) (hwf : Wf s) (hok : AddOk id s j) :
    Serving e (addJob id s j) := by
  obtain ⟨hjobs, hnum, htimes, hlists⟩ := addJob_frame hwf.threads_nil hok
  have hrun := sameRun_addJob id s j
  have hold : ∀ k, k < s.numJobs → (Executive.addJob id s j).jobs k = s.jobs k := by
    intro k hk
    rw [hjobs]
    exact Function.update_of_ne (Nat.ne_of_lt hk) _ _
  constructor
  · rw [hrun.freezeJob, hold _ hwf.freeze_lt]
    exact h.freeze_code
  · rw [hrun.freezeJob, hold _ hwf.freeze_lt]
    exact h.freeze_enabled
  · rw [hrun.freezeJob]
    exact (hlists .scheduled).1 _ h.freeze_mem
  · rw [hnum]
    exact Nat.lt_succ_of_lt h.frame_lt
  · rw [hold _ h.frame_lt]
    exact h.frame_code
  · rw [hold _ h.frame_lt]
    exact h.frame_enabled
  · exact (hlists .endOfFrame).1 _ h.frame_mem
  · intro q hq k hk
    rcases (hlists q).2 k hk with hk | rfl
    · rw [hold _ (hwf.below q k hk)]
      exact h.frame_only q hq k hk
    · rw [hjobs, Function.update_self, newJob_code, hok.code]
      nofun
  · rw [htimes]
    exact h.times
  · rw [hrun.freezeJob, hold _ hwf.freeze_lt]
    exact h.next

/-- An object of the user is registered. -/
theorem Serving.addSimObject {a : JobId} {o : SimObject} (h : Serving e s) (hset : Settled .between a s)
    (hok : CommandOk s (.addSimObject o)) : Serving e (s.addSimObject o) := by
  have hjob : ∀ (id : Int) (s : Executive) (j : JobData), Settled .between a s ∧ Serving e s → AddOk id s j →
      Settled .between a (Executive.addJob id s j) ∧ Serving e (Executive.addJob id s j) :=
    fun id s j hs hj => ⟨addJob_settled hs.1 hj, hs.2.addJob hs.1.wf hj⟩
  have hboth : Settled .between a (s.addSimObject o) ∧ Serving e (s.addSimObject o) := by
    have hobject : ∀ s jobs, Settled .between a s ∧ Serving e s →
        Guarded (AddOk (s.numSimObjects + 1)) (Executive.addJob (s.numSimObjects + 1))
          { s with numSimObjects := s.numSimObjects + 1 } jobs →
        Settled .between a (s.addJobsToQueue jobs) ∧ Serving e (s.addJobsToQueue jobs) := by
      intro s jobs hs hjobs
      refine Guarded.invariant (hjob _) jobs _ ?_ hjobs
      have hserving : Serving e { s with numSimObjects := s.numSimObjects + 1 } := { hs.2 with }
      exact ⟨hs.1.of_fields { hs.1.wf with } rfl rfl rfl rfl rfl rfl, hserving⟩
    exact Guarded.invariant hobject _ s ⟨hset, h⟩ hok
  exact hboth.2

end Trick.Exec.Executive
