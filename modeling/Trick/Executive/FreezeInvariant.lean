/-
  The invariant of the freeze requests.

  Without the frame boundary a request is served at its tic: the clock is never advanced beyond the call
  time of the freeze job, and the walk over the tail of the queue comes to that job before the clock is
  advanced again (`Due`).  With it, the freeze job is called to no effect and its call time stays behind;
  then the clock may leave out tics, but no end of frame, and the requests of a frame are served there
  (`OnBoundary`).

  `Timely.stepped` is the step lemma, and `Timely.request` that of a request between two steps.
-/
import Trick.Executive.FreezeSteps

namespace Trick.Exec.Executive

open Trick.Lib

variable {e : JobId} {s s' : Executive}

/-! ## What holds between the steps -/

/-- **The walk over the tail comes to the freeze job**, and the clock is not advanced before. -/
structure Due (s : Executive) : Prop where
  pc : s.pc = .find .scheduled ∨ s.pc = .call .scheduled
  advanced : s.advanceSimTimeJob ∉ ahead s .scheduled
  not_adv : s.pc = .call .scheduled → s.currJob ≠ s.advanceSimTimeJob
  freeze : s.freezeJob ∈ ahead s .scheduled ∨ s.pc = .call .scheduled ∧ s.currJob = s.freezeJob

/-- **Without the frame boundary** the clock does not pass the tic of a request. -/
structure OnTic (s : Executive) : Prop where
  run : RunInv s
  pending : ∀ t ∈ s.freezeTimes, s.timeTics ≤ t
  due : s.pc = .terminated ∨ Later s ∨ Due s

/-- **With the frame boundary** the frame does not end without serving its requests. -/
structure OnBoundary (e : JobId) (s : Executive) : Prop where
  pending : ∀ t ∈ s.freezeTimes, s.nextFrameCheckTics - s.softwareFrameTics < t
  find : s.pc = .find .endOfFrame → e ∉ ahead s .endOfFrame → Later s
  call : s.pc = .call .endOfFrame → e ∉ ahead s .endOfFrame → s.currJob = e ∨ Later s

/-- **The executive between two steps.** -/
structure Timely (e : JobId) (s : Executive) : Prop where
  jobs : FreezeJobs e s
  order : InOrder s
  frame : InFrame s
  place : s.pc = .find .endOfFrame ∨ s.pc = .call .endOfFrame → s.timeTics = s.nextFrameCheckTics
  current : ∀ q, s.pc = .call q → s.currJob ∈ (s.queue q).list
  tic : s.freezeOnFrameBoundary = false → OnTic s
  boundary : s.freezeOnFrameBoundary = true → OnBoundary e s

/-! ## A request between two steps -/

/-- A new call time of the freeze job, which reschedules itself and stands in the tail. -/
theorem zones_setFreeze {P W Q V : List JobId} (hwf : Wf s) (hz : ZonesOf s P W Q V) (n : Int) :
    ZonesOf (s.setNextTics s.freezeJob n) P W Q V :=
  hz.update_system n hwf.freeze_system hwf.freeze_ne fun h => hz.freeze_tail (List.mem_append_left W h)

theorem located_setFreeze {m : Mode} (hwf : Wf s) (hl : Located s m) (n : Int) :
    Located (s.setNextTics s.freezeJob n) m := by
  cases m with
  | head =>
    obtain ⟨P, W, Q, hz, hcur⟩ := hl
    exact ⟨P, W, Q, zones_setFreeze hwf hz n, hcur⟩
  | tail =>
    obtain ⟨W, Q, V, hz, hcur⟩ := hl
    exact ⟨W, Q, V, zones_setFreeze hwf hz n, hcur⟩
  | between =>
    obtain ⟨W, Q, hz⟩ := hl
    exact ⟨W, Q, zones_setFreeze hwf hz n⟩

theorem doomed_setFreeze (hd : Doomed s) {n : Int} (hn : s.timeLastPassTics < n) :
    Doomed (s.setNextTics s.freezeJob n) := by
  obtain ⟨hterm, htime, W, Q, hlist, hcur, hW, hQ⟩ := hd
  refine ⟨hterm, htime, W, Q, hlist, hcur, ?_, ?_⟩
  · intro j hj hs
    rw [setNextTics_jobs] at hs ⊢
    show s.timeLastPassTics < _
    split
    · exact hn
    · rename_i hne
      rw [if_neg hne] at hs
      exact hW j hj hs
  · intro j hj
    rw [setNextTics_jobs]
    show s.timeLastPassTics < _
    split
    · exact hn
    · exact hQ j hj

theorem runInv_setFreeze (h : RunInv s) {n : Int} (hn : s.timeLastPassTics < n) :
    RunInv (s.setNextTics s.freezeJob n) := by
  rcases h with hterm | ⟨hwf, hpass⟩
  · exact Or.inl hterm
  right
  have hloc : ∀ {m : Mode}, Located s m → Located (s.setNextTics s.freezeJob n) m :=
    fun hl => located_setFreeze hwf hl n
  have hdoom : Doomed s → Doomed (s.setNextTics s.freezeJob n) := fun hd => doomed_setFreeze hd hn
  refine ⟨?_, ?_⟩
  · refine hwf.updateJob _ _ rfl rfl rfl fun hs => ?_
    have hsystem := hwf.freeze_system
    rw [show (s.jobs s.freezeJob).systemJobClass = false from hs] at hsystem
    cases hsystem
  have hpc : (s.setNextTics s.freezeJob n).pc = s.pc := rfl
  unfold PassInv at hpass ⊢
  rw [hpc]
  cases hs : s.pc with
  | find q =>
    rw [hs] at hpass
    cases q with
    | scheduled =>
      rcases hpass with ⟨hl, ht⟩ | ⟨hl, hlive⟩ | hd
      · exact Or.inl ⟨hloc hl, ht⟩
      · exact Or.inr (Or.inl ⟨hloc hl, hlive⟩)
      · exact Or.inr (Or.inr (hdoom hd))
    | _ => exact ⟨hloc hpass.1, hpass.2⟩
  | call q =>
    rw [hs] at hpass
    cases q with
    | scheduled =>
      rcases hpass with ⟨hl, ht⟩ | ⟨hcurr, ht, P, Q, hz, hcur⟩ | ⟨hl, hlive⟩
      · exact Or.inl ⟨hloc hl, ht⟩
      · exact Or.inr (Or.inl ⟨hcurr, ht, P, Q, zones_setFreeze hwf hz n, hcur⟩)
      · exact Or.inr (Or.inr ⟨hloc hl, hlive⟩)
    | _ => exact ⟨hloc hpass.1, hpass.2⟩
  | passEnd =>
    rw [hs] at hpass
    rcases hpass with ⟨hl, hlive⟩ | hd
    · exact Or.inl ⟨hloc hl, hlive⟩
    · exact Or.inr (hdoom hd)
  | _ =>
    rw [hs] at hpass
    exact ⟨hloc hpass.1, hpass.2⟩

/-- The requests and the pending command are no matter of the loop. -/
theorem runInv_commands (h : RunInv s) (l : List Int) (b : Bool) (c : SimCommand) :
    RunInv { s with freezeTimes := l, asyncFreezeCommand := b, execCommand := c } := by
  rcases h with hterm | ⟨hwf, hpass⟩
  · exact Or.inl hterm
  · exact Or.inr ⟨{ hwf with }, hpass⟩

/-- **A request between two steps** does not disturb the loop. -/
theorem runInv_request (h : RunInv s) (hframe : InFrame s) (r : Request) :
    RunInv (s.applyCommand r.command) := by
  cases r with
  | freeze => exact runInv_commands h s.freezeTimes true s.execCommand
  | setExecCommand c => exact runInv_commands h s.freezeTimes s.asyncFreezeCommand c
  | freezeAt t =>
    show RunInv (s.freezeAt t)
    unfold freezeAt
    dsimp only
    have hqueued := runInv_commands h (s.freezeTimes.orderedInsert (· ≤ ·) (toTics s.timeTicValue t))
      s.asyncFreezeCommand s.execCommand
    split
    · rename_i hnew
      split
      · refine runInv_setFreeze hqueued ?_
        show s.timeLastPassTics < _
        have hlast := hframe.last_le
        omega
      · exact hqueued
    · exact h

/-! ## What a step keeps -/

variable {rs : List Request}

theorem Called.kept (h : Called rs s s') : Kept s s' := by
  cases h with
  | requested _ h => exact h.toKept
  | served _ _ _ h => exact h.toKept
  | advanced _ h => exact h.toKept
  | quiet _ _ h => exact h.toKept

theorem Stepped.kept (h : Stepped rs s s') : Kept s s' := by
  cases h with
  | away _ _ h => exact h.requested.toKept
  | find _ _ h =>
    cases h with
    | found _ h => exact h.toKept
    | walked h => exact h.toKept
  | call _ _ h => exact h.kept

theorem InOrder.walked {q : LoopQueue} (h : InOrder s) (hw : Walked q s s') : InOrder s' := by
  constructor
  · rw [hw.freezeTimes]
    exact h.sorted
  · rw [hw.freezeTimes]
    exact h.le_max
  · rw [hw.freezeJob, hw.next, hw.freezeTimes]
    exact h.next

theorem InOrder.serves (h : InOrder s) (hs : Serves s s') : InOrder s' := by
  have hsub : s'.freezeTimes.Sublist s.freezeTimes := by
    rw [hs.freezeTimes]
    exact List.dropWhile_sublist _
  constructor
  · exact h.sorted.sublist hsub
  · exact fun t ht => h.le_max t (hsub.subset ht)
  · rw [hs.freezeJob]
    exact hs.next

theorem InOrder.advanced (h : InOrder s) (ha : Advanced s s') : InOrder s' := by
  constructor
  · rw [ha.freezeTimes]
    exact h.sorted
  · rw [ha.freezeTimes]
    exact h.le_max
  · rw [ha.freezeJob, ha.next, ha.freezeTimes]
    exact h.next

/-- **The requests stay in order**, and the freeze job is due at the first one. -/
theorem InOrder.stepped (hs : InOrder s) (h : Stepped rs s s') : InOrder s' := by
  cases h with
  | away _ _ h => exact h.requested.inOrder hs
  | find _ _ h =>
    cases h with
    | found _ h => exact hs.quiet h
    | walked h => exact hs.walked h
  | call _ _ h =>
    cases h with
    | requested _ h => exact h.inOrder hs
    | served _ _ _ h => exact hs.serves h
    | advanced _ h => exact hs.advanced h
    | quiet _ _ h => exact hs.quiet h

/-- Once the requests up to now have been served, all that wait are for later. -/
theorem InOrder.later_of_serves (h : InOrder s) (hs : Serves s s') : Later s' := by
  intro t ht
  rw [hs.freezeTimes] at ht
  rw [hs.timeTics]
  have hsorted : (s.freezeTimes.dropWhile (· ≤ s.timeTics)).Pairwise (· ≤ ·) :=
    h.sorted.sublist (List.dropWhile_sublist _)
  cases hl : s.freezeTimes.dropWhile (· ≤ s.timeTics) with
  | nil =>
    rw [hl] at ht
    cases ht
  | cons x l =>
    -- the first one that is left is for later, and the others are not before it
    have hne : s.freezeTimes.dropWhile (· ≤ s.timeTics) ≠ [] := by
      rw [hl]
      exact List.cons_ne_nil x l
    have hlater : s.timeTics < x := by
      have hhead := List.head_dropWhile_not (fun t => decide (t ≤ s.timeTics)) hne
      simp only [hl, List.head_cons] at hhead
      exact not_le.mp (of_decide_eq_false hhead)
    rw [hl] at ht hsorted
    rcases List.mem_cons.mp ht with rfl | ht
    · exact hlater
    · exact lt_of_lt_of_le hlater (List.rel_of_pairwise_cons hsorted ht)

/-- The clock is not advanced beyond the frame, nor moved back. -/
theorem InFrame.advanced (h : InFrame s) (ha : Advanced s s') (hth : s.threads = []) : InFrame s' := by
  obtain ⟨hnf, hnt, -, -⟩ := nextTimeTics_le hth
  have hge : s.timeTics ≤ s.nextTimeTics := by
    have hframe := h.le_frame
    have hterm := h.le_terminate
    rw [nextTimeTics_eq hth]
    dsimp only
    obtain ⟨-, -, -, hmain⟩ := guardedTime_spec s.timeTics (s.jobQueue.getNextJobCallTime s.jobs)
      s.nextFrameCheckTics
    obtain ⟨-, -, -, hinput⟩ := guardedTime_spec s.timeTics (s.inputProcessorRunQueue.getNextJobCallTime s.jobs)
      (guardedTime s.timeTics (s.jobQueue.getNextJobCallTime s.jobs) s.nextFrameCheckTics)
    split
    · exact hterm
    · omega
  have hlow := h.frame_le
  constructor
  · rw [ha.frameCheck, ha.frame, ha.timeTics]
    omega
  · rw [ha.frameCheck, ha.timeTics]
    exact hnf
  · rw [ha.timeLast, ha.timeTics]
    exact hge
  · rw [ha.timeTics, ha.terminate]
    exact hnt

/-- **The clock stays within the frame.** -/
theorem Timely.frame_stepped (hs : Timely e s) (h : Stepped rs s s') : InFrame s' := by
  have hframe := hs.frame
  cases h with
  | away _ _ h => exact hframe.congr h.requested.toKept h.requested.timeTics h.requested.timeLast h.requested.frameCheck
  | find q hpc h =>
    cases h with
    | found _ h => exact hframe.congr h.toKept h.timeTics h.timeLast h.frameCheck
    | walked h =>
      by_cases hq : q = .endOfFrame
      · -- the frame ends, and the next one begins here
        subst hq
        have hplace := hs.place (Or.inl hpc)
        have hcheck := h.frameCheck
        rw [if_pos rfl] at hcheck
        have hpos := hs.jobs.frame_pos
        have hlast := hframe.last_le
        have hterm := hframe.le_terminate
        constructor
        · rw [hcheck, h.frame, h.timeTics]
          omega
        · rw [hcheck, h.timeTics]
          omega
        · rw [h.timeLast, h.timeTics]
          exact hlast
        · rw [h.timeTics, h.terminate]
          exact hterm
      · have hcheck := h.frameCheck
        rw [if_neg hq] at hcheck
        exact hframe.congr h.toKept h.timeTics h.timeLast hcheck
  | call _ _ h =>
    cases h with
    | requested _ h => exact hframe.congr h.toKept h.timeTics h.timeLast h.frameCheck
    | served _ _ _ h => exact hframe.congr h.toKept h.timeTics h.timeLast h.frameCheck
    | advanced _ h => exact hframe.advanced h hs.jobs.threads_nil
    | quiet _ _ h => exact hframe.congr h.toKept h.timeTics h.timeLast h.frameCheck

/-- The advancing job is called from the scheduled queue only. -/
theorem Timely.advancing (hs : Timely e s) {q : LoopQueue} (hpc : s.pc = .call q)
    (hcode : (s.jobs s.currJob).code = .advanceSimTime) : q = .scheduled ∧ s.currJob = s.advanceSimTimeJob := by
  have hadv := hs.jobs.adv_only s.currJob hcode
  have hmem := hs.current q hpc
  refine ⟨?_, hadv⟩
  by_contra hq
  rw [hadv] at hmem
  exact hs.jobs.adv_place q hq hmem

/-- The queue of the end of frame is walked at the end of the frame. -/
theorem Timely.place_stepped (hs : Timely e s) (h : Stepped rs s s') :
    s'.pc = .find .endOfFrame ∨ s'.pc = .call .endOfFrame → s'.timeTics = s'.nextFrameCheckTics := by
  intro hpc'
  cases h with
  | away _ _ h =>
    rcases hpc' with hpc' | hpc'
    · exact (h.frame hpc').1
    · exact absurd hpc' (h.not_call _)
  | find q hpc h =>
    cases h with
    | found _ h hcall =>
      rw [hcall] at hpc'
      obtain rfl : q = .endOfFrame := by
        rcases hpc' with hpc' | hpc'
        · cases hpc'
        · exact Pc.call.inj hpc'
      rw [h.timeTics, h.frameCheck]
      exact hs.place (Or.inl hpc)
    | walked h hafter =>
      rw [hafter] at hpc'
      cases q <;> rcases hpc' with hpc' | hpc' <;> cases hpc'
  | call q hpc h hfind =>
    obtain rfl : q = .endOfFrame := by
      rcases hfind with hfind | hfind <;> rw [hfind] at hpc'
      · rcases hpc' with hpc' | hpc' <;> cases hpc'
      · rcases hpc' with hpc' | hpc'
        · exact Pc.find.inj hpc'
        · cases hpc'
    have hplace := hs.place (Or.inr hpc)
    cases h with
    | requested _ h =>
      rw [h.timeTics, h.frameCheck]
      exact hplace
    | served _ _ _ h =>
      rw [h.timeTics, h.frameCheck]
      exact hplace
    | advanced hcode h => exact absurd (hs.advancing hpc hcode).1 (by decide)
    | quiet _ _ h =>
      rw [h.timeTics, h.frameCheck]
      exact hplace

/-- The job that is called stands in the queue that is walked. -/
theorem Stepped.current (h : Stepped rs s s') {q : LoopQueue} (hpc' : s'.pc = .call q) :
    s'.currJob ∈ (s'.queue q).list := by
  cases h with
  | away _ _ h => exact absurd hpc' (h.not_call q)
  | find p _ h =>
    cases h with
    | found pre h hcall hahead =>
      rw [hcall] at hpc'
      obtain rfl : p = q := Pc.call.inj hpc'
      rw [h.list]
      have hmem : s'.currJob ∈ ahead s p := by
        rw [hahead]
        exact List.mem_append_right pre List.mem_cons_self
      exact List.mem_of_mem_drop hmem
    | walked h hafter =>
      rw [hafter] at hpc'
      cases p <;> cases hpc'
  | call p _ h hfind =>
    rcases hfind with hfind | hfind <;> rw [hfind] at hpc' <;> cases hpc'

/-! ## Freezing at the end of the frame -/

theorem Later.of_times (h : Later s) (htimes : s'.freezeTimes = s.freezeTimes)
    (htime : s'.timeTics = s.timeTics) : Later s' := by
  intro t ht
  rw [htimes] at ht
  rw [htime]
  exact h t ht

/-- The job of the end of frame is not skipped. -/
theorem FreezeJobs.not_skipped (h : FreezeJobs e s) : ¬ Skipped s .endOfFrame e := by
  unfold Skipped
  rw [if_neg (by decide), h.frame_enabled]
  exact Bool.false_ne_true

/-- **A step with the frame boundary.** -/
theorem Timely.boundary_stepped (hs : Timely e s) (hon : s.freezeOnFrameBoundary = true) (h : Stepped rs s s') :
    OnBoundary e s' := by
  obtain ⟨hpending, hfind, hcall⟩ := hs.boundary hon
  have hlow := hs.frame.frame_le
  -- the requests that are made are for later, so for after the end of the last frame
  have hreq : ∀ {new : List Int}, Requested new s s' →
      ∀ t ∈ s'.freezeTimes, s'.nextFrameCheckTics - s'.softwareFrameTics < t := by
    intro new h t ht
    rw [h.frameCheck, h.frame]
    rcases List.mem_append.mp (h.perm.mem_iff.mp ht) with ht | ht
    · have hlater := h.later t ht
      omega
    · exact hpending t ht
  have hsub : Kept s s' → s'.nextFrameCheckTics = s.nextFrameCheckTics →
      (∀ t ∈ s'.freezeTimes, t ∈ s.freezeTimes) →
      ∀ t ∈ s'.freezeTimes, s'.nextFrameCheckTics - s'.softwareFrameTics < t := by
    intro hk hcheck hmem t ht
    rw [hcheck, hk.frame]
    exact hpending t (hmem t ht)
  cases h with
  | away _ _ h =>
    refine ⟨hreq h.requested, ?_, fun hpc => absurd hpc (h.not_call _)⟩
    intro hpc hnot
    have hzero := (h.frame hpc).2
    refine absurd (?_ : e ∈ ahead s' .endOfFrame) hnot
    unfold ahead
    show e ∈ s'.endOfFrameQueue.list.drop s'.endOfFrameQueue.currIndex
    rw [hzero, List.drop_zero]
    exact (hs.jobs.kept h.requested.toKept).frame_mem
  | find q hpc h =>
    cases h with
    | found pre h hcallpc hahead hpre =>
      refine ⟨hreq h.requested, ?_, ?_⟩
      · intro hpc'
        rw [hcallpc] at hpc'
        cases hpc'
      · intro hpc' hnot
        rw [hcallpc] at hpc'
        obtain rfl : q = .endOfFrame := Pc.call.inj hpc'
        by_cases hmem : e ∈ ahead s .endOfFrame
        · -- the walk has come to the job, since it has not skipped it
          left
          rw [hahead] at hmem
          rcases List.mem_append.mp hmem with hmem | hmem
          · exact absurd (hpre e hmem) hs.jobs.not_skipped
          · rcases List.mem_cons.mp hmem with hmem | hmem
            · exact hmem.symm
            · exact absurd hmem hnot
        · exact Or.inr ((hfind hpc hmem).of_times h.freezeTimes h.timeTics)
    | walked h hafter hall =>
      have hne : s'.pc ≠ .find .endOfFrame ∧ s'.pc ≠ .call .endOfFrame := by
        rw [hafter]
        cases q <;> exact ⟨nofun, nofun⟩
      refine ⟨?_, fun hpc' => absurd hpc' hne.1, fun hpc' => absurd hpc' hne.2⟩
      by_cases hq : q = .endOfFrame
      · -- the job has been called, so nothing is left for this frame
        subst hq
        have hlater : Later s := hfind hpc fun hmem => hs.jobs.not_skipped (hall e hmem)
        have hplace := hs.place (Or.inl hpc)
        have hcheck := h.frameCheck
        rw [if_pos rfl] at hcheck
        intro t ht
        rw [h.freezeTimes] at ht
        have ht := hlater t ht
        rw [hcheck, h.frame]
        omega
      · have hcheck := h.frameCheck
        rw [if_neg hq] at hcheck
        exact hsub h.toKept hcheck fun t ht => h.freezeTimes ▸ ht
  | call q hpc h hfindpc hahead =>
    have hnotcall : s'.pc ≠ .call .endOfFrame := by
      rcases hfindpc with hfindpc | hfindpc <;> rw [hfindpc] <;> nofun
    have hq : s'.pc = .find .endOfFrame → q = .endOfFrame := by
      intro hpc'
      rcases hfindpc with hfindpc | hfindpc <;> rw [hfindpc] at hpc'
      · cases hpc'
      · exact Pc.find.inj hpc'
    -- at the end of the frame, the job that was called was that job, or there is nothing to serve
    have hdone : s'.pc = .find .endOfFrame → e ∉ ahead s' .endOfFrame → s.currJob = e ∨ Later s := by
      intro hpc' hnot
      rw [hahead] at hnot
      obtain rfl := hq hpc'
      exact hcall hpc hnot
    have hserver : s.currJob = e → (s.jobs s.currJob).code = .schedFreezeToExecCommand true := by
      intro heq
      rw [heq]
      exact hs.jobs.frame_code
    cases h with
    | requested hcode h =>
      refine ⟨hreq h, ?_, fun hpc' => absurd hpc' hnotcall⟩
      intro hpc' hnot
      rcases hdone hpc' hnot with heq | hlater
      · rw [hserver heq] at hcode
        cases hcode
      · exact h.later_of_later hlater
    | served b hcode hb h =>
      refine ⟨hsub h.toKept h.frameCheck ?_, fun _ _ => hs.order.later_of_serves h,
        fun hpc' => absurd hpc' hnotcall⟩
      intro t ht
      rw [h.freezeTimes] at ht
      exact (List.dropWhile_sublist _).subset ht
    | advanced hcode h =>
      refine ⟨hsub h.toKept h.frameCheck fun t ht => h.freezeTimes ▸ ht, ?_, fun hpc' => absurd hpc' hnotcall⟩
      intro hpc'
      have hsched := (hs.advancing hpc hcode).1
      rw [hq hpc'] at hsched
      cases hsched
    | quiet hcode hnot h =>
      refine ⟨hreq h.requested, ?_, fun hpc' => absurd hpc' hnotcall⟩
      intro hpc' hahead'
      rcases hdone hpc' hahead' with heq | hlater
      · cases (hnot true (hserver heq)).1
      · exact hlater.of_times h.freezeTimes h.timeTics

/-! ## Freezing at the tic -/

/-- The freeze job is due later when all requests are for later. -/
theorem InOrder.lt_next (h : InOrder s) (hl : Later s) (hmax : s.timeTics < maxLongLong) :
    s.timeTics < (s.jobs s.freezeJob).nextTics := by
  rw [h.next]
  cases htimes : s.freezeTimes with
  | nil => exact hmax
  | cons x l => exact hl x (by rw [htimes]; exact List.mem_cons_self)

/-- **The freeze job is due now** when a request is. -/
theorem OnTic.next_eq (h : OnTic s) (ho : InOrder s) (hnot : ¬ Later s) :
    (s.jobs s.freezeJob).nextTics = s.timeTics := by
  unfold Later at hnot
  push Not at hnot
  obtain ⟨t, ht, hle⟩ := hnot
  have hup := ho.next_le ht
  have hlow : s.timeTics ≤ (s.jobs s.freezeJob).nextTics := by
    rw [ho.next]
    cases htimes : s.freezeTimes with
    | nil =>
      rw [htimes] at ht
      cases ht
    | cons x l => exact h.pending x (by rw [htimes]; exact List.mem_cons_self)
  omega

/-- Then the walk over the scheduled queue does not skip it. -/
theorem OnTic.not_skipped (h : OnTic s) (ho : InOrder s) (hj : FreezeJobs e s) (hnot : ¬ Later s) :
    ¬ Skipped s .scheduled s.freezeJob := by
  unfold Skipped
  rw [if_pos (Or.inr rfl), not_not]
  exact ⟨h.next_eq ho hnot, hj.freeze_enabled⟩

theorem commandsOk_requests (rs : List Request) :
    ∀ s : Executive, CommandsOk s (rs.map Request.command) := by
  induction rs with
  | nil => exact fun _ => trivial
  | cons r rs ih =>
    intro s
    refine ⟨?_, ih _⟩
    cases r <;> trivial

/-- When the advancing job is called, all requests are for later. -/
theorem OnTic.later (h : OnTic s) {q : LoopQueue} (hpc : s.pc = .call q)
    (hadv : s.currJob = s.advanceSimTimeJob) : Later s := by
  rcases h.due with hterm | hlater | hdue
  · rw [hpc] at hterm
    cases hterm
  · exact hlater
  · rcases hdue.pc with hfind | hcall
    · rw [hpc] at hfind
      cases hfind
    · exact absurd hadv (hdue.not_adv hcall)

/-- **The condition on a step** is met by a job that makes requests only. -/
theorem Timely.stepOk (hs : Timely e s) (h : OnTic s) (htail : TailRescheduled s) (n : Option Int) (ret : Int) :
    StepOk s (jobCall rs n ret) := by
  have hcommands := commandsOk_requests rs
  unfold StepOk
  split
  · exact hcommands s
  · exact hcommands s
  · exact hcommands s
  · rename_i q hpc
    split
    · exact hcommands _
    · rename_i hcode
      obtain ⟨rfl, hadv⟩ := hs.advancing hpc hcode
      have hmax : s.timeTics < maxLongLong := by
        rcases h.run with hterm | ⟨hwf, -⟩
        · rw [hpc] at hterm
          cases hterm
        · exact hwf.time_lt
      intro j hj hsystem
      by_cases hfreeze : j = s.freezeJob
      · rw [hfreeze]
        exact hs.order.lt_next (h.later hpc hadv) hmax
      · exact htail ⟨hpc, hcode⟩ j hj hfreeze hsystem
    · trivial
  · trivial

/-- **The clock is not advanced beyond the freeze job**, which the walk over the tail comes to. -/
theorem advance_le_freeze (hj : FreezeJobs e s) (hrun : RunInv s) (hpc : s.pc = .call .scheduled)
    (hadv : s.currJob = s.advanceSimTimeJob)
    (hlate : ∀ j ∈ s.jobQueue.list.drop s.jobQueue.currIndex, (s.jobs j).systemJobClass = true →
      s.timeTics < (s.jobs j).nextTics) :
    s.nextTimeTics ≤ (s.jobs s.freezeJob).nextTics ∧ s.advanceSimTimeJob ∉ ahead s .scheduled ∧
      s.freezeJob ∈ ahead s .scheduled := by
  obtain ⟨hwf, hpass⟩ : Wf s ∧ PassInv s := by
    rcases hrun with hterm | hrun
    · rw [hpc] at hterm
      cases hterm
    · exact hrun
  unfold PassInv at hpass
  rw [hpc] at hpass
  obtain ⟨-, -, P, Q, hz, hcur⟩ : Advancing s := by
    rcases hpass with ⟨-, -, hne⟩ | hadvancing | ⟨-, -, hne⟩
    · exact absurd hadv hne
    · exact hadvancing
    · exact absurd hadv hne
  have hahead : ahead s .scheduled = Q := drop_advancing hz hcur
  have hmem : s.freezeJob ∈ Q := by
    rcases (hz.mem_list s.freezeJob).mp hj.freeze_mem with hP | hW | heq | hQ | hV
    · exact absurd (List.mem_append_left [] hP) hz.freeze_tail
    · cases hW
    · exact absurd heq hj.freeze_ne
    · exact hQ
    · cases hV
  rw [drop_advancing hz hcur] at hlate
  obtain ⟨hgt, -, hQ⟩ := getNextJobCallTime_bounds hz hcur hlate
  have hle := (nextTimeTics_le hj.threads_nil).2.2.1 hgt
  rw [hahead]
  refine ⟨hle.trans (hQ _ hmem).2, ?_, hmem⟩
  have hnot := (hz.adv_notMem (hj.nodup .scheduled)).2
  rw [List.append_nil] at hnot
  exact hnot

/-- **A step without the frame boundary.** -/
theorem Timely.tic_stepped (hs : Timely e s) (hoff : s.freezeOnFrameBoundary = false) {n : Option Int} {ret : Int}
    (htail : TailRescheduled s) (h : Stepped rs s (s.step (jobCall rs n ret))) :
    OnTic (s.step (jobCall rs n ret)) := by
  have htic := hs.tic hoff
  have hok : StepOk s (jobCall rs n ret) := hs.stepOk htic htail n ret
  have hrun := step_runInv htic.run hok
  have hstepOk := hok
  generalize s.step (jobCall rs n ret) = s' at h hrun
  obtain ⟨-, hpending, hdue⟩ := htic
  have hreq : ∀ {new : List Int}, Requested new s s' → ∀ t ∈ s'.freezeTimes, s'.timeTics ≤ t := by
    intro new h t ht
    rw [h.timeTics]
    rcases List.mem_append.mp (h.perm.mem_iff.mp ht) with ht | ht
    · exact le_of_lt (h.later t ht)
    · exact hpending t ht
  cases h with
  | away hfind hcall h hterm =>
    refine ⟨hrun, hreq h.requested, ?_⟩
    rcases hdue with hpc | hlater | hdue
    · exact Or.inl (hterm hpc)
    · exact Or.inr (Or.inl (h.requested.later_of_later hlater))
    · rcases hdue.pc with hpc | hpc
      · exact absurd hpc (hfind _)
      · exact absurd hpc (hcall _)
  | find q hpc h =>
    have hdue : Later s ∨ Due s := by
      rcases hdue with hterm | hdue
      · rw [hpc] at hterm
        cases hterm
      · exact hdue
    -- while the freeze job is ahead it is not skipped, unless there is nothing to serve now
    have hfreeze : ¬ Later s → q = .scheduled ∧ Due s ∧ s.freezeJob ∈ ahead s q := by
      intro hnot
      have hdue := hdue.resolve_left hnot
      rcases hdue.pc with hfind | hcall
      · rw [hpc] at hfind
        obtain rfl := Pc.find.inj hfind
        refine ⟨rfl, hdue, ?_⟩
        rcases hdue.freeze with hmem | ⟨hcall, -⟩
        · exact hmem
        · rw [hpc] at hcall
          cases hcall
      · rw [hpc] at hcall
        cases hcall
    cases h with
    | found pre h hcallpc hahead hpre =>
      refine ⟨hrun, hreq h.requested, Or.inr ?_⟩
      by_cases hlater : Later s
      · exact Or.inl (hlater.of_times h.freezeTimes h.timeTics)
      right
      obtain ⟨rfl, hdue, hmem⟩ := hfreeze hlater
      have hadvanced := hdue.advanced
      rw [hahead] at hmem hadvanced
      rw [List.mem_append, List.mem_cons, not_or, not_or] at hadvanced
      refine ⟨Or.inr hcallpc, ?_, fun _ => ?_, ?_⟩
      · rw [h.adv]
        exact hadvanced.2.2
      · rw [h.adv]
        exact fun heq => hadvanced.2.1 heq.symm
      · rw [h.freezeJob]
        rcases List.mem_append.mp hmem with hmem | hmem
        · exact absurd (hpre _ hmem) ((hs.tic hoff).not_skipped hs.order hs.jobs hlater)
        · rcases List.mem_cons.mp hmem with hmem | hmem
          · exact Or.inr ⟨hcallpc, hmem.symm⟩
          · exact Or.inl hmem
    | walked h hafter hall =>
      refine ⟨hrun, ?_, Or.inr (Or.inl ?_)⟩
      · intro t ht
        rw [h.freezeTimes] at ht
        rw [h.timeTics]
        exact hpending t ht
      · by_cases hlater : Later s
        · exact hlater.of_times h.freezeTimes h.timeTics
        · obtain ⟨rfl, -, hmem⟩ := hfreeze hlater
          exact absurd (hall _ hmem) ((hs.tic hoff).not_skipped hs.order hs.jobs hlater)
  | call q hpc h hfindpc hahead =>
    have hdue : Later s ∨ Due s := by
      rcases hdue with hterm | hdue
      · rw [hpc] at hterm
        cases hterm
      · exact hdue
    -- a job other than the freeze job leaves the freeze job ahead
    have hkeep : Kept s s' → s.currJob ≠ s.freezeJob → Due s → s'.pc = .terminated ∨ Due s' := by
      intro hk hne hdue
      have hq : q = .scheduled := by
        rcases hdue.pc with hfind | hcall
        · rw [hpc] at hfind
          cases hfind
        · rw [hpc] at hcall
          exact Pc.call.inj hcall
      rw [hq] at hfindpc
      rcases hfindpc with hterm | hfindpc
      · exact Or.inl hterm
      right
      refine ⟨Or.inl hfindpc, ?_, ?_, Or.inl ?_⟩
      · rw [hahead, hk.adv]
        exact hdue.advanced
      · intro hcall
        rw [hfindpc] at hcall
        cases hcall
      · rw [hahead, hk.freezeJob]
        rcases hdue.freeze with hmem | ⟨-, heq⟩
        · exact hmem
        · exact absurd heq hne
    have hserver : s.currJob = s.freezeJob → (s.jobs s.currJob).code = .schedFreezeToExecCommand false := by
      intro heq
      rw [heq]
      exact hs.jobs.freeze_code
    have hstay : Kept s s' → s.currJob ≠ s.freezeJob → (Later s → Later s') →
        s'.pc = .terminated ∨ Later s' ∨ Due s' := by
      intro hk hne hlater'
      rcases hdue with hlater | hdue
      · exact Or.inr (Or.inl (hlater' hlater))
      · rcases hkeep hk hne hdue with hterm | hdue
        · exact Or.inl hterm
        · exact Or.inr (Or.inr hdue)
    cases h with
    | requested hcode h =>
      refine ⟨hrun, hreq h, hstay h.toKept ?_ h.later_of_later⟩
      intro heq
      rw [hserver heq] at hcode
      cases hcode
    | served b hcode hb h =>
      refine ⟨hrun, ?_, Or.inr (Or.inl (hs.order.later_of_serves h))⟩
      exact fun t ht => le_of_lt (hs.order.later_of_serves h t ht)
    | advanced hcode h =>
      obtain ⟨rfl, hadv⟩ := hs.advancing hpc hcode
      have hlate : ∀ j ∈ s.jobQueue.list.drop s.jobQueue.currIndex, (s.jobs j).systemJobClass = true →
          s.timeTics < (s.jobs j).nextTics := by
        unfold StepOk at hstepOk
        rw [hpc] at hstepOk
        simpa only [hcode] using hstepOk
      obtain ⟨hle, hadvanced, hmem⟩ := advance_le_freeze hs.jobs (hs.tic hoff).run hpc hadv hlate
      refine ⟨hrun, ?_, ?_⟩
      · intro t ht
        rw [h.freezeTimes] at ht
        rw [h.timeTics]
        exact hle.trans (hs.order.next_le ht)
      · rcases hfindpc with hterm | hfindpc
        · exact Or.inl hterm
        refine Or.inr (Or.inr ⟨Or.inl hfindpc, ?_, ?_, Or.inl ?_⟩)
        · rw [hahead, h.adv]
          exact hadvanced
        · intro hcall
          rw [hfindpc] at hcall
          cases hcall
        · rw [hahead, h.freezeJob]
          exact hmem
    | quiet hcode hnot h =>
      refine ⟨hrun, hreq h.requested, hstay h.toKept ?_ fun hlater => hlater.of_times h.freezeTimes h.timeTics⟩
      intro heq
      have hon := (hnot false (hserver heq)).2
      rw [hoff] at hon
      cases hon

/-! ## The step lemmas -/

/-- **The step lemma.** -/
theorem Timely.stepped (hs : Timely e s) {n : Option Int} {ret : Int} (hfits : ∀ r ∈ rs, r.Fits s)
    (htail : TailRescheduled s) :
    Stepped rs s (s.step (jobCall rs n ret)) ∧ Timely e (s.step (jobCall rs n ret)) := by
  have h := stepped_step hs.jobs hs.frame n ret hfits
  refine ⟨h, hs.jobs.kept h.kept, hs.order.stepped h, hs.frame_stepped h, hs.place_stepped h,
    fun q hpc => h.current hpc, ?_, ?_⟩
  · intro hoff
    rw [h.kept.boundary] at hoff
    exact hs.tic_stepped hoff htail h
  · intro hon
    rw [h.kept.boundary] at hon
    exact hs.boundary_stepped hon h

/-- **A request between two steps.** -/
theorem Timely.request (hs : Timely e s) {r : Request} (hfits : r.Fits s) :
    Timely e (s.applyCommand r.command) := by
  have h := requested_request hfits
  have hplace := samePlace_request s r
  have hahead : ∀ q, ahead (s.applyCommand r.command) q = ahead s q := by
    intro q
    unfold ahead
    rw [hplace.queue]
  have hrun : RunInv s → RunInv (s.applyCommand r.command) := fun hrun => runInv_request hrun hs.frame r
  generalize s.applyCommand r.command = s' at h hplace hahead hrun
  have hmem : ∀ {t : Int}, t ∈ s'.freezeTimes → s.timeTics < t ∨ t ∈ s.freezeTimes := by
    intro t ht
    rcases List.mem_append.mp (h.perm.mem_iff.mp ht) with ht | ht
    · exact Or.inl (h.later t ht)
    · exact Or.inr ht
  refine ⟨hs.jobs.kept h.toKept, h.inOrder hs.order, hs.frame.congr h.toKept h.timeTics h.timeLast h.frameCheck,
    ?_, ?_, ?_, ?_⟩
  · rw [hplace.pc, h.timeTics, h.frameCheck]
    exact hs.place
  · intro q hpc
    rw [hplace.pc] at hpc
    rw [hplace.currJob, hplace.queue]
    exact hs.current q hpc
  · intro hoff
    rw [h.boundary] at hoff
    have htic := hs.tic hoff
    refine ⟨hrun htic.run, ?_, ?_⟩
    · intro t ht
      rw [h.timeTics]
      rcases hmem ht with hlater | ht
      · exact le_of_lt hlater
      · exact htic.pending t ht
    · rcases htic.due with hterm | hlater | hdue
      · exact Or.inl (hplace.pc.trans hterm)
      · exact Or.inr (Or.inl (h.later_of_later hlater))
      · refine Or.inr (Or.inr ⟨?_, ?_, ?_, ?_⟩)
        · rw [hplace.pc]
          exact hdue.pc
        · rw [h.adv, hahead]
          exact hdue.advanced
        · rw [hplace.pc, hplace.currJob, h.adv]
          exact hdue.not_adv
        · rw [hplace.pc, hplace.currJob, h.freezeJob, hahead]
          exact hdue.freeze
  · intro hon
    rw [h.boundary] at hon
    have hboundary := hs.boundary hon
    refine ⟨?_, ?_, ?_⟩
    · intro t ht
      rw [h.frameCheck, h.frame]
      rcases hmem ht with hlater | ht
      · have hlow := hs.frame.frame_le
        omega
      · exact hboundary.pending t ht
    · rw [hplace.pc, hahead]
      exact fun hpc hnot => h.later_of_later (hboundary.find hpc hnot)
    · rw [hplace.pc, hahead, hplace.currJob]
      exact fun hpc hnot => (hboundary.call hpc hnot).imp_right h.later_of_later

end Trick.Exec.Executive
