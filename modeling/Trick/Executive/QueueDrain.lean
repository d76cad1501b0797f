/-
  The loop over `find_next_job` and the calls of the jobs it returns.

  A child thread and the freeze loop drain a queue of jobs by their tics in the same way.

  1. Data.  `Drain`: the jobs, the queue, and the calls made so far with the tic of each.
  2. Program.  `drain`: the loop at one tic.  A job that reschedules itself gives its next call time
     when it is called, `own j t`, and its call time is tested behind the call.
  3. Result.  `drain_spec`: the loop at `t` calls the jobs that are enabled and due at `t`, in the
     order of the queue, and moves every job as `afterPass` says; the cached time is then the least
     of what it was and of the call times behind `t` (`Cached`).

  A job that does not return 0 ends the simulation and is not modelled, and waiting for the depends
  of a job changes nothing here.
-/
import Trick.Executive.Traversal

namespace Trick.Exec

open Trick.Lib

/-! ## The loop -/

/-- The loop over a queue. -/
structure Drain where
  jobs : JobHeap
  queue : ScheduledJobQueue
  /-- The calls made so far, each with its tic. -/
  called : List (Int × JobId) := []

namespace Drain

/-- The jobs and the queue after a scan. -/
def scanned (c : Drain) (r : FindResult) : Drain :=
  let queue := { c.queue with currIndex := r.currIndex, nextJobTime := r.nextJobTime }
  { c with jobs := r.jobs, queue := queue }

/-- The call of a job: one that reschedules itself does so in its call, and its call time is tested
    behind it. -/
def callNextJob (own : JobId → Int → Int) (t : Int) (j : JobId) (c : Drain) : Drain :=
  if (c.jobs j).systemJobClass = true then
    let job := { c.jobs j with nextTics := own j t }
    { jobs := Function.update c.jobs j job
      queue := c.queue.testNextJobCallTime job t
      called := c.called ++ [(t, j)] }
  else { c with called := c.called ++ [(t, j)] }

/-- `while ( (curr_job = queue.find_next_job( t )) != NULL )`, for at most so many turns. -/
def drain (own : JobId → Int → Int) (t : Int) : Nat → Drain → Drain
  | 0, c => c
  | n + 1, c =>
    let r := c.queue.findNextJob t c.jobs
    match r.job with
    | none => c.scanned r
    | some j => drain own t n ((c.scanned r).callNextJob own t j)

end Drain

/-! ## What a pass does to a job -/

/-- A job after a pass at `t`. -/
def afterPass (own : JobId → Int → Int) (t : Int) (i : JobId) (j : JobData) : JobData :=
  if j.systemJobClass = true ∧ j.Due t then { j with nextTics := own i t } else j.visited t

section

variable {own : JobId → Int → Int} {t : Int} {i : JobId} {j : JobData}

@[simp] theorem afterPass_disabled : (afterPass own t i j).disabled = j.disabled := by
  unfold afterPass; split <;> simp

@[simp] theorem afterPass_cycleTics : (afterPass own t i j).cycleTics = j.cycleTics := by
  unfold afterPass; split <;> simp

@[simp] theorem afterPass_stopTics : (afterPass own t i j).stopTics = j.stopTics := by
  unfold afterPass; split <;> simp

@[simp] theorem afterPass_systemJobClass :
    (afterPass own t i j).systemJobClass = j.systemJobClass := by
  unfold afterPass; split <;> simp

theorem afterPass_of_not_due (h : ¬ j.Due t) : afterPass own t i j = j.visited t := by
  unfold afterPass
  rw [if_neg (fun hc => h hc.2)]

theorem afterPass_of_ne (h : j.nextTics ≠ t) : afterPass own t i j = j := by
  rw [afterPass_of_not_due (fun hd => h hd.1), JobData.visited_of_ne h]

theorem afterPass_of_system (hs : j.systemJobClass = true) (hd : j.Due t) :
    afterPass own t i j = { j with nextTics := own i t } := by
  unfold afterPass
  rw [if_pos ⟨hs, hd⟩]

theorem afterPass_of_user (hs : j.systemJobClass = false) : afterPass own t i j = j.visited t := by
  unfold afterPass
  rw [if_neg (by rw [hs]; simp)]

end

/-! ## The cached time -/

/-- **The cached time over the passed jobs**: not above `limit` nor above a call time behind `t`,
    and one of these. -/
structure Cached (t limit : Int) (jobs : JobHeap) (passed : List JobId) (time : Int) : Prop where
  le_limit : time ≤ limit
  le_next : ∀ i ∈ passed, t < (jobs i).nextTics → time ≤ (jobs i).nextTics
  attained : time = limit ∨ ∃ i ∈ passed, t < (jobs i).nextTics ∧ time = (jobs i).nextTics

theorem Cached.start (t limit : Int) (jobs : JobHeap) : Cached t limit jobs [] limit :=
  ⟨le_refl _, fun _ hi => (nomatch hi), Or.inl rfl⟩

/-- Only the passed jobs matter. -/
theorem Cached.congr {t limit : Int} {jobs jobs' : JobHeap} {passed : List JobId} {time : Int}
    (h : Cached t limit jobs passed time) (hsame : ∀ i ∈ passed, jobs' i = jobs i) :
    Cached t limit jobs' passed time := by
  refine ⟨h.le_limit, ?_, ?_⟩
  · intro i hi hlt
    rw [hsame i hi] at hlt ⊢
    exact h.le_next i hi hlt
  · rcases h.attained with heq | ⟨i, hi, hlt, heq⟩
    · exact Or.inl heq
    · refine Or.inr ⟨i, hi, ?_, ?_⟩
      · rw [hsame i hi]; exact hlt
      · rw [hsame i hi]; exact heq

/-- A scan that passes the jobs of `mid`.  A cyclic job that was due is due later. -/
theorem Cached.scan {t limit : Int} {jobs : JobHeap} {passed : List JobId} {time : Int}
    (h : Cached t limit jobs passed time) (mid : List JobId) (hdisj : ∀ i ∈ passed, i ∉ mid)
    (ht : t < maxLongLong) (hcycle : ∀ i ∈ mid, 1 ≤ (jobs i).cycleTics) :
    Cached t limit (visitAll t mid jobs) (passed ++ mid) (trackAll t mid jobs time) := by
  have hold : ∀ i ∈ passed, visitAll t mid jobs i = jobs i :=
    fun i hi => visitAll_of_notMem (hdisj i hi)
  have hnew : ∀ i ∈ mid, visitAll t mid jobs i = (jobs i).visited t := fun i hi => visitAll_of_mem hi
  have hle : trackAll t mid jobs time ≤ time := trackAll_le t mid jobs time
  refine ⟨le_trans hle h.le_limit, ?_, ?_⟩
  · intro i hi hlt
    rcases List.mem_append.mp hi with hp | hm
    · rw [hold i hp] at hlt ⊢
      exact le_trans hle (h.le_next i hp hlt)
    · rw [hnew i hm] at hlt ⊢
      exact trackAll_le_visited hm hlt time
  · rcases trackAll_attained t mid jobs time with heq | ⟨i, hm, heq, hge, hsys⟩
    · rw [heq]
      rcases h.attained with heq' | ⟨i, hp, hlt, heq'⟩
      · exact Or.inl heq'
      · refine Or.inr ⟨i, List.mem_append_left _ hp, ?_, ?_⟩
        · rw [hold i hp]; exact hlt
        · rw [hold i hp]; exact heq'
    · refine Or.inr ⟨i, List.mem_append_right _ hm, ?_, ?_⟩
      · rw [hnew i hm]
        rcases lt_or_eq_of_le hge with hlt | hdue
        · rw [JobData.visited_of_ne (by omega)]; exact hlt
        · exact JobData.visited_gt ht (Or.inl (hcycle i hm)) (hsys hdue.symm) hge
      · rw [hnew i hm]; exact heq

/-- A passed job that was at `t` has given its next call time, and it was tested. -/
theorem Cached.setOwn {t limit : Int} {jobs : JobHeap} {passed : List JobId} {j : JobId}
    {q : ScheduledJobQueue} (h : Cached t limit jobs passed q.nextJobTime) (hj : j ∈ passed)
    (hat : (jobs j).nextTics = t) (job : JobData) :
    Cached t limit (Function.update jobs j job) passed (q.testNextJobCallTime job t).nextJobTime := by
  obtain ⟨hle, -, htest, hatt⟩ := q.testNextJobCallTime_spec job t
  refine ⟨le_trans hle h.le_limit, ?_, ?_⟩
  · intro i hi hlt
    by_cases hij : i = j
    · subst hij
      rw [Function.update_self] at hlt ⊢
      exact htest hlt
    · rw [Function.update_of_ne hij] at hlt ⊢
      exact le_trans hle (h.le_next i hi hlt)
  · rcases hatt with heq | ⟨hlt, heq⟩
    · rw [heq]
      rcases h.attained with heq' | ⟨i, hi, hlt, heq'⟩
      · exact Or.inl heq'
      · have hij : i ≠ j := by rintro rfl; omega
        refine Or.inr ⟨i, hi, ?_, ?_⟩
        · rw [Function.update_of_ne hij]; exact hlt
        · rw [Function.update_of_ne hij]; exact heq'
    · refine Or.inr ⟨j, hj, ?_, ?_⟩
      · rw [Function.update_self]; exact hlt
      · rw [Function.update_self]; exact heq

/-! ## The spec of the inner loop -/

/-- The jobs after a pass at `t` over those of `l`. -/
def afterAll (own : JobId → Int → Int) (t : Int) (l : List JobId) (jobs : JobHeap) : JobHeap :=
  fun i => if i ∈ l then afterPass own t i (jobs i) else jobs i

/-- The calls of a pass at `t` over the jobs of `l`. -/
def callsAt (t : Int) (l : List JobId) (jobs : JobHeap) : List (Int × JobId) :=
  (l.filter fun i => (jobs i).Due t).map fun i => (t, i)

theorem afterAll_of_mem {own : JobId → Int → Int} {t : Int} {l : List JobId} {jobs : JobHeap}
    {i : JobId} (h : i ∈ l) : afterAll own t l jobs i = afterPass own t i (jobs i) := if_pos h

theorem afterAll_of_notMem {own : JobId → Int → Int} {t : Int} {l : List JobId} {jobs : JobHeap}
    {i : JobId} (h : i ∉ l) : afterAll own t l jobs i = jobs i := if_neg h

/-- When none of the jobs is due, the pass is a visit. -/
theorem afterAll_of_not_due {own : JobId → Int → Int} {t : Int} {l : List JobId} {jobs : JobHeap}
    (h : ∀ i ∈ l, ¬ (jobs i).Due t) : afterAll own t l jobs = visitAll t l jobs := by
  funext i
  by_cases hi : i ∈ l
  · rw [afterAll_of_mem hi, visitAll_of_mem hi, afterPass_of_not_due (h i hi)]
  · rw [afterAll_of_notMem hi, visitAll_of_notMem hi]

/-- A pass over two stretches of the queue. -/
theorem afterAll_append (own : JobId → Int → Int) (t : Int) (jobs : JobHeap) {mid rest : List JobId}
    (hdisj : ∀ i ∈ rest, i ∉ mid) :
    afterAll own t rest (afterAll own t mid jobs) = afterAll own t (mid ++ rest) jobs := by
  funext i
  by_cases hr : i ∈ rest
  · rw [afterAll_of_mem hr, afterAll_of_notMem (hdisj i hr),
      afterAll_of_mem (List.mem_append_right _ hr)]
  · rw [afterAll_of_notMem hr]
    by_cases hm : i ∈ mid
    · rw [afterAll_of_mem hm, afterAll_of_mem (List.mem_append_left _ hm)]
    · rw [afterAll_of_notMem hm, afterAll_of_notMem]
      simp [hm, hr]

theorem callsAt_of_not_due {t : Int} {l : List JobId} {jobs : JobHeap}
    (h : ∀ i ∈ l, ¬ (jobs i).Due t) : callsAt t l jobs = [] := by
  unfold callsAt
  rw [List.filter_eq_nil_iff.mpr (by simpa using h)]
  rfl

theorem callsAt_append (t : Int) (l l' : List JobId) (jobs : JobHeap) :
    callsAt t (l ++ l') jobs = callsAt t l jobs ++ callsAt t l' jobs := by
  unfold callsAt
  rw [List.filter_append, List.map_append]

theorem callsAt_congr {t : Int} {l : List JobId} {jobs jobs' : JobHeap}
    (h : ∀ i ∈ l, jobs' i = jobs i) : callsAt t l jobs' = callsAt t l jobs := by
  unfold callsAt
  congr 1
  refine List.filter_congr ?_
  intro i hi
  rw [h i hi]

/-- The jobs once a job that was found has been called: it and those in front of it are passed. -/
theorem afterAll_found (own : JobId → Int → Int) {t : Int} {pre : List JobId} {j : JobId}
    {jobs : JobHeap} (hpre : ∀ i ∈ pre, ¬ (jobs i).Due t) (hj : j ∉ pre) (hdue : (jobs j).Due t) :
    (if (visitAll t (pre ++ [j]) jobs j).systemJobClass = true then
      Function.update (visitAll t (pre ++ [j]) jobs) j
        { visitAll t (pre ++ [j]) jobs j with nextTics := own j t }
      else visitAll t (pre ++ [j]) jobs) = afterAll own t (pre ++ [j]) jobs := by
  have hmem : j ∈ pre ++ [j] := by simp
  have hvisit : visitAll t (pre ++ [j]) jobs j = (jobs j).visited t := visitAll_of_mem hmem
  have hothers : ∀ i, i ≠ j → visitAll t (pre ++ [j]) jobs i = afterAll own t (pre ++ [j]) jobs i := by
    intro i hij
    by_cases hi : i ∈ pre ++ [j]
    · have hip : i ∈ pre := by
        rcases List.mem_append.mp hi with hi | hi
        · exact hi
        · exact absurd (List.mem_singleton.mp hi) hij
      rw [visitAll_of_mem hi, afterAll_of_mem hi, afterPass_of_not_due (hpre i hip)]
    · rw [visitAll_of_notMem hi, afterAll_of_notMem hi]
  rw [hvisit, JobData.visited_systemJobClass]
  funext i
  by_cases hs : (jobs j).systemJobClass = true
  · rw [if_pos hs]
    by_cases hij : i = j
    · subst hij
      rw [Function.update_self, afterAll_of_mem hmem, afterPass_of_system hs hdue,
        JobData.visited_of_system hs]
    · rw [Function.update_of_ne hij]; exact hothers i hij
  · rw [if_neg hs]
    by_cases hij : i = j
    · subst hij
      rw [hvisit, afterAll_of_mem hmem, afterPass_of_user (by simpa using hs)]
    · exact hothers i hij

theorem callsAt_found {t : Int} {pre : List JobId} {j : JobId} {jobs : JobHeap}
    (hpre : ∀ i ∈ pre, ¬ (jobs i).Due t) (hdue : (jobs j).Due t) :
    callsAt t (pre ++ [j]) jobs = [(t, j)] := by
  rw [callsAt_append, callsAt_of_not_due hpre]
  unfold callsAt
  rw [List.filter_cons_of_pos (by simpa using hdue)]
  rfl

namespace Drain

/-- The loop after it has passed the jobs of `l`. -/
def passedOver (own : JobId → Int → Int) (t : Int) (l : List JobId) (index : Nat) (time : Int)
    (c : Drain) : Drain where
  jobs := afterAll own t l c.jobs
  queue := { c.queue with currIndex := index, nextJobTime := time }
  called := c.called ++ callsAt t l c.jobs

/-- One turn that finds a job. -/
theorem callNextJob_scanned (own : JobId → Int → Int) (t : Int) (c : Drain) (index : Nat)
    (time : Int) {pre : List JobId} {j : JobId} (hpre : ∀ i ∈ pre, ¬ (c.jobs i).Due t)
    (hj : j ∉ pre) (hdue : (c.jobs j).Due t) :
    ∃ time', (c.scanned ⟨some j, visitAll t (pre ++ [j]) c.jobs, index, time⟩).callNextJob own t j =
        c.passedOver own t (pre ++ [j]) index time' ∧
      time' = (if (c.jobs j).systemJobClass = true then
        (ScheduledJobQueue.testNextJobCallTime { c.jobs j with nextTics := own j t } t
          { c.queue with currIndex := index, nextJobTime := time }).nextJobTime
        else time) := by
  have hjobs := afterAll_found own hpre hj hdue
  have hcalls := callsAt_found hpre hdue
  have hmem : j ∈ pre ++ [j] := by simp
  have hvisit : visitAll t (pre ++ [j]) c.jobs j = (c.jobs j).visited t := visitAll_of_mem hmem
  refine ⟨_, ?_, rfl⟩
  unfold callNextJob scanned passedOver
  rw [← hjobs, hcalls]
  simp only [hvisit, JobData.visited_systemJobClass]
  by_cases hs : (c.jobs j).systemJobClass = true
  · simp only [hs, if_true, JobData.visited_of_system hs]
    congr 2
    unfold ScheduledJobQueue.testNextJobCallTime
    split <;> rfl
  · simp only [hs]
    rfl

/-- A pass over two stretches of the queue. -/
theorem passedOver_append {own : JobId → Int → Int} {t : Int} {c : Drain} {mid rest : List JobId}
    (hdisj : ∀ i ∈ rest, i ∉ mid) (k k' : Nat) (time time' : Int) :
    (c.passedOver own t mid k time).passedOver own t rest k' time' =
      c.passedOver own t (mid ++ rest) k' time' := by
  have hjobs := afterAll_append own t c.jobs hdisj
  have hcalls : callsAt t rest (afterAll own t mid c.jobs) = callsAt t rest c.jobs :=
    callsAt_congr fun i hi => afterAll_of_notMem (hdisj i hi)
  unfold passedOver
  simp only [hjobs, hcalls, callsAt_append, List.append_assoc]

/-- Behind the last job the cached time is the next call time. -/
theorem callTime_passedOver (own : JobId → Int → Int) (t : Int) (c : Drain) (l : List JobId)
    (index : Nat) (time : Int) (hindex : c.queue.list.length ≤ index) :
    (c.passedOver own t l index time).queue.getNextJobCallTime
      (c.passedOver own t l index time).jobs = time := by
  show ScheduledJobQueue.scanCallTime _ (c.queue.list.drop index) time = time
  rw [List.drop_of_length_le hindex]
  rfl

/-- **Spec of the inner loop**: it passes every job that is ahead, by induction on the turns. -/
theorem drain_spec (own : JobId → Int → Int) {t : Int} (limit : Int) (ht : t < maxLongLong) :
    ∀ (n : Nat) (c : Drain) (passed ahead : List JobId),
      Split c.queue passed ahead → (∀ i ∈ c.queue.list, 1 ≤ (c.jobs i).cycleTics) →
      ahead.length < n → Cached t limit c.jobs passed c.queue.nextJobTime →
      ∃ time, drain own t n c = c.passedOver own t ahead c.queue.list.length time ∧
        Cached t limit (afterAll own t ahead c.jobs) c.queue.list time := by
  intro n
  induction n with
  | zero => intro c passed ahead _ _ hlen; omega
  | succ n ih =>
    intro c passed ahead hs hcycle hlen hcached
    have hnd := hs.nodup
    have hlist := hs.list_eq
    rw [hlist] at hnd
    obtain ⟨-, hnda, hdisj⟩ := List.nodup_append.mp hnd
    obtain ⟨mid, rest, hsplit, hidx, hjobs, htime, hres⟩ :=
      findNextJobLoop_spec t ahead c.jobs c.queue.currIndex c.queue.nextJobTime hnda
    have hfind : c.queue.findNextJob t c.jobs =
        findNextJobLoop t ahead c.jobs c.queue.currIndex c.queue.nextJobTime := by
      unfold ScheduledJobQueue.findNextJob; rw [hs.drop_eq]
    have hmem : ∀ i ∈ mid, i ∈ c.queue.list := by
      intro i hi
      rw [hlist, hsplit]
      exact List.mem_append_right _ (List.mem_append_left _ hi)
    have hscan := hcached.scan mid
      (fun i hi hm => hdisj i hi i (hsplit ▸ List.mem_append_left _ hm) rfl) ht
      (fun i hi => hcycle i (hmem i hi))
    rw [drain, hfind]
    rcases hres with ⟨hnone, hrest, hnot⟩ | ⟨pre, j, hmid, hsome, hdue, hnot⟩
    · -- nothing ahead is due: the last turn
      rw [hrest, List.append_nil] at hsplit
      subst hsplit
      simp only [hnone]
      refine ⟨trackAll t ahead c.jobs c.queue.nextJobTime, ?_, ?_⟩
      · unfold scanned passedOver
        rw [callsAt_of_not_due hnot, afterAll_of_not_due hnot, List.append_nil, hjobs, htime, hidx,
          hs.cursor, hlist, List.length_append]
      · rw [afterAll_of_not_due hnot, hlist]; exact hscan
    · -- a job is due: the turns that are left pass the rest
      simp only [hsome]
      have hjpre : j ∉ pre := by
        intro hj
        have hndm : mid.Nodup := (List.nodup_append.mp (hsplit ▸ hnda)).1
        rw [hmid] at hndm
        exact (List.nodup_append.mp hndm).2.2 j hj j (List.mem_singleton_self j) rfl
      have hrestdisj : ∀ i ∈ rest, i ∉ mid := by
        intro i hr hm
        exact (List.nodup_append.mp (hsplit ▸ hnda)).2.2 i hm i hr rfl
      obtain ⟨time', hturn, htime'⟩ := callNextJob_scanned own t c (passed.length + mid.length)
        (trackAll t mid c.jobs c.queue.nextJobTime) hnot hjpre hdue
      have hr : findNextJobLoop t ahead c.jobs c.queue.currIndex c.queue.nextJobTime =
          ⟨some j, visitAll t (pre ++ [j]) c.jobs, passed.length + mid.length,
            trackAll t mid c.jobs c.queue.nextJobTime⟩ := by
        rw [← hsome, ← hmid, ← hjobs, ← htime, ← hs.cursor, ← hidx]
      rw [hr, hturn, ← hmid]
      have hs' : Split (c.passedOver own t mid (passed.length + mid.length) time').queue
          (passed ++ mid) rest :=
        ⟨by rw [List.append_assoc, ← hsplit]; exact hlist, by rw [List.length_append]; rfl, hs.nodup⟩
      have hcached' : Cached t limit (afterAll own t mid c.jobs) (passed ++ mid) time' := by
        rw [hmid, ← afterAll_found own hnot hjpre hdue, ← hmid, htime']
        have hvisit : visitAll t mid c.jobs j = (c.jobs j).visited t :=
          visitAll_of_mem (hmid ▸ by simp)
        rw [hvisit, JobData.visited_systemJobClass]
        by_cases hsys : (c.jobs j).systemJobClass = true
        · rw [if_pos hsys, if_pos hsys, JobData.visited_of_system hsys]
          refine Cached.setOwn (q := { c.queue with
            currIndex := passed.length + mid.length
            nextJobTime := trackAll t mid c.jobs c.queue.nextJobTime })
            hscan (List.mem_append_right _ (hmid ▸ by simp)) ?_ _
          rw [hvisit, JobData.visited_of_system hsys]
          exact hdue.1
        · rw [if_neg hsys, if_neg hsys]; exact hscan
      have hcycle' : ∀ i ∈ c.queue.list, 1 ≤ (afterAll own t mid c.jobs i).cycleTics := by
        intro i hi
        unfold afterAll
        split
        · rw [afterPass_cycleTics]; exact hcycle i hi
        · exact hcycle i hi
      have hlen' : rest.length < n := by
        rw [hsplit, hmid] at hlen
        simp only [List.length_append, List.length_singleton] at hlen
        omega
      obtain ⟨time, hdrain, hend⟩ := ih _ (passed ++ mid) rest hs' hcycle' hlen' hcached'
      have hboth := afterAll_append own t c.jobs hrestdisj
      rw [← hsplit] at hboth
      refine ⟨time, ?_, ?_⟩
      · rw [hdrain, passedOver_append hrestdisj, ← hsplit]
        rfl
      · rw [← hboth]
        exact hend

end Drain

end Trick.Exec
