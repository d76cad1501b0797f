/-
  `ScheduledJobQueue`: a sorted list of job pointers with a cursor and a cached next call time.

  The operations are translated one by one.  The queue holds pointers, so those that read a job
  (the sort of `push`, the scans) take the store of jobs, and `find_next_job`, which reschedules
  the jobs it finds due, returns the new one.  `curr_index` is an `unsigned int`: a removal in
  front of the first job takes it round to its greatest value.

  The second half says once what a scan does.  `findNextJobLoop_spec` splits the jobs from the
  cursor on into those that the call passed and those that it left alone, and gives the new store
  (`visitAll`) and the new cached time (`trackAll`) as functions of the passed ones; nothing later
  unfolds the loop.
-/
import Trick.Executive.JobData

namespace Trick.Exec

open Trick.Lib

/-! ## The queue and its operations -/

/-- The scheduler queue: `list_size` is the length of `list`. -/
structure ScheduledJobQueue where
  list : List JobId := []
  currIndex : Nat := 0
  nextJobTime : Int := maxLongLong

/-- The number of values of an `unsigned int`. -/
def uintSize : Nat := 2 ^ 32

namespace ScheduledJobQueue

/-- The index at which `push` inserts: `std::upper_bound` with `compare_job_data`. -/
def insertIndex (jobs : JobHeap) (j : JobId) (q : ScheduledJobQueue) : Nat :=
  upperBound (fun i => (jobs i).sortKey) j q.list

/-- `push`: a job that lands before the cursor moves the cursor on. -/
def push (jobs : JobHeap) (j : JobId) (q : ScheduledJobQueue) : ScheduledJobQueue :=
  { q with
    list := insertAt (q.insertIndex jobs j) j q.list
    currIndex :=
      if q.insertIndex jobs j < q.currIndex then (q.currIndex + 1) % uintSize else q.currIndex }

/-- `remove`: a removal up to and including the cursor moves the cursor back. -/
def remove (j : JobId) (q : ScheduledJobQueue) : ScheduledJobQueue :=
  if j ∈ q.list then
    { q with
      list := q.list.erase j
      currIndex :=
        if q.list.idxOf j ≤ q.currIndex then
          if q.currIndex = 0 then uintSize - 1 else q.currIndex - 1
        else q.currIndex }
  else q

/-- `reset_curr_index` -/
def resetCurrIndex (q : ScheduledJobQueue) : ScheduledJobQueue := { q with currIndex := 0 }

/-- `set_next_job_call_time` -/
def setNextJobCallTime (t : Int) (q : ScheduledJobQueue) : ScheduledJobQueue :=
  { q with nextJobTime := t }

/-- `test_next_job_call_time` -/
def testNextJobCallTime (currJob : JobData) (timeTics : Int) (q : ScheduledJobQueue) :
    ScheduledJobQueue :=
  if currJob.nextTics > timeTics ∧ currJob.nextTics < q.nextJobTime then
    { q with nextJobTime := currJob.nextTics }
  else q

/-- The scan of `get_next_job_call_time` over the jobs from the cursor on. -/
def scanCallTime (jobs : JobHeap) (l : List JobId) (time : Int) : Int :=
  l.foldl (fun time j => if (jobs j).nextTics < time then (jobs j).nextTics else time) time

/-- `get_next_job_call_time`; the value is also stored in the queue. -/
def getNextJobCallTime (jobs : JobHeap) (q : ScheduledJobQueue) : Int :=
  scanCallTime jobs (q.list.drop q.currIndex) q.nextJobTime

/-- The loop of `get_next_job` over the jobs from the cursor on. -/
def getNextJobLoop (jobs : JobHeap) : List JobId → Nat → Option JobId × Nat
  | [], currIndex => (none, currIndex)
  | j :: rest, currIndex =>
    if (jobs j).disabled = false then (some j, currIndex + 1)
    else getNextJobLoop jobs rest (currIndex + 1)

/-- `get_next_job`: the next enabled job, due or not. -/
def getNextJob (jobs : JobHeap) (q : ScheduledJobQueue) : Option JobId × ScheduledJobQueue :=
  if q.list.length ≤ q.currIndex then (none, { q with currIndex := q.list.length })
  else
    let r := getNextJobLoop jobs (q.list.drop q.currIndex) q.currIndex
    (r.1, { q with currIndex := r.2 })

end ScheduledJobQueue

/-- What a call of `find_next_job` returns and leaves behind. -/
structure FindResult where
  job : Option JobId
  jobs : JobHeap
  currIndex : Nat
  nextJobTime : Int

/-- The loop of `find_next_job` over the jobs from the cursor on. -/
def findNextJobLoop (timeTics : Int) : List JobId → JobHeap → Nat → Int → FindResult
  | [], jobs, currIndex, nextJobTime => ⟨none, jobs, currIndex, nextJobTime⟩
  | j :: rest, jobs, currIndex, nextJobTime =>
    let currJob := jobs j
    if currJob.nextTics = timeTics then
      -- a job that does not reschedule itself is given its next call time
      if currJob.systemJobClass = false then
        let nextCall := currJob.reschedule
        let jobs' := Function.update jobs j nextCall
        let nextJobTime' := if nextCall.nextTics < nextJobTime then nextCall.nextTics
          else nextJobTime
        if currJob.disabled = false then ⟨some j, jobs', currIndex + 1, nextJobTime'⟩
        else findNextJobLoop timeTics rest jobs' (currIndex + 1) nextJobTime'
      else if currJob.disabled = false then ⟨some j, jobs, currIndex + 1, nextJobTime⟩
      else findNextJobLoop timeTics rest jobs (currIndex + 1) nextJobTime
    else
      let nextJobTime' :=
        if currJob.nextTics > timeTics ∧ currJob.nextTics < nextJobTime then currJob.nextTics
        else nextJobTime
      findNextJobLoop timeTics rest jobs (currIndex + 1) nextJobTime'

/-- `find_next_job`: the next enabled job that is due at `timeTics`. -/
def ScheduledJobQueue.findNextJob (timeTics : Int) (jobs : JobHeap) (q : ScheduledJobQueue) :
    FindResult :=
  findNextJobLoop timeTics (q.list.drop q.currIndex) jobs q.currIndex q.nextJobTime

/-! ## What a scan leaves behind -/

/-- Due now and enabled: `find_next_job` stops at such a job. -/
def JobData.Due (t : Int) (j : JobData) : Prop := j.nextTics = t ∧ j.disabled = false

instance (t : Int) (j : JobData) : Decidable (j.Due t) :=
  inferInstanceAs (Decidable (_ ∧ _))

/-- A job after the scan at `t` has passed it. -/
def JobData.visited (t : Int) (j : JobData) : JobData :=
  if j.nextTics = t ∧ j.systemJobClass = false then j.reschedule else j

/-- The cached time after the scan at `t` has passed `j`. -/
def trackVisited (t : Int) (j : JobData) (time : Int) : Int :=
  if j.nextTics = t ∧ j.systemJobClass = true then time
  else if j.nextTics < t then time
  else if (j.visited t).nextTics < time then (j.visited t).nextTics else time

/-- The store after the scan at `t` has passed the jobs of `l`. -/
def visitAll (t : Int) (l : List JobId) (jobs : JobHeap) : JobHeap :=
  fun i => if i ∈ l then (jobs i).visited t else jobs i

/-- The cached time after the scan at `t` has passed the jobs of `l`. -/
def trackAll (t : Int) (l : List JobId) (jobs : JobHeap) (time : Int) : Int :=
  l.foldl (fun time i => trackVisited t (jobs i) time) time

@[simp] theorem JobData.visited_systemJobClass (t : Int) (j : JobData) :
    (j.visited t).systemJobClass = j.systemJobClass := by
  unfold JobData.visited JobData.reschedule; split_ifs <;> rfl

@[simp] theorem JobData.visited_cycleTics (t : Int) (j : JobData) :
    (j.visited t).cycleTics = j.cycleTics := by
  unfold JobData.visited JobData.reschedule; split_ifs <;> rfl

@[simp] theorem JobData.visited_code (t : Int) (j : JobData) :
    (j.visited t).code = j.code := by
  unfold JobData.visited JobData.reschedule; split_ifs <;> rfl

@[simp] theorem JobData.visited_disabled (t : Int) (j : JobData) :
    (j.visited t).disabled = j.disabled := by
  unfold JobData.visited JobData.reschedule; split_ifs <;> rfl

@[simp] theorem JobData.visited_stopTics (t : Int) (j : JobData) :
    (j.visited t).stopTics = j.stopTics := by
  unfold JobData.visited JobData.reschedule; split_ifs <;> rfl

@[simp] theorem JobData.visited_sortKey (t : Int) (j : JobData) :
    (j.visited t).sortKey = j.sortKey := by
  unfold JobData.visited JobData.reschedule JobData.sortKey; split_ifs <;> rfl

theorem JobData.visited_of_ne {t : Int} {j : JobData} (h : j.nextTics ≠ t) : j.visited t = j := by
  unfold JobData.visited
  rw [if_neg (fun hc => h hc.1)]

theorem JobData.visited_of_system {t : Int} {j : JobData} (h : j.systemJobClass = true) :
    j.visited t = j := by
  unfold JobData.visited
  rw [if_neg (by rw [h]; simp)]

/-- A job that was not late is due later once the scan has passed it. -/
theorem JobData.visited_gt {t : Int} {j : JobData} (ht : t < maxLongLong)
    (hc : 1 ≤ j.cycleTics ∨ j.nextTics = maxLongLong) (hs : j.systemJobClass = false)
    (hn : t ≤ j.nextTics) : t < (j.visited t).nextTics := by
  unfold JobData.visited JobData.reschedule
  by_cases hd : j.nextTics = t
  · rw [if_pos ⟨hd, hs⟩]
    simp only
    split
    · exact ht
    · omega
  · rw [if_neg (fun hc => hd hc.1)]
    omega

theorem visitAll_nil (t : Int) (jobs : JobHeap) : visitAll t [] jobs = jobs := by
  funext i; simp [visitAll]

theorem visitAll_of_mem {t : Int} {l : List JobId} {jobs : JobHeap} {i : JobId} (h : i ∈ l) :
    visitAll t l jobs i = (jobs i).visited t := if_pos h

theorem visitAll_of_notMem {t : Int} {l : List JobId} {jobs : JobHeap} {i : JobId} (h : i ∉ l) :
    visitAll t l jobs i = jobs i := if_neg h

theorem visitAll_cons {t : Int} {j : JobId} {l : List JobId} {jobs : JobHeap} (h : j ∉ l) :
    visitAll t (j :: l) jobs = visitAll t l (Function.update jobs j ((jobs j).visited t)) := by
  funext i
  by_cases hij : i = j
  · subst hij
    rw [visitAll_of_mem (List.mem_cons_self ..), visitAll_of_notMem h, Function.update_self]
  · unfold visitAll
    rw [Function.update_of_ne hij]
    simp only [List.mem_cons, hij, false_or]

/-- A field that no visit changes is the same in the store after a scan. -/
theorem visitAll_field {β : Type*} {f : JobData → β} (hf : ∀ t j, f (JobData.visited t j) = f j)
    (t : Int) (l : List JobId) (jobs : JobHeap) (i : JobId) : f (visitAll t l jobs i) = f (jobs i) := by
  unfold visitAll
  split
  · exact hf t _
  · rfl

theorem trackVisited_le (t : Int) (j : JobData) (time : Int) : trackVisited t j time ≤ time := by
  unfold trackVisited; split_ifs <;> omega

theorem trackAll_cons (t : Int) (i : JobId) (l : List JobId) (jobs : JobHeap) (time : Int) :
    trackAll t (i :: l) jobs time = trackAll t l jobs (trackVisited t (jobs i) time) := rfl

/-- The cached time only goes down. -/
theorem trackAll_le (t : Int) (l : List JobId) (jobs : JobHeap) :
    ∀ time, trackAll t l jobs time ≤ time := by
  induction l with
  | nil => intro time; exact le_refl _
  | cons i l ih =>
    intro time
    rw [trackAll_cons]
    exact le_trans (ih _) (trackVisited_le t (jobs i) time)

/-- **The cached time is not above a job that the scan has passed and that is due later.** -/
theorem trackAll_le_visited {t : Int} {l : List JobId} {jobs : JobHeap} {i : JobId} (hi : i ∈ l)
    (hn : t < ((jobs i).visited t).nextTics) :
    ∀ time, trackAll t l jobs time ≤ ((jobs i).visited t).nextTics := by
  induction l with
  | nil => cases hi
  | cons k l ih =>
    intro time
    rw [trackAll_cons]
    rcases List.mem_cons.mp hi with rfl | hil
    · refine le_trans (trackAll_le t l jobs _) ?_
      unfold trackVisited
      split_ifs with h1 h2 h3
      · -- a system job that is due is not moved, so it is not due later
        rw [JobData.visited_of_system h1.2] at hn; omega
      · rw [JobData.visited_of_ne (by omega)] at hn; omega
      · exact le_refl _
      · omega
    · exact ih hil _

/-- **The cached time is the old one or the call time of a job that the scan has passed.** -/
theorem trackAll_attained (t : Int) (l : List JobId) (jobs : JobHeap) :
    ∀ time, trackAll t l jobs time = time ∨
      ∃ i ∈ l, trackAll t l jobs time = ((jobs i).visited t).nextTics ∧ t ≤ (jobs i).nextTics ∧
        ((jobs i).nextTics = t → (jobs i).systemJobClass = false) := by
  induction l with
  | nil => intro time; exact Or.inl rfl
  | cons i l ih =>
    intro time
    rw [trackAll_cons]
    rcases ih (trackVisited t (jobs i) time) with h | ⟨k, hk, hrest⟩
    · rw [h]
      unfold trackVisited
      split_ifs with h1 h2 h3
      · exact Or.inl rfl
      · exact Or.inl rfl
      · refine Or.inr ⟨i, List.mem_cons_self .., rfl, by omega, ?_⟩
        intro hd
        by_contra hs
        exact h1 ⟨hd, by simpa using hs⟩
      · exact Or.inl rfl
    · exact Or.inr ⟨k, List.mem_cons_of_mem _ hk, hrest⟩

theorem trackAll_congr {t : Int} {l : List JobId} {jobs jobs' : JobHeap}
    (h : ∀ i ∈ l, jobs i = jobs' i) : ∀ time, trackAll t l jobs time = trackAll t l jobs' time := by
  induction l with
  | nil => intro time; rfl
  | cons i l ih =>
    intro time
    rw [trackAll_cons, trackAll_cons, h i (List.mem_cons_self ..)]
    exact ih (fun k hk => h k (List.mem_cons_of_mem _ hk)) _

/-! ## The spec of `find_next_job` -/

/-- One turn of the loop: the job under the cursor is passed, and the search goes on unless the
    job is due and enabled. -/
theorem findNextJobLoop_cons (t : Int) (j : JobId) (rest : List JobId) (jobs : JobHeap) (k : Nat)
    (time : Int) :
    findNextJobLoop t (j :: rest) jobs k time =
      let jobs' := Function.update jobs j ((jobs j).visited t)
      let time' := trackVisited t (jobs j) time
      if (jobs j).Due t then ⟨some j, jobs', k + 1, time'⟩
      else findNextJobLoop t rest jobs' (k + 1) time' := by
  have hself : Function.update jobs j (jobs j) = jobs := Function.update_eq_self j jobs
  rw [findNextJobLoop]
  by_cases hn : (jobs j).nextTics = t
  · by_cases hs : (jobs j).systemJobClass = false
    · -- due, rescheduled here
      simp only [hn, hs, JobData.Due, JobData.visited, trackVisited, true_and, and_self, if_true,
        Bool.false_eq_true, and_false, if_false, lt_irrefl]
    · -- due, a system job: not touched
      simp only [Bool.not_eq_false] at hs
      simp only [hn, hs, JobData.Due, JobData.visited, trackVisited, true_and, and_self, if_true,
        Bool.true_eq_false, and_false, if_false, hself]
  · simp only [hn, JobData.Due, JobData.visited, trackVisited, false_and, if_false, hself]
    by_cases hlt : (jobs j).nextTics < t
    · rw [if_pos hlt, if_neg (by omega)]
    · rw [if_neg hlt]
      have hgt : (jobs j).nextTics > t := by omega
      simp only [hgt, true_and]

/-- **Spec of the `find_next_job` loop.**  The jobs from the cursor on split into `mid`, which the
    call has passed, and `rest`, which it has not looked at; the job returned is the last of
    `mid` and the only one of them that was due and enabled. -/
theorem findNextJobLoop_spec (t : Int) :
    ∀ (todo : List JobId) (jobs : JobHeap) (k : Nat) (time : Int), todo.Nodup →
      ∃ mid rest, todo = mid ++ rest ∧
        (findNextJobLoop t todo jobs k time).currIndex = k + mid.length ∧
        (findNextJobLoop t todo jobs k time).jobs = visitAll t mid jobs ∧
        (findNextJobLoop t todo jobs k time).nextJobTime = trackAll t mid jobs time ∧
        (((findNextJobLoop t todo jobs k time).job = none ∧ rest = [] ∧
            ∀ i ∈ mid, ¬ (jobs i).Due t) ∨
          ∃ pre j, mid = pre ++ [j] ∧ (findNextJobLoop t todo jobs k time).job = some j ∧
            (jobs j).Due t ∧ ∀ i ∈ pre, ¬ (jobs i).Due t) := by
  intro todo
  induction todo with
  | nil =>
    intro jobs k time _
    refine ⟨[], [], rfl, rfl, ?_, rfl, Or.inl ⟨rfl, rfl, ?_⟩⟩
    · rw [visitAll_nil]; rfl
    · intro i hi; cases hi
  | cons j todo ih =>
    intro jobs k time hnd
    obtain ⟨hj, hnd⟩ := List.nodup_cons.mp hnd
    rw [findNextJobLoop_cons]
    by_cases hdue : (jobs j).Due t
    · -- the search stops here
      simp only [if_pos hdue]
      refine ⟨[j], todo, rfl, rfl, ?_, rfl, Or.inr ⟨[], j, rfl, rfl, hdue, ?_⟩⟩
      · rw [visitAll_cons (List.not_mem_nil), visitAll_nil]
      · intro i hi; cases hi
    · simp only [if_neg hdue]
      obtain ⟨mid, rest, hsplit, hidx, hjobs, htime, hres⟩ :=
        ih (Function.update jobs j ((jobs j).visited t)) (k + 1) (trackVisited t (jobs j) time) hnd
      have hjm : j ∉ mid := by
        intro hm; exact hj (hsplit ▸ List.mem_append_left _ hm)
      have hsame : ∀ i ∈ mid, Function.update jobs j ((jobs j).visited t) i = jobs i := by
        intro i hi
        have hij : i ≠ j := by rintro rfl; exact hjm hi
        exact Function.update_of_ne hij _ _
      refine ⟨j :: mid, rest, by rw [hsplit]; rfl, ?_, ?_, ?_, ?_⟩
      · rw [hidx, List.length_cons]; omega
      · rw [hjobs, visitAll_cons hjm]
      · rw [htime, trackAll_cons]; exact trackAll_congr hsame _
      · rcases hres with ⟨hnone, hrest, hnot⟩ | ⟨pre, i, hmid, hsome, hdi, hnot⟩
        · refine Or.inl ⟨hnone, hrest, ?_⟩
          intro i hi
          rcases List.mem_cons.mp hi with rfl | hi
          · exact hdue
          · rw [← hsame i hi]; exact hnot i hi
        · refine Or.inr ⟨j :: pre, i, by rw [hmid]; rfl, hsome, ?_, ?_⟩
          · rw [← hsame i (by rw [hmid]; simp)]; exact hdi
          · intro m hm
            rcases List.mem_cons.mp hm with rfl | hm
            · exact hdue
            · rw [← hsame m (by rw [hmid]; simp [hm])]; exact hnot m hm

/-! ## The spec of `get_next_job_call_time` -/

namespace ScheduledJobQueue

theorem scanCallTime_cons (jobs : JobHeap) (i : JobId) (l : List JobId) (time : Int) :
    scanCallTime jobs (i :: l) time =
      scanCallTime jobs l (if (jobs i).nextTics < time then (jobs i).nextTics else time) := rfl

/-- **The value is the least of the cached time and the call times from the cursor on.** -/
theorem scanCallTime_spec (jobs : JobHeap) (l : List JobId) :
    ∀ time, scanCallTime jobs l time ≤ time ∧
      (∀ i ∈ l, scanCallTime jobs l time ≤ (jobs i).nextTics) ∧
      (scanCallTime jobs l time = time ∨ ∃ i ∈ l, scanCallTime jobs l time = (jobs i).nextTics) := by
  induction l with
  | nil =>
    intro time
    refine ⟨le_refl _, ?_, Or.inl rfl⟩
    intro i hi; cases hi
  | cons i l ih =>
    intro time
    rw [scanCallTime_cons]
    by_cases hlt : (jobs i).nextTics < time
    · rw [if_pos hlt]
      obtain ⟨hle, hall, hatt⟩ := ih (jobs i).nextTics
      refine ⟨by omega, ?_, ?_⟩
      · intro k hk
        rcases List.mem_cons.mp hk with rfl | hk
        · exact hle
        · exact hall k hk
      · rcases hatt with h | ⟨k, hk, h⟩
        · exact Or.inr ⟨i, List.mem_cons_self .., h⟩
        · exact Or.inr ⟨k, List.mem_cons_of_mem _ hk, h⟩
    · rw [if_neg hlt]
      obtain ⟨hle, hall, hatt⟩ := ih time
      refine ⟨hle, ?_, ?_⟩
      · intro k hk
        rcases List.mem_cons.mp hk with rfl | hk
        · omega
        · exact hall k hk
      · rcases hatt with h | ⟨k, hk, h⟩
        · exact Or.inl h
        · exact Or.inr ⟨k, List.mem_cons_of_mem _ hk, h⟩

/-! ## The spec of `get_next_job` -/

theorem getNextJobLoop_mem {jobs : JobHeap} {j : JobId} :
    ∀ {l : List JobId} {k : Nat}, (getNextJobLoop jobs l k).1 = some j → j ∈ l := by
  intro l
  induction l with
  | nil => intro k h; cases h
  | cons i l ih =>
    intro k h
    unfold getNextJobLoop at h
    split at h
    · cases h; exact List.mem_cons_self ..
    · exact List.mem_cons_of_mem _ (ih h)

/-- The job returned is in the queue. -/
theorem getNextJob_mem {jobs : JobHeap} {q : ScheduledJobQueue} {j : JobId}
    (h : (q.getNextJob jobs).1 = some j) : j ∈ q.list := by
  unfold getNextJob at h
  split at h
  · cases h
  · exact List.mem_of_mem_drop (getNextJobLoop_mem h)

theorem getNextJobLoop_index {jobs : JobHeap} {j : JobId} :
    ∀ {l : List JobId} {k : Nat}, (getNextJobLoop jobs l k).1 = some j →
      k < (getNextJobLoop jobs l k).2 ∧ (getNextJobLoop jobs l k).2 ≤ k + l.length := by
  intro l
  induction l with
  | nil => intro k h; cases h
  | cons i l ih =>
    intro k h
    unfold getNextJobLoop at h ⊢
    rw [List.length_cons]
    split at h
    · rename_i hen
      rw [if_pos hen]
      exact ⟨Nat.lt_succ_self k, by show k + 1 ≤ _; omega⟩
    · rename_i hen
      rw [if_neg hen]
      have := ih h
      omega

/-- A job that is found moves the cursor on. -/
theorem getNextJob_index {jobs : JobHeap} {q : ScheduledJobQueue} {j : JobId}
    (h : (q.getNextJob jobs).1 = some j) :
    q.currIndex < (q.getNextJob jobs).2.currIndex ∧
      (q.getNextJob jobs).2.currIndex ≤ q.list.length := by
  unfold getNextJob at h ⊢
  split at h
  · cases h
  · rename_i hlt
    rw [if_neg hlt]
    obtain ⟨h1, h2⟩ := getNextJobLoop_index h
    rw [List.length_drop] at h2
    exact ⟨h1, by simp only; omega⟩

@[simp] theorem getNextJob_list (jobs : JobHeap) (q : ScheduledJobQueue) :
    (q.getNextJob jobs).2.list = q.list := by
  unfold getNextJob; split <;> rfl

/-! ## The spec of `test_next_job_call_time` -/

@[simp] theorem testNextJobCallTime_list (j : JobData) (t : Int) (q : ScheduledJobQueue) :
    (q.testNextJobCallTime j t).list = q.list := by
  unfold testNextJobCallTime; split <;> rfl

@[simp] theorem testNextJobCallTime_currIndex (j : JobData) (t : Int) (q : ScheduledJobQueue) :
    (q.testNextJobCallTime j t).currIndex = q.currIndex := by
  unfold testNextJobCallTime; split <;> rfl

/-- The test lowers the cached time to a call time that is later than the tic, and no further. -/
theorem testNextJobCallTime_spec (j : JobData) (t : Int) (q : ScheduledJobQueue) :
    (q.testNextJobCallTime j t).nextJobTime ≤ q.nextJobTime ∧
    (t < q.nextJobTime → t < (q.testNextJobCallTime j t).nextJobTime) ∧
    (t < j.nextTics → (q.testNextJobCallTime j t).nextJobTime ≤ j.nextTics) ∧
    ((q.testNextJobCallTime j t).nextJobTime = q.nextJobTime ∨
      t < j.nextTics ∧ (q.testNextJobCallTime j t).nextJobTime = j.nextTics) := by
  unfold testNextJobCallTime
  split
  · rename_i h
    exact ⟨le_of_lt h.2, fun _ => h.1, fun _ => le_refl _, Or.inr ⟨h.1, rfl⟩⟩
  · exact ⟨le_refl _, fun ht => ht, fun ht => by omega, Or.inl rfl⟩

end ScheduledJobQueue

end Trick.Exec
