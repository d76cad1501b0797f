/-
  The scheduled queue in the middle of a pass.

  The job that advances the clock divides the sorted queue in two.  A pass walks the head of the
  queue at the old tic, calls that job, and walks the tail at the new tic; the next pass begins
  with the head.  `Zones` says what holds of the jobs in each part:

  * `P`, passed in this pass: due later, and the cached next call time is not above them;
  * `W`, waiting: jobs of the head that will be looked at before the clock moves, due now or later;
  * `Q`, quiet: jobs of the tail that will not be looked at before the clock moves, due later;
  * `V`, pending: jobs of the tail that will still be looked at before the clock moves.

  While the head is walked there is no `V`; while the tail is walked, and between two passes, there
  is no `P`.  Jobs of a class that reschedules itself are not promised anything, except that the
  cached time is not above those that were passed.  Each lemma below is one thing that can happen
  to the queue: a scan, an insertion, a removal, a new call time, the advance of the clock.
-/
import Trick.Executive.ScheduledJobQueue

namespace Trick.Exec

open Trick.Lib

/-- **The zones of the scheduled queue** around the job `adv` that advances the clock.  `frz` is the
    freeze job, which stands in the tail. -/
structure Zones (jobs : JobHeap) (q : ScheduledJobQueue) (time : Int) (adv frz : JobId)
    (P W Q V : List JobId) : Prop where
  list_eq : q.list = (P ++ W) ++ adv :: (Q ++ V)
  freeze_tail : frz ∉ P ++ W
  adv_next : (jobs adv).nextTics = time
  cached : time < q.nextJobTime
  passed : ∀ j ∈ P, (jobs j).systemJobClass = false → time < (jobs j).nextTics
  tracked : ∀ j ∈ P, time < (jobs j).nextTics → q.nextJobTime ≤ (jobs j).nextTics
  waiting : ∀ j ∈ W, (jobs j).systemJobClass = false → time ≤ (jobs j).nextTics
  quiet : ∀ j ∈ Q, (jobs j).systemJobClass = false → time < (jobs j).nextTics
  pending : ∀ j ∈ V, (jobs j).systemJobClass = false → time ≤ (jobs j).nextTics

namespace Zones

variable {jobs jobs' : JobHeap} {q : ScheduledJobQueue} {time : Int} {adv frz : JobId}
  {P W Q V : List JobId}

/-! ## Where the jobs are -/

theorem mem_list (h : Zones jobs q time adv frz P W Q V) (j : JobId) :
    j ∈ q.list ↔ j ∈ P ∨ j ∈ W ∨ j = adv ∨ j ∈ Q ∨ j ∈ V := by
  rw [h.list_eq]
  simp only [List.mem_append, List.mem_cons]
  tauto

theorem adv_mem (h : Zones jobs q time adv frz P W Q V) : adv ∈ q.list :=
  (h.mem_list adv).mpr (Or.inr (Or.inr (Or.inl rfl)))

/-- In a queue without duplicates the advancing job is in no zone. -/
theorem adv_notMem (h : Zones jobs q time adv frz P W Q V) (hnd : q.list.Nodup) :
    adv ∉ P ++ W ∧ adv ∉ Q ++ V := by
  rw [h.list_eq] at hnd
  have hcons := (List.nodup_append.mp hnd).2.1
  refine ⟨?_, (List.nodup_cons.mp hcons).1⟩
  intro hm
  exact (List.nodup_append.mp hnd).2.2 _ hm _ (List.mem_cons_self ..) rfl

/-- The place of the advancing job. -/
theorem idxOf_adv (h : Zones jobs q time adv frz P W Q V) (hnd : q.list.Nodup) :
    q.list.idxOf adv = P.length + W.length := by
  rw [h.list_eq, List.idxOf_append, if_neg (h.adv_notMem hnd).1, List.idxOf_cons_self,
    List.length_append, Nat.zero_add]

/-- **Jobs inserted or removed.**  Every job of a new zone is an old one of that zone, or meets what
    the zone says. -/
theorem of_zones (h : Zones jobs q time adv frz P W Q V) {q' : ScheduledJobQueue}
    {P' W' Q' V' : List JobId} (hl : q'.list = (P' ++ W') ++ adv :: (Q' ++ V'))
    (ht : q'.nextJobTime = q.nextJobTime) (hf : frz ∉ P' ++ W')
    (hP : ∀ j ∈ P', j ∈ P ∨ ((jobs j).systemJobClass = false → time < (jobs j).nextTics) ∧
      (time < (jobs j).nextTics → q.nextJobTime ≤ (jobs j).nextTics))
    (hW : ∀ j ∈ W', j ∈ W ∨ ((jobs j).systemJobClass = false → time ≤ (jobs j).nextTics))
    (hQ : ∀ j ∈ Q', j ∈ Q ∨ ((jobs j).systemJobClass = false → time < (jobs j).nextTics))
    (hV : ∀ j ∈ V', j ∈ V ∨ ((jobs j).systemJobClass = false → time ≤ (jobs j).nextTics)) :
    Zones jobs q' time adv frz P' W' Q' V' := by
  refine ⟨hl, hf, h.adv_next, ht ▸ h.cached, ?_, ?_, ?_, ?_, ?_⟩
  · intro j hj
    rcases hP j hj with h' | h'
    · exact h.passed j h'
    · exact h'.1
  · intro j hj
    rw [ht]
    rcases hP j hj with h' | h'
    · exact h.tracked j h'
    · exact h'.2
  · intro j hj
    rcases hW j hj with h' | h'
    · exact h.waiting j h'
    · exact h'
  · intro j hj
    rcases hQ j hj with h' | h'
    · exact h.quiet j h'
    · exact h'
  · intro j hj
    rcases hV j hj with h' | h'
    · exact h.pending j h'
    · exact h'

/-! ## Insertions -/

/-- A job inserted among the passed ones: due later, and not below the cached time. -/
theorem insert_passed (h : Zones jobs q time adv frz P W Q V) {q' : ScheduledJobQueue} {i : Nat}
    {x : JobId} (hl : q'.list = insertAt i x q.list) (ht : q'.nextJobTime = q.nextJobTime)
    (hf : x ≠ frz) (hi : i ≤ P.length) (hn : time < (jobs x).nextTics)
    (hle : q.nextJobTime ≤ (jobs x).nextTics) :
    Zones jobs q' time adv frz (insertAt i x P) W Q V := by
  refine h.of_zones ?_ ht ?_ ?_ (fun j hj => Or.inl hj) (fun j hj => Or.inl hj)
    (fun j hj => Or.inl hj)
  · rw [hl, h.list_eq, insertAt_append_left (by rw [List.length_append]; omega),
      insertAt_append_left hi]
  · have := h.freeze_tail
    simp only [List.mem_append, mem_insertAt] at this ⊢
    tauto
  · intro j hj
    rcases mem_insertAt.mp hj with rfl | hj
    · exact Or.inr ⟨fun _ => hn, fun _ => hle⟩
    · exact Or.inl hj

/-- A job inserted among the waiting ones: not due before now. -/
theorem insert_waiting (h : Zones jobs q time adv frz P W Q V) {q' : ScheduledJobQueue} {i : Nat}
    {x : JobId} (hl : q'.list = insertAt i x q.list) (ht : q'.nextJobTime = q.nextJobTime)
    (hf : x ≠ frz) (hlo : P.length ≤ i) (hhi : i ≤ P.length + W.length)
    (hn : time ≤ (jobs x).nextTics) :
    Zones jobs q' time adv frz P (insertAt (i - P.length) x W) Q V := by
  refine h.of_zones ?_ ht ?_ (fun j hj => Or.inl hj) ?_ (fun j hj => Or.inl hj)
    (fun j hj => Or.inl hj)
  · rw [hl, h.list_eq, insertAt_append_left (by rw [List.length_append]; omega),
      insertAt_append_right hlo]
  · have := h.freeze_tail
    simp only [List.mem_append, mem_insertAt] at this ⊢
    tauto
  · intro j hj
    rcases mem_insertAt.mp hj with rfl | hj
    · exact Or.inr fun _ => hn
    · exact Or.inl hj

/-- An insertion `k` places after the advancing job. -/
theorem list_insert_tail (h : Zones jobs q time adv frz P W Q V) {i k : Nat} {x : JobId}
    (hi : i = P.length + W.length + 1 + k) :
    insertAt i x q.list = (P ++ W) ++ adv :: insertAt k x (Q ++ V) := by
  have hk : i - (P ++ W).length = k + 1 := by rw [List.length_append]; omega
  rw [h.list_eq, insertAt_append_right (by rw [List.length_append]; omega), hk,
    insertAt_succ_cons]

/-- A job inserted among the quiet ones: due later. -/
theorem insert_quiet (h : Zones jobs q time adv frz P W Q V) {q' : ScheduledJobQueue} {i k : Nat}
    {x : JobId} (hl : q'.list = insertAt i x q.list) (ht : q'.nextJobTime = q.nextJobTime)
    (hi : i = P.length + W.length + 1 + k) (hk : k ≤ Q.length)
    (hn : time < (jobs x).nextTics) :
    Zones jobs q' time adv frz P W (insertAt k x Q) V := by
  refine h.of_zones ?_ ht h.freeze_tail (fun j hj => Or.inl hj) (fun j hj => Or.inl hj) ?_
    (fun j hj => Or.inl hj)
  · rw [hl, h.list_insert_tail hi, insertAt_append_left hk]
  · intro j hj
    rcases mem_insertAt.mp hj with rfl | hj
    · exact Or.inr fun _ => hn
    · exact Or.inl hj

/-- A job inserted among the pending ones: not due before now. -/
theorem insert_pending (h : Zones jobs q time adv frz P W Q V) {q' : ScheduledJobQueue}
    {i k : Nat} {x : JobId} (hl : q'.list = insertAt i x q.list)
    (ht : q'.nextJobTime = q.nextJobTime) (hi : i = P.length + W.length + 1 + k)
    (hk : Q.length ≤ k) (hn : time ≤ (jobs x).nextTics) :
    Zones jobs q' time adv frz P W Q (insertAt (k - Q.length) x V) := by
  refine h.of_zones ?_ ht h.freeze_tail (fun j hj => Or.inl hj) (fun j hj => Or.inl hj)
    (fun j hj => Or.inl hj) ?_
  · rw [hl, h.list_insert_tail hi, insertAt_append_right hk]
  · intro j hj
    rcases mem_insertAt.mp hj with rfl | hj
    · exact Or.inr fun _ => hn
    · exact Or.inl hj

/-! ## Removals -/

/-- **A job other than the advancing one removed**: it leaves its zone. -/
theorem erase (h : Zones jobs q time adv frz P W Q V) {q' : ScheduledJobQueue} {j : JobId}
    (hl : q'.list = q.list.erase j) (ht : q'.nextJobTime = q.nextJobTime)
    (hnd : q.list.Nodup) (hadv : j ≠ adv) :
    Zones jobs q' time adv frz (P.erase j) (W.erase j) (Q.erase j) (V.erase j) := by
  refine h.of_zones ?_ ht ?_ (fun k hk => Or.inl (List.mem_of_mem_erase hk))
    (fun k hk => Or.inl (List.mem_of_mem_erase hk)) (fun k hk => Or.inl (List.mem_of_mem_erase hk))
    (fun k hk => Or.inl (List.mem_of_mem_erase hk))
  · -- in a list without duplicates the job is taken out of every part
    have hall : ∀ l : List JobId, l.Nodup → l.erase j = l.filter (· != j) :=
      fun l hl => hl.erase_eq_filter j
    rw [h.list_eq] at hnd hl
    have hPW := (List.nodup_append.mp hnd).1
    have hQV := (List.nodup_cons.mp (List.nodup_append.mp hnd).2.1).2
    rw [hl, hall _ hnd, hall P (List.nodup_append.mp hPW).1, hall W (List.nodup_append.mp hPW).2.1,
      hall Q (List.nodup_append.mp hQV).1, hall V (List.nodup_append.mp hQV).2.1]
    simp only [List.filter_append, List.filter_cons]
    rw [if_pos (by simpa using fun he => hadv he.symm)]
  · have hsub : ∀ k ∈ P.erase j ++ W.erase j, k ∈ P ++ W := by
      intro k hk
      rcases List.mem_append.mp hk with hk | hk
      · exact List.mem_append_left _ (List.mem_of_mem_erase hk)
      · exact List.mem_append_right _ (List.mem_of_mem_erase hk)
    exact fun hk => h.freeze_tail (hsub _ hk)

/-! ## New call times -/

/-- The zones do not look at jobs outside the queue. -/
theorem congr (h : Zones jobs q time adv frz P W Q V) (hsame : ∀ j ∈ q.list, jobs' j = jobs j) :
    Zones jobs' q time adv frz P W Q V := by
  have hP : ∀ j ∈ P, jobs' j = jobs j := fun j hj => hsame j ((h.mem_list j).mpr (by tauto))
  have hW : ∀ j ∈ W, jobs' j = jobs j := fun j hj => hsame j ((h.mem_list j).mpr (by tauto))
  have hQ : ∀ j ∈ Q, jobs' j = jobs j := fun j hj => hsame j ((h.mem_list j).mpr (by tauto))
  have hV : ∀ j ∈ V, jobs' j = jobs j := fun j hj => hsame j ((h.mem_list j).mpr (by tauto))
  refine ⟨h.list_eq, h.freeze_tail, ?_, h.cached, ?_, ?_, ?_, ?_, ?_⟩
  · rw [hsame adv h.adv_mem]; exact h.adv_next
  · intro j hj; rw [hP j hj]; exact h.passed j hj
  · intro j hj; rw [hP j hj]; exact h.tracked j hj
  · intro j hj; rw [hW j hj]; exact h.waiting j hj
  · intro j hj; rw [hQ j hj]; exact h.quiet j hj
  · intro j hj; rw [hV j hj]; exact h.pending j hj

/-- **One job changed.**  Its new call time has to meet what its zone says. -/
theorem update (h : Zones jobs q time adv frz P W Q V) (j : JobId) (d : JobData)
    (hsys : d.systemJobClass = (jobs j).systemJobClass)
    (hadv : j = adv → d.nextTics = time)
    (hpass : j ∈ P → d.systemJobClass = false → time < d.nextTics)
    (htrack : j ∈ P → time < d.nextTics → q.nextJobTime ≤ d.nextTics)
    (hdue : d.systemJobClass = false → time ≤ (jobs j).nextTics → time ≤ d.nextTics)
    (hlater : d.systemJobClass = false → time < (jobs j).nextTics → time < d.nextTics) :
    Zones (Function.update jobs j d) q time adv frz P W Q V := by
  refine ⟨h.list_eq, h.freeze_tail, ?_, h.cached, ?_, ?_, ?_, ?_, ?_⟩
  · by_cases hj : adv = j
    · subst hj; rw [Function.update_self]; exact hadv rfl
    · rw [Function.update_of_ne hj]; exact h.adv_next
  all_goals
    intro k hk
    by_cases hkj : k = j
    · subst hkj
      rw [Function.update_self]
      first
        | exact hpass hk
        | exact htrack hk
        | (intro hs; exact hdue hs (h.waiting k hk (hsys ▸ hs)))
        | (intro hs; exact hlater hs (h.quiet k hk (hsys ▸ hs)))
        | (intro hs; exact hdue hs (h.pending k hk (hsys ▸ hs)))
    · rw [Function.update_of_ne hkj]
      first
        | exact h.passed k hk
        | exact h.tracked k hk
        | exact h.waiting k hk
        | exact h.quiet k hk
        | exact h.pending k hk

/-- A job that reschedules itself may take any call time unless the cached time depends on it. -/
theorem update_system (h : Zones jobs q time adv frz P W Q V) {j : JobId} (n : Int)
    (hsys : (jobs j).systemJobClass = true) (hadv : j ≠ adv) (hP : j ∉ P) :
    Zones (Function.update jobs j { jobs j with nextTics := n }) q time adv frz P W Q V := by
  refine h.update j _ rfl (fun he => absurd he hadv) (fun hj => absurd hj hP)
    (fun hj => absurd hj hP) ?_ ?_
  · intro hs; simp only [hsys, Bool.true_eq_false] at hs
  · intro hs; simp only [hsys, Bool.true_eq_false] at hs

/-- The cached time may go down to any later tic. -/
theorem lower_cached (h : Zones jobs q time adv frz P W Q V) {q' : ScheduledJobQueue}
    (hl : q'.list = q.list) (hle : q'.nextJobTime ≤ q.nextJobTime) (ht : time < q'.nextJobTime) :
    Zones jobs q' time adv frz P W Q V := by
  refine ⟨hl ▸ h.list_eq, h.freeze_tail, h.adv_next, ht, h.passed, ?_, h.waiting, h.quiet,
    h.pending⟩
  intro j hj hn
  exact le_trans hle (h.tracked j hj hn)

/-- The cursor is no matter of the zones. -/
theorem of_queue (h : Zones jobs q time adv frz P W Q V) {q' : ScheduledJobQueue}
    (hl : q'.list = q.list) (ht : q'.nextJobTime = q.nextJobTime) :
    Zones jobs q' time adv frz P W Q V :=
  h.lower_cached hl (le_of_eq ht) (ht ▸ h.cached)

/-- **A system job of `P` takes a new call time and is tested**, as after its call. -/
theorem update_tested (h : Zones jobs q time adv frz P W Q V) {j : JobId} (n : Int)
    (hsys : (jobs j).systemJobClass = true) (hadv : j ≠ adv) :
    Zones (Function.update jobs j { jobs j with nextTics := n })
      (q.testNextJobCallTime { jobs j with nextTics := n } time) time adv frz P W Q V := by
  obtain ⟨hle, hlt, htest, _⟩ := q.testNextJobCallTime_spec { jobs j with nextTics := n } time
  refine (h.lower_cached (by simp) hle (hlt h.cached)).update j _ rfl
    (fun he => absurd he hadv) ?_ (fun _ => htest) ?_ ?_
  all_goals
    intros
    simp only [hsys, Bool.true_eq_false] at *

/-! ## Scans -/

/-- The store after a scan of some jobs, seen from the jobs that were not scanned. -/
theorem visitAll_of_disjoint {l : List JobId} (h : Zones jobs q time adv frz P W Q V)
    (hdis : ∀ j ∈ l, j ∉ q.list) (t : Int) : Zones (visitAll t l jobs) q time adv frz P W Q V :=
  h.congr fun j hj => visitAll_of_notMem fun hl => hdis j hl hj

/-- What the scan of jobs that are due now or later does to the cached time. -/
theorem trackAll_gt {l : List JobId} (ht : time < maxLongLong) (hc : time < q.nextJobTime)
    (hdue : ∀ j ∈ l, (jobs j).systemJobClass = false →
      1 ≤ (jobs j).cycleTics ∨ (jobs j).nextTics = maxLongLong) :
    time < trackAll time l jobs q.nextJobTime := by
  rcases trackAll_attained time l jobs q.nextJobTime with h | ⟨j, hj, h, hle, hns⟩
  · omega
  · rw [h]
    by_cases hn : (jobs j).nextTics = time
    · exact JobData.visited_gt ht (hdue j hj (hns hn)) (hns hn) hle
    · rw [JobData.visited_of_ne hn]; omega

/-- **The walk over the head**: waiting jobs become passed ones. -/
theorem scan_head {mid rest : List JobId} (h : Zones jobs q time adv frz P (mid ++ rest) Q V)
    (hnd : q.list.Nodup) (hsys : (jobs adv).systemJobClass = true) (ht : time < maxLongLong)
    (hcyc : ∀ j ∈ mid, (jobs j).systemJobClass = false →
      1 ≤ (jobs j).cycleTics ∨ (jobs j).nextTics = maxLongLong)
    {q' : ScheduledJobQueue} {scanned : List JobId} (hsc : scanned = mid ∨ scanned = mid ++ [adv])
    (hl : q'.list = q.list)
    (hq : q'.nextJobTime = trackAll time scanned jobs q.nextJobTime) :
    Zones (visitAll time scanned jobs) q' time adv frz (P ++ mid) rest Q V := by
  have hmem : ∀ j, j ∈ scanned → j ∈ mid ∨ j = adv := by
    intro j hj
    rcases hsc with rfl | rfl
    · exact Or.inl hj
    · simpa using hj
  have hsub : ∀ j ∈ mid, j ∈ scanned := by
    intro j hj
    rcases hsc with rfl | rfl
    · exact hj
    · exact List.mem_append_left _ hj
  have hadv := h.adv_notMem hnd
  rw [h.list_eq] at hnd
  have hPmid : ∀ j ∈ P, j ∉ mid := by
    intro j hj hm
    have := (List.nodup_append.mp (List.nodup_append.mp hnd).1).2.2
    exact this j hj j (List.mem_append_left _ hm) rfl
  have hmidrest : ∀ j ∈ rest, j ∉ mid := by
    intro j hj hm
    have := (List.nodup_append.mp (List.nodup_append.mp hnd).1).2.1
    exact (List.nodup_append.mp this).2.2 j hm j hj rfl
  have hQV : ∀ j ∈ Q ++ V, j ∉ mid := by
    intro j hj hm
    exact (List.nodup_append.mp hnd).2.2 j (by simp [hm]) j (List.mem_cons_of_mem _ hj) rfl
  have hadvV : visitAll time scanned jobs adv = jobs adv := by
    unfold visitAll
    split
    · exact JobData.visited_of_system hsys
    · rfl
  have hsame : ∀ j, j ∉ mid → j ≠ adv → visitAll time scanned jobs j = jobs j := by
    intro j hj hja
    refine visitAll_of_notMem fun hs => ?_
    rcases hmem j hs with hm | he
    · exact hj hm
    · exact hja he
  have hvis : ∀ j ∈ mid, visitAll time scanned jobs j = (jobs j).visited time :=
    fun j hj => visitAll_of_mem (hsub j hj)
  have hPadv : ∀ j ∈ P, j ≠ adv := fun j hj he => hadv.1 (he ▸ List.mem_append_left _ hj)
  have hgt : time < trackAll time scanned jobs q.nextJobTime := by
    refine trackAll_gt ht h.cached ?_
    intro j hj hs
    rcases hmem j hj with hm | he
    · exact hcyc j hm hs
    · rw [he, hsys] at hs; cases hs
  refine ⟨?_, ?_, ?_, hq ▸ hgt, ?_, ?_, ?_, ?_, ?_⟩
  · rw [hl, h.list_eq, List.append_assoc P mid rest]
  · rw [List.append_assoc]; exact h.freeze_tail
  · rw [hadvV]; exact h.adv_next
  · intro j hj hs
    rcases List.mem_append.mp hj with hp | hm
    · rw [hsame j (hPmid j hp) (hPadv j hp)] at hs ⊢
      exact h.passed j hp hs
    · rw [hvis j hm] at hs ⊢
      rw [JobData.visited_systemJobClass] at hs
      exact JobData.visited_gt ht (hcyc j hm hs) hs
        (h.waiting j (List.mem_append_left _ hm) hs)
  · intro j hj hn
    rw [hq]
    rcases List.mem_append.mp hj with hp | hm
    · rw [hsame j (hPmid j hp) (hPadv j hp)] at hn ⊢
      exact le_trans (trackAll_le _ _ _ _) (h.tracked j hp hn)
    · rw [hvis j hm] at hn ⊢
      exact trackAll_le_visited (hsub j hm) hn _
  · intro j hj
    have hja : j ≠ adv := fun he => hadv.1 (he ▸ by simp [hj])
    rw [hsame j (hmidrest j hj) hja]
    exact h.waiting j (List.mem_append_right _ hj)
  · intro j hj
    have hja : j ≠ adv := fun he => hadv.2 (he ▸ List.mem_append_left _ hj)
    rw [hsame j (hQV j (List.mem_append_left _ hj)) hja]
    exact h.quiet j hj
  · intro j hj
    have hja : j ≠ adv := fun he => hadv.2 (he ▸ List.mem_append_right _ hj)
    rw [hsame j (hQV j (List.mem_append_right _ hj)) hja]
    exact h.pending j hj

/-- **The walk over the tail**: pending jobs become quiet ones. -/
theorem scan_tail {mid rest : List JobId} (h : Zones jobs q time adv frz [] W Q (mid ++ rest))
    (hnd : q.list.Nodup) (ht : time < maxLongLong)
    (hcyc : ∀ j ∈ mid, (jobs j).systemJobClass = false →
      1 ≤ (jobs j).cycleTics ∨ (jobs j).nextTics = maxLongLong)
    {q' : ScheduledJobQueue} (hl : q'.list = q.list)
    (hq : q'.nextJobTime = trackAll time mid jobs q.nextJobTime) :
    Zones (visitAll time mid jobs) q' time adv frz [] W (Q ++ mid) rest := by
  have hadv := h.adv_notMem hnd
  rw [h.list_eq] at hnd
  simp only [List.nil_append] at hnd hadv
  have hcons := (List.nodup_append.mp hnd).2.1
  have hQV := (List.nodup_cons.mp hcons).2
  have hW : ∀ j ∈ W, j ∉ mid := by
    intro j hj hm
    exact (List.nodup_append.mp hnd).2.2 j hj j (by simp [hm]) rfl
  have hQ : ∀ j ∈ Q, j ∉ mid := by
    intro j hj hm
    exact (List.nodup_append.mp hQV).2.2 j hj j (List.mem_append_left _ hm) rfl
  have hrest : ∀ j ∈ rest, j ∉ mid := by
    intro j hj hm
    exact (List.nodup_append.mp (List.nodup_append.mp hQV).2.1).2.2 j hm j hj rfl
  have hadvmid : adv ∉ mid := fun hm => hadv.2 (by simp [hm])
  refine ⟨?_, h.freeze_tail, ?_, ?_, ?_, ?_, ?_, ?_, ?_⟩
  · rw [hl, h.list_eq, List.append_assoc Q mid rest]
  · rw [visitAll_of_notMem hadvmid]; exact h.adv_next
  · rw [hq]; exact trackAll_gt ht h.cached hcyc
  · intro j hj; cases hj
  · intro j hj; cases hj
  · intro j hj
    rw [visitAll_of_notMem (hW j hj)]
    exact h.waiting j hj
  · intro j hj hs
    rcases List.mem_append.mp hj with hjQ | hm
    · rw [visitAll_of_notMem (hQ j hjQ)] at hs ⊢
      exact h.quiet j hjQ hs
    · rw [visitAll_of_mem hm] at hs ⊢
      rw [JobData.visited_systemJobClass] at hs
      exact JobData.visited_gt ht (hcyc j hm hs) hs (h.pending j (List.mem_append_left _ hm) hs)
  · intro j hj
    rw [visitAll_of_notMem (hrest j hj)]
    exact h.pending j (List.mem_append_right _ hj)

/-! ## The beginning and the end of a pass -/

/-- The cursor goes back: every job of the head is waiting and every job of the tail is quiet, as
    between the passes. -/
theorem advance (h : Zones jobs q time adv frz P [] Q []) {time' : Int} {q' : ScheduledJobQueue}
    (hl : q'.list = q.list) (hnd : q.list.Nodup) (hc : time' < q'.nextJobTime)
    (hhead : ∀ j ∈ P, (jobs j).systemJobClass = false → time' ≤ (jobs j).nextTics)
    (htail : ∀ j ∈ Q, (jobs j).systemJobClass = false → time' ≤ (jobs j).nextTics) :
    Zones (Function.update jobs adv { jobs adv with nextTics := time' }) q' time' adv frz
      [] P [] Q := by
  have hadv := h.adv_notMem hnd
  have hne : ∀ j, j ∈ P ∨ j ∈ Q → j ≠ adv := by
    rintro j hj rfl
    rcases hj with hj | hj
    · exact hadv.1 (by simp [hj])
    · exact hadv.2 (by simp [hj])
  refine ⟨?_, ?_, ?_, hc, ?_, ?_, ?_, ?_, ?_⟩
  · rw [hl, h.list_eq]; simp
  · have := h.freeze_tail; simpa using this
  · rw [Function.update_self]
  · intro j hj; cases hj
  · intro j hj; cases hj
  · intro j hj
    rw [Function.update_of_ne (hne j (Or.inl hj))]
    exact hhead j hj
  · intro j hj; cases hj
  · intro j hj
    rw [Function.update_of_ne (hne j (Or.inr hj))]
    exact htail j hj

end Zones

end Trick.Exec
