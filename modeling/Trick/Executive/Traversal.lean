/-
  A pass over a `ScheduledJobQueue` whose jobs push and remove jobs.

  1. Data.  `Pass`: the jobs, the queue with its cursor, and the jobs returned so far.
  2. Program.  `Pass.step`: the loop asks for the next job — `find_next_job(t)` or `get_next_job` —
     and a job that was returned calls `push`, `push_ignore_sim_object` and `remove`, any number of
     times, before the loop asks again.
  3. Specification.  A job that is enabled and due when the pass starts and stays in the queue is
     returned exactly once; a removed job is not returned; the cursor stays in the list.
  4. Result.  `Split` cuts the list at the cursor, and each operation moves the cut or changes one
     side of it.  `push` is right wherever it lands.  `remove` is right except for the job at the
     cursor: the cursor is the index of the next job, not of the running one, and `ii <= curr_index`
     moves it back all the same.  `Keeps` says which removals do no harm.
-/
import Trick.Executive.QueueOrder

namespace Trick.Exec

open Trick.Lib

/-! ## The pass -/

/-- The call that the loop of the pass makes. -/
inductive Scan where
  | getNextJob
  | findNextJob (t : Int)
deriving DecidableEq, Repr

/-- The job that the call returns, the jobs and the queue after it. -/
def Scan.next (jobs : JobHeap) (q : ScheduledJobQueue) :
    Scan → Option JobId × JobHeap × ScheduledJobQueue
  | .getNextJob => ((q.getNextJob jobs).1, jobs, (q.getNextJob jobs).2)
  | .findNextJob t =>
    let r := q.findNextJob t jobs
    (r.job, r.jobs, { q with currIndex := r.currIndex, nextJobTime := r.nextJobTime })

/-- What the scan stops at. -/
def Scan.Found (j : JobData) : Scan → Prop
  | .getNextJob => j.disabled = false
  | .findNextJob t => j.Due t

instance (j : JobData) : (scan : Scan) → Decidable (scan.Found j)
  | .getNextJob => inferInstanceAs (Decidable (j.disabled = false))
  | .findNextJob t => inferInstanceAs (Decidable (j.Due t))

/-- A call on the queue from a job. -/
def ScheduledJobQueue.call (jobs : JobHeap) (q : ScheduledJobQueue) : QueueCall → ScheduledJobQueue
  | .push j => q.push jobs j
  | .pushIgnoreSimObject j => q.pushIgnoreSimObject jobs j
  | .remove j => q.remove j

/-- A turn of the loop, or a call on the queue. -/
inductive PassEvent where
  | next
  | call (c : QueueCall)
deriving DecidableEq, Repr

structure Pass where
  jobs : JobHeap
  queue : ScheduledJobQueue
  /-- The jobs returned so far. -/
  returned : List JobId := []
  /-- The scan returned `NULL` and the loop was left. -/
  ended : Bool := false

/-- One event. -/
def Pass.step (scan : Scan) (p : Pass) : PassEvent → Pass
  | .next =>
    if p.ended = true then p
    else
      let r := scan.next p.jobs p.queue
      { jobs := r.2.1
        queue := r.2.2
        returned := p.returned ++ r.1.toList
        ended := r.1.isNone }
  | .call c => { p with queue := p.queue.call p.jobs c }

/-- **When an event does no harm.**  A job is pushed only while it is not in the queue, and there is
    room for its index; a job at the cursor is removed only when the one in front of it would not
    be found again. -/
def Keeps (scan : Scan) (p : Pass) : PassEvent → Prop
  | .call (.remove j) =>
    p.queue.list[p.queue.currIndex]? = some j →
      ∃ i ∈ p.queue.list[p.queue.currIndex - 1]?, p.queue.currIndex ≠ 0 ∧ ¬ scan.Found (p.jobs i)
  | .call (.push j) => j ∉ p.queue.list ∧ p.queue.list.length + 1 < uintSize
  | .call (.pushIgnoreSimObject j) => j ∉ p.queue.list ∧ p.queue.list.length + 1 < uintSize
  | .next => True

/-! ## The cut at the cursor -/

/-- The list cut at the cursor: what the scan has passed and what it has not. -/
structure Split (q : ScheduledJobQueue) (passed ahead : List JobId) : Prop where
  list_eq : q.list = passed ++ ahead
  cursor : q.currIndex = passed.length
  nodup : q.list.Nodup

namespace Split

variable {q : ScheduledJobQueue} {passed ahead : List JobId}

theorem drop_eq (h : Split q passed ahead) : q.list.drop q.currIndex = ahead := by
  rw [h.list_eq, h.cursor, List.drop_left]

theorem cursor_le (h : Split q passed ahead) : q.currIndex ≤ q.list.length := by
  rw [h.cursor, h.list_eq, List.length_append]
  omega

theorem of_cursor_le (hc : q.currIndex ≤ q.list.length) (hnd : q.list.Nodup) :
    Split q (q.list.take q.currIndex) (q.list.drop q.currIndex) := by
  refine ⟨(List.take_append_drop _ _).symm, ?_, hnd⟩
  rw [List.length_take]
  omega

theorem notMem_ahead (h : Split q passed ahead) {j : JobId} (hj : j ∈ passed) : j ∉ ahead := by
  have hnd := h.nodup
  rw [h.list_eq] at hnd
  intro hm
  exact (List.nodup_append.mp hnd).2.2 j hj j hm rfl

/-- **A push**: the job goes to one of the sides, and the cut stays where it was. -/
theorem push (h : Split q passed ahead) (jobs : JobHeap) {j : JobId} (hj : j ∉ q.list)
    (hroom : q.list.length + 1 < uintSize) :
    (∃ passed', Split (q.push jobs j) passed' ahead ∧ ∀ i, i ∈ passed' ↔ i = j ∨ i ∈ passed) ∨
    ∃ ahead', Split (q.push jobs j) passed ahead' ∧ ∀ i, i ∈ ahead' ↔ i = j ∨ i ∈ ahead := by
  have hle := h.cursor_le
  have hnd : (q.push jobs j).list.Nodup := nodup_insertAt hj h.nodup
  by_cases hlt : q.insertIndex jobs j < q.currIndex
  · -- in front of the cursor, which moves on with the jobs behind the new one
    refine Or.inl ⟨insertAt (q.insertIndex jobs j) j passed, ⟨?_, ?_, hnd⟩, fun i => mem_insertAt⟩
    · rw [push_list, h.list_eq, insertAt_append_left (by rw [← h.cursor]; omega)]
    · show (if q.insertIndex jobs j < q.currIndex then (q.currIndex + 1) % uintSize
        else q.currIndex) = _
      rw [if_pos hlt, Nat.mod_eq_of_lt (by omega), length_insertAt, h.cursor]
  · refine Or.inr ⟨insertAt (q.insertIndex jobs j - passed.length) j ahead, ⟨?_, ?_, hnd⟩,
      fun i => mem_insertAt⟩
    · rw [push_list, h.list_eq, insertAt_append_right (by rw [← h.cursor]; omega)]
    · show (if q.insertIndex jobs j < q.currIndex then (q.currIndex + 1) % uintSize
        else q.currIndex) = _
      rw [if_neg hlt, h.cursor]

/-- A removal of a job that was passed. -/
theorem remove_passed (h : Split q passed ahead) {j : JobId} (hj : j ∈ passed) :
    Split (q.remove j) (passed.erase j) ahead := by
  have hidx : q.list.idxOf j < passed.length := by
    rw [h.list_eq, List.idxOf_append_of_mem hj]
    exact List.idxOf_lt_length_of_mem hj
  have hmem : j ∈ q.list := h.list_eq ▸ List.mem_append_left _ hj
  refine ⟨?_, ?_, remove_list q j ▸ h.nodup.erase j⟩
  · rw [remove_list, h.list_eq, List.erase_append_left _ hj]
  · have hcur := h.cursor
    rw [List.length_erase_of_mem hj]
    unfold ScheduledJobQueue.remove
    rw [if_pos hmem]
    show (if q.list.idxOf j ≤ q.currIndex then
      if q.currIndex = 0 then uintSize - 1 else q.currIndex - 1 else q.currIndex) = _
    rw [if_pos (by omega), if_neg (by omega), hcur]

/-- A removal of a job that is ahead, but not the next one. -/
theorem remove_ahead (h : Split q passed ahead) {i j : JobId} {rest : List JobId}
    (hahead : ahead = i :: rest) (hj : j ∈ rest) :
    Split (q.remove j) passed (i :: rest.erase j) := by
  have hnd := h.nodup
  rw [h.list_eq, hahead] at hnd
  have hij : i ≠ j := by
    rintro rfl
    exact (List.nodup_cons.mp (List.nodup_append.mp hnd).2.1).1 hj
  have hpassed : j ∉ passed := by
    intro hp
    exact (List.nodup_append.mp hnd).2.2 j hp j (List.mem_cons_of_mem _ hj) rfl
  have hidx : q.list.idxOf j = passed.length + (rest.idxOf j + 1) := by
    rw [h.list_eq, hahead, List.idxOf_append_of_notMem hpassed, List.idxOf_cons_ne _ hij]
  have hmem : j ∈ q.list := by
    rw [h.list_eq, hahead]; exact List.mem_append_right _ (List.mem_cons_of_mem _ hj)
  refine ⟨?_, ?_, remove_list q j ▸ h.nodup.erase j⟩
  · rw [remove_list, h.list_eq, hahead, List.erase_append_right _ hpassed,
      List.erase_cons_tail (by simpa using hij)]
  · have hcur := h.cursor
    unfold ScheduledJobQueue.remove
    rw [if_pos hmem]
    show (if q.list.idxOf j ≤ q.currIndex then
      if q.currIndex = 0 then uintSize - 1 else q.currIndex - 1 else q.currIndex) = _
    rw [if_neg (by omega), hcur]

/-- **A removal of the job at the cursor** puts the job in front of it ahead again. -/
theorem remove_next {front : List JobId} {i j : JobId} {rest : List JobId}
    (h : Split q (front ++ [i]) (j :: rest)) : Split (q.remove j) front (i :: rest) := by
  have hpassed : j ∉ front ++ [i] := fun hp => h.notMem_ahead hp (List.mem_cons_self ..)
  have hidx : q.list.idxOf j = (front ++ [i]).length := by
    rw [h.list_eq, List.idxOf_append_of_notMem hpassed, List.idxOf_cons_self, Nat.add_zero]
  have hmem : j ∈ q.list := by
    rw [h.list_eq]; exact List.mem_append_right _ (List.mem_cons_self ..)
  refine ⟨?_, ?_, remove_list q j ▸ h.nodup.erase j⟩
  · rw [remove_list, h.list_eq, List.erase_append_right _ hpassed, List.erase_cons_head,
      List.append_assoc, List.singleton_append]
  · have hcur := h.cursor
    rw [List.length_append, List.length_singleton] at hcur hidx
    unfold ScheduledJobQueue.remove
    rw [if_pos hmem]
    show (if q.list.idxOf j ≤ q.currIndex then
      if q.currIndex = 0 then uintSize - 1 else q.currIndex - 1 else q.currIndex) = _
    rw [if_pos (by omega), if_neg (by omega)]
    omega

/-- A removal of a job that is not in the queue. -/
theorem remove_absent (h : Split q passed ahead) {j : JobId} (hj : j ∉ q.list) :
    Split (q.remove j) passed ahead := by
  unfold ScheduledJobQueue.remove
  rw [if_neg hj]
  exact h

end Split

/-! ## A turn of the loop -/

theorem getNextJobLoop_spec (jobs : JobHeap) :
    ∀ (todo : List JobId) (k : Nat), ∃ mid rest, todo = mid ++ rest ∧
      (ScheduledJobQueue.getNextJobLoop jobs todo k).2 = k + mid.length ∧
      (((ScheduledJobQueue.getNextJobLoop jobs todo k).1 = none ∧ rest = [] ∧
          ∀ i ∈ mid, ¬ (jobs i).disabled = false) ∨
        ∃ pre j, mid = pre ++ [j] ∧
          (ScheduledJobQueue.getNextJobLoop jobs todo k).1 = some j ∧
          (jobs j).disabled = false ∧ ∀ i ∈ pre, ¬ (jobs i).disabled = false) := by
  intro todo
  induction todo with
  | nil =>
    intro k
    exact ⟨[], [], rfl, rfl, Or.inl ⟨rfl, rfl, fun i hi => (nomatch hi)⟩⟩
  | cons j todo ih =>
    intro k
    unfold ScheduledJobQueue.getNextJobLoop
    by_cases hen : (jobs j).disabled = false
    · -- the loop stops here
      rw [if_pos hen]
      exact ⟨[j], todo, rfl, rfl, Or.inr ⟨[], j, rfl, rfl, hen, fun i hi => (nomatch hi)⟩⟩
    · rw [if_neg hen]
      obtain ⟨mid, rest, hsplit, hidx, hres⟩ := ih (k + 1)
      refine ⟨j :: mid, rest, by rw [hsplit]; rfl, by rw [hidx, List.length_cons]; omega, ?_⟩
      rcases hres with ⟨hnone, hrest, hnot⟩ | ⟨pre, i, hmid, hsome, hi, hnot⟩
      · exact Or.inl ⟨hnone, hrest, List.forall_mem_cons.mpr ⟨hen, hnot⟩⟩
      · exact Or.inr ⟨j :: pre, i, by rw [hmid]; rfl, hsome, hi,
          List.forall_mem_cons.mpr ⟨hen, hnot⟩⟩

/-- What is not found stays so when a scan passes it. -/
theorem not_due_visited {t : Int} {j : JobData} (h : ¬ j.Due t) : ¬ (j.visited t).Due t := by
  by_cases hn : j.nextTics = t
  · intro hd
    exact h ⟨hn, JobData.visited_disabled t j ▸ hd.2⟩
  · rw [JobData.visited_of_ne hn]
    exact h

/-- **Spec of a turn**, for both scans.  The jobs ahead split into those that the call has passed and
    those that it has not looked at; the job returned is the last of the former and the only one
    of them that is found.  A job that was not passed is as before, and none becomes one that is
    found. -/
theorem Split.next {q : ScheduledJobQueue} {passed ahead : List JobId} (h : Split q passed ahead)
    (jobs : JobHeap) (scan : Scan) :
    ∃ mid rest, ahead = mid ++ rest ∧
      Split (scan.next jobs q).2.2 (passed ++ mid) rest ∧
      (scan.next jobs q).2.2.list = q.list ∧
      (∀ i, i ∉ mid → (scan.next jobs q).2.1 i = jobs i) ∧
      (∀ i, ¬ scan.Found (jobs i) → ¬ scan.Found ((scan.next jobs q).2.1 i)) ∧
      (((scan.next jobs q).1 = none ∧ rest = [] ∧ ∀ i ∈ mid, ¬ scan.Found (jobs i)) ∨
        ∃ pre j, mid = pre ++ [j] ∧ (scan.next jobs q).1 = some j ∧ scan.Found (jobs j) ∧
          ∀ i ∈ pre, ¬ scan.Found (jobs i)) := by
  have hdrop := h.drop_eq
  have hcur := h.cursor
  have hlist := h.list_eq
  cases scan with
  | getNextJob =>
    show ∃ mid rest, ahead = mid ++ rest ∧ Split (q.getNextJob jobs).2 (passed ++ mid) rest ∧
      (q.getNextJob jobs).2.list = q.list ∧ (∀ i, i ∉ mid → jobs i = jobs i) ∧ _
    by_cases hend : q.list.length ≤ q.currIndex
    · -- nothing is ahead
      have hnil : ahead = [] := by rw [← hdrop]; exact List.drop_of_length_le hend
      have hres : q.getNextJob jobs = (none, { q with currIndex := q.list.length }) := by
        unfold ScheduledJobQueue.getNextJob; rw [if_pos hend]
      refine ⟨[], [], hnil, ⟨?_, ?_, ?_⟩, ?_, fun _ _ => rfl, fun _ hn => hn, Or.inl ⟨?_, rfl, ?_⟩⟩
      · rw [hres, List.append_nil, List.append_nil, ← List.append_nil passed, ← hnil]
        exact hlist
      · rw [hres, List.append_nil]
        show q.list.length = _
        rw [hlist, hnil, List.append_nil]
      · rw [hres]; exact h.nodup
      · rw [hres]
      · show (q.getNextJob jobs).1 = none
        rw [hres]
      · intro i hi; exact (nomatch hi)
    · obtain ⟨mid, rest, hsplit, hidx, hres⟩ := getNextJobLoop_spec jobs ahead q.currIndex
      have hget : q.getNextJob jobs =
          ((ScheduledJobQueue.getNextJobLoop jobs ahead q.currIndex).1,
            { q with currIndex :=
                (ScheduledJobQueue.getNextJobLoop jobs ahead q.currIndex).2 }) := by
        unfold ScheduledJobQueue.getNextJob; rw [if_neg hend, hdrop]
      refine ⟨mid, rest, hsplit, ⟨?_, ?_, ?_⟩, ?_, fun _ _ => rfl, fun _ hn => hn, ?_⟩
      · rw [hget, List.append_assoc, ← hsplit]; exact hlist
      · rw [hget, List.length_append, ← hcur]; exact hidx
      · rw [hget]; exact h.nodup
      · rw [hget]
      · show (((q.getNextJob jobs).1 = none ∧ _) ∨ ∃ pre j, _ ∧ (q.getNextJob jobs).1 = some j ∧ _)
        rw [hget]
        exact hres
  | findNextJob t =>
    have hnd : ahead.Nodup := by
      have hnd := h.nodup
      rw [hlist] at hnd
      exact (List.nodup_append.mp hnd).2.1
    obtain ⟨mid, rest, hsplit, hidx, hjobs, -, hres⟩ :=
      findNextJobLoop_spec t ahead jobs q.currIndex q.nextJobTime hnd
    have hfind : q.findNextJob t jobs = findNextJobLoop t ahead jobs q.currIndex q.nextJobTime := by
      unfold ScheduledJobQueue.findNextJob; rw [hdrop]
    rw [← hfind] at hidx hjobs hres
    refine ⟨mid, rest, hsplit, ⟨?_, ?_, h.nodup⟩, rfl, ?_, ?_, hres⟩
    · show q.list = _
      rw [List.append_assoc, ← hsplit, hlist]
    · show (q.findNextJob t jobs).currIndex = _
      rw [hidx, List.length_append, hcur]
    · intro i hi
      show (q.findNextJob t jobs).jobs i = _
      rw [hjobs, visitAll_of_notMem hi]
    · intro i hn
      show ¬ ((q.findNextJob t jobs).jobs i).Due t
      rw [hjobs]
      by_cases hi : i ∈ mid
      · rw [visitAll_of_mem hi]; exact not_due_visited hn
      · rw [visitAll_of_notMem hi]; exact hn

/-! ## A call of a job -/

/-- The job that a call puts into the queue. -/
def QueueCall.added : QueueCall → Option JobId
  | .push j => some j
  | .pushIgnoreSimObject j => some j
  | .remove _ => none

/-- **What a call does to the cut.**  The jobs ahead stay ahead, except for the one removed; only the
    one added and jobs that would not be found again come in. -/
structure Moves (scan : Scan) (jobs : JobHeap) (c : QueueCall) (ahead ahead' : List JobId) : Prop where
  stays : ∀ i ∈ ahead, c ≠ .remove i → i ∈ ahead'
  comes : ∀ i ∈ ahead', c.added ≠ some i → i ∈ ahead ∨ ¬ scan.Found (jobs i)

theorem Moves.same (scan : Scan) (jobs : JobHeap) (c : QueueCall) (ahead : List JobId) :
    Moves scan jobs c ahead ahead :=
  ⟨fun _ hi _ => hi, fun _ hi _ => Or.inl hi⟩

variable {scan : Scan} {p : Pass} {passed ahead : List JobId}

theorem push_moves (h : Split p.queue passed ahead) {c : QueueCall} {keys : JobHeap} {j : JobId}
    (hc : c.added = some j) (hj : j ∉ p.queue.list) (hroom : p.queue.list.length + 1 < uintSize) :
    ∃ passed' ahead', Split (p.queue.push keys j) passed' ahead' ∧
      Moves scan p.jobs c ahead ahead' := by
  rcases h.push keys hj hroom with ⟨passed', hs, -⟩ | ⟨ahead', hs, hmem⟩
  · exact ⟨passed', ahead, hs, Moves.same scan p.jobs c ahead⟩
  · refine ⟨passed, ahead', hs, ?_, ?_⟩
    · intro i hi _
      exact (hmem i).mpr (Or.inr hi)
    · intro i hi hne
      rcases (hmem i).mp hi with rfl | hi
      · exact absurd hc hne
      · exact Or.inl hi

theorem remove_moves (h : Split p.queue passed ahead) {j : JobId}
    (hok : Keeps scan p (.call (.remove j))) :
    ∃ passed' ahead', Split (p.queue.remove j) passed' ahead' ∧
      Moves scan p.jobs (.remove j) ahead ahead' := by
  by_cases hj : j ∈ p.queue.list
  · rw [h.list_eq] at hj
    rcases List.mem_append.mp hj with hp | ha
    · exact ⟨_, ahead, h.remove_passed hp, Moves.same ..⟩
    · cases ahead with
      | nil => exact (nomatch ha)
      | cons k rest =>
        by_cases hkj : k = j
        · -- the job at the cursor: the one in front of it comes back
          subst hkj
          have hat : p.queue.list[p.queue.currIndex]? = some k := by
            rw [h.list_eq, h.cursor, List.getElem?_append_right (le_refl _), Nat.sub_self]
            rfl
          obtain ⟨i, hi, hpos, hnot⟩ := hok hat
          rcases List.eq_nil_or_concat passed with hnil | ⟨front, i', hpassed⟩
          · rw [h.cursor, hnil] at hpos
            exact absurd rfl hpos
          · rw [List.concat_eq_append] at hpassed
            subst hpassed
            have hii : i' = i := by
              rw [h.list_eq, h.cursor, List.length_append, List.length_singleton,
                Nat.add_sub_cancel, List.append_assoc,
                List.getElem?_append_right (le_refl _), Nat.sub_self] at hi
              exact Option.some.inj hi
            subst hii
            refine ⟨front, i' :: rest, h.remove_next, ?_, ?_⟩
            · intro m hm hne
              rcases List.mem_cons.mp hm with rfl | hm
              · exact absurd rfl hne
              · exact List.mem_cons_of_mem _ hm
            · intro m hm _
              rcases List.mem_cons.mp hm with rfl | hm
              · exact Or.inr hnot
              · exact Or.inl (List.mem_cons_of_mem _ hm)
        · -- further on
          have hr : j ∈ rest := by
            rcases List.mem_cons.mp ha with rfl | hr
            · exact absurd rfl hkj
            · exact hr
          refine ⟨passed, k :: rest.erase j, h.remove_ahead rfl hr, ?_, ?_⟩
          · intro m hm hne
            rcases List.mem_cons.mp hm with rfl | hm
            · exact List.mem_cons_self ..
            · have hmj : m ≠ j := by rintro rfl; exact hne rfl
              exact List.mem_cons_of_mem _ ((List.mem_erase_of_ne hmj).mpr hm)
          · intro m hm _
            rcases List.mem_cons.mp hm with rfl | hm
            · exact Or.inl (List.mem_cons_self ..)
            · exact Or.inl (List.mem_cons_of_mem _ (List.mem_of_mem_erase hm))
  · exact ⟨passed, ahead, h.remove_absent hj, Moves.same ..⟩

/-- **Spec of a call** that does no harm. -/
theorem call_moves (h : Split p.queue passed ahead) {c : QueueCall} (hok : Keeps scan p (.call c)) :
    ∃ passed' ahead', Split (p.queue.call p.jobs c) passed' ahead' ∧
      Moves scan p.jobs c ahead ahead' := by
  cases c with
  | push j => exact push_moves h rfl hok.1 hok.2
  | pushIgnoreSimObject j => exact push_moves h rfl hok.1 hok.2
  | remove j => exact remove_moves h hok

/-- A job of the list after a call was there before, or is the one added. -/
theorem mem_call {jobs : JobHeap} {q : ScheduledJobQueue} {c : QueueCall} {i : JobId}
    (h : i ∈ (q.call jobs c).list) : c.added = some i ∨ i ∈ q.list := by
  cases c with
  | push j =>
    rcases mem_insertAt.mp h with rfl | h
    · exact Or.inl rfl
    · exact Or.inr h
  | pushIgnoreSimObject j =>
    rcases mem_insertAt.mp h with rfl | h
    · exact Or.inl rfl
    · exact Or.inr h
  | remove j =>
    have h : i ∈ (q.remove j).list := h
    rw [remove_list] at h
    exact Or.inr (List.mem_of_mem_erase h)

/-- A job stays in the list unless the call removes it. -/
theorem mem_call_of_mem {jobs : JobHeap} {q : ScheduledJobQueue} {c : QueueCall} {i : JobId}
    (h : i ∈ q.list) (hc : c ≠ .remove i) : i ∈ (q.call jobs c).list := by
  cases c with
  | push j => exact mem_insertAt.mpr (Or.inr h)
  | pushIgnoreSimObject j => exact mem_insertAt.mpr (Or.inr h)
  | remove j =>
    show i ∈ (q.remove j).list
    rw [remove_list]
    have hij : i ≠ j := by rintro rfl; exact hc rfl
    exact (List.mem_erase_of_ne hij).mpr h

/-! ## What holds through a pass -/

/-- The cursor is in the list, and no job is in it twice. -/
def Pass.Whole (p : Pass) : Prop :=
  ∃ passed ahead, Split p.queue passed ahead

/-- A job that stays: it will still be found, or it was returned once and will not be again. -/
def Pass.Tracks (scan : Scan) (j : JobId) (p : Pass) : Prop :=
  ∃ passed ahead, Split p.queue passed ahead ∧ j ∈ p.queue.list ∧
    ((j ∈ ahead ∧ scan.Found (p.jobs j) ∧ p.returned.count j = 0 ∧ p.ended = false) ∨
      (p.returned.count j = 1 ∧ (j ∈ ahead → ¬ scan.Found (p.jobs j))))

/-- A job that was removed: it was returned `n` times before. -/
def Pass.Gone (j : JobId) (n : Nat) (p : Pass) : Prop :=
  p.Whole ∧ j ∉ p.queue.list ∧ p.returned.count j = n

theorem step_ended (hend : p.ended = true) : p.step scan .next = p := by
  unfold Pass.step
  simp only [if_pos hend]

theorem step_next (hend : p.ended = false) :
    p.step scan .next =
      { jobs := (scan.next p.jobs p.queue).2.1
        queue := (scan.next p.jobs p.queue).2.2
        returned := p.returned ++ (scan.next p.jobs p.queue).1.toList
        ended := (scan.next p.jobs p.queue).1.isNone } := by
  unfold Pass.step
  simp only [hend, Bool.false_eq_true, if_false]

theorem Pass.Whole.step (h : p.Whole) {e : PassEvent} (hok : Keeps scan p e) :
    (p.step scan e).Whole := by
  obtain ⟨passed, ahead, hs⟩ := h
  cases e with
  | call c =>
    obtain ⟨passed', ahead', hs', -⟩ := call_moves hs hok
    exact ⟨passed', ahead', hs'⟩
  | next =>
    cases hend : p.ended with
    | true => rw [step_ended hend]; exact ⟨passed, ahead, hs⟩
    | false =>
      obtain ⟨mid, rest, -, hs', -⟩ := hs.next p.jobs scan
      rw [step_next hend]
      exact ⟨_, rest, hs'⟩

theorem Pass.Tracks.next {j : JobId} (h : p.Tracks scan j) : (p.step scan .next).Tracks scan j := by
  cases hend : p.ended with
  | true => rw [step_ended hend]; exact h
  | false =>
    obtain ⟨passed, ahead, hs, hmem, hcase⟩ := h
    obtain ⟨mid, rest, hahead, hs', hlist, hsame, hnot, hres⟩ := hs.next p.jobs scan
    rw [step_next hend]
    refine ⟨_, rest, hs', hlist ▸ hmem, ?_⟩
    have hmid : j ∈ mid → j ∉ rest := fun hm =>
      hs'.notMem_ahead (List.mem_append_right _ hm)
    rcases hcase with ⟨hj, hfound, hcount, -⟩ | ⟨hcount, hquiet⟩
    · rcases hres with ⟨hnone, hrest, hall⟩ | ⟨pre, k, hmk, hsome, -, hpre⟩
      · -- nothing is found, although the job is ahead
        rw [hahead, hrest, List.append_nil] at hj
        exact absurd hfound (hall j hj)
      · rw [hsome]
        show (_ ∧ _ ∧ (p.returned ++ [k]).count j = 0 ∧ _) ∨ ((p.returned ++ [k]).count j = 1 ∧ _)
        by_cases hjk : j = k
        · subst hjk
          refine Or.inr ⟨?_, fun hr => absurd hr (hmid (hmk ▸ by simp))⟩
          rw [List.count_append, hcount, List.count_singleton_self]
        · have hjm : j ∉ mid := by
            rw [hmk]
            intro hm
            rcases List.mem_append.mp hm with hm | hm
            · exact hpre j hm hfound
            · exact hjk (List.mem_singleton.mp hm)
          have hjr : j ∈ rest := by
            rw [hahead] at hj
            exact (List.mem_append.mp hj).resolve_left hjm
          refine Or.inl ⟨hjr, ?_, ?_, rfl⟩
          · show scan.Found ((scan.next p.jobs p.queue).2.1 j)
            rw [hsame j hjm]
            exact hfound
          rw [List.count_append, hcount, List.count_singleton, if_neg (by simpa using Ne.symm hjk)]
    · refine Or.inr ⟨?_, fun hr => hnot j (hquiet (hahead ▸ List.mem_append_right _ hr))⟩
      show (p.returned ++ (scan.next p.jobs p.queue).1.toList).count j = 1
      rcases hres with ⟨hnone, -, -⟩ | ⟨pre, k, hmk, hsome, hfound, -⟩
      · rw [hnone]; simpa using hcount
      · -- the job returned is ahead and found, so it is another one
        have hjk : k ≠ j := by
          rintro rfl
          exact hquiet (hahead ▸ List.mem_append_left _ (hmk ▸ by simp)) hfound
        rw [hsome, Option.toList_some, List.count_append, hcount, List.count_singleton,
          if_neg (by simpa using hjk)]

theorem Pass.Tracks.step {j : JobId} (h : p.Tracks scan j) {e : PassEvent} (hok : Keeps scan p e)
    (he : e ≠ .call (.remove j)) : (p.step scan e).Tracks scan j := by
  cases e with
  | next => exact h.next
  | call c =>
    have hc : c ≠ .remove j := by rintro rfl; exact he rfl
    obtain ⟨passed, ahead, hs, hmem, hcase⟩ := h
    obtain ⟨passed', ahead', hs', hmoves⟩ := call_moves hs hok
    refine ⟨passed', ahead', hs', mem_call_of_mem hmem hc, ?_⟩
    rcases hcase with ⟨hj, hrest⟩ | ⟨hcount, hquiet⟩
    · exact Or.inl ⟨hmoves.stays j hj hc, hrest⟩
    · refine Or.inr ⟨hcount, ?_⟩
      intro hj
      -- the job is in the queue, so it is not the one added
      have hadd : c.added ≠ some j := by
        intro hadd
        cases c with
        | push k => cases hadd; exact hok.1 hmem
        | pushIgnoreSimObject k => cases hadd; exact hok.1 hmem
        | remove k => cases hadd
      rcases hmoves.comes j hj hadd with hj | hnot
      · exact hquiet hj
      · exact hnot

theorem Pass.Gone.step {j : JobId} {n : Nat} (h : p.Gone j n) {e : PassEvent} (hok : Keeps scan p e)
    (hpush : e ≠ .call (.push j)) (hign : e ≠ .call (.pushIgnoreSimObject j)) :
    (p.step scan e).Gone j n := by
  obtain ⟨hwhole, hmem, hcount⟩ := h
  refine ⟨hwhole.step hok, ?_⟩
  cases e with
  | call c =>
    refine ⟨?_, hcount⟩
    intro hj
    rcases mem_call hj with hadd | hj
    · cases c with
      | push k => cases hadd; exact hpush rfl
      | pushIgnoreSimObject k => cases hadd; exact hign rfl
      | remove k => cases hadd
    · exact hmem hj
  | next =>
    cases hend : p.ended with
    | true => rw [step_ended hend]; exact ⟨hmem, hcount⟩
    | false =>
      obtain ⟨passed, ahead, hs⟩ := hwhole
      obtain ⟨mid, rest, hahead, -, hlist, -, -, hres⟩ := hs.next p.jobs scan
      rw [step_next hend]
      refine ⟨hlist ▸ hmem, ?_⟩
      show (p.returned ++ (scan.next p.jobs p.queue).1.toList).count j = n
      rcases hres with ⟨hnone, -, -⟩ | ⟨pre, k, hmk, hsome, -, -⟩
      · rw [hnone]; simpa using hcount
      · have hkj : k ≠ j := by
          rintro rfl
          refine hmem ?_
          rw [hs.list_eq, hahead, hmk]
          simp
        rw [hsome, Option.toList_some, List.count_append, hcount, List.count_singleton,
          if_neg (by simpa using hkj), Nat.add_zero]

/-! ## Whole passes -/

/-- A pass that begins with the queue `q`, at its cursor. -/
def startPass (jobs : JobHeap) (q : ScheduledJobQueue) : Pass where
  jobs := jobs
  queue := q

/-- **What a pass is for.** -/
structure PassRight (scan : Scan) (jobs : JobHeap) (q : ScheduledJobQueue) (events : List PassEvent) :
    Prop where
  /-- A job ahead of the cursor that would be found and stays is returned exactly once. -/
  once : (run (Pass.step scan) (startPass jobs q) events).ended = true →
    ∀ j ∈ q.list.drop q.currIndex, PassEvent.call (.remove j) ∉ events → scan.Found (jobs j) →
      (run (Pass.step scan) (startPass jobs q) events).returned.count j = 1
  /-- A job that was removed, and not pushed again, is not returned any more. -/
  removed : ∀ (before after : List PassEvent) (j : JobId),
    events = before ++ .call (.remove j) :: after →
    PassEvent.call (.push j) ∉ after → PassEvent.call (.pushIgnoreSimObject j) ∉ after →
      (run (Pass.step scan) (startPass jobs q) events).returned.count j =
        (run (Pass.step scan) (startPass jobs q) before).returned.count j
  cursor : (run (Pass.step scan) (startPass jobs q) events).queue.currIndex ≤
    (run (Pass.step scan) (startPass jobs q) events).queue.list.length

theorem whole_run {q : ScheduledJobQueue} {jobs : JobHeap} (hcur : q.currIndex ≤ q.list.length)
    (hnd : q.list.Nodup) {events : List PassEvent}
    (h : Guarded (Keeps scan) (Pass.step scan) (startPass jobs q) events) :
    (run (Pass.step scan) (startPass jobs q) events).Whole := by
  have hstart : (startPass jobs q).Whole := ⟨_, _, Split.of_cursor_le hcur hnd⟩
  have hstep : ∀ (p : Pass) (e : PassEvent), p.Whole → Keeps scan p e → (p.step scan e).Whole := by
    intro p e hw hok
    exact hw.step hok
  exact Guarded.invariant hstep events _ hstart h

/-- The two invariants of one job over the events that do not concern it. -/
theorem tracks_run {j : JobId} :
    ∀ (events : List PassEvent) (p : Pass), p.Tracks scan j →
      Guarded (Keeps scan) (Pass.step scan) p events → PassEvent.call (.remove j) ∉ events →
      (run (Pass.step scan) p events).Tracks scan j
  | [], _, h, _, _ => h
  | e :: events, p, h, hg, hj => by
    have hne : e ≠ .call (.remove j) := by
      rintro rfl; exact hj (List.mem_cons_self ..)
    exact tracks_run events _ (h.step hg.1 hne) hg.2 (fun hm => hj (List.mem_cons_of_mem _ hm))

theorem gone_run {j : JobId} {n : Nat} :
    ∀ (events : List PassEvent) (p : Pass), p.Gone j n →
      Guarded (Keeps scan) (Pass.step scan) p events → PassEvent.call (.push j) ∉ events →
      PassEvent.call (.pushIgnoreSimObject j) ∉ events → (run (Pass.step scan) p events).Gone j n
  | [], _, h, _, _, _ => h
  | e :: events, p, h, hg, hp, hi => by
    have hpush : e ≠ .call (.push j) := by
      rintro rfl; exact hp (List.mem_cons_self ..)
    have hign : e ≠ .call (.pushIgnoreSimObject j) := by
      rintro rfl; exact hi (List.mem_cons_self ..)
    exact gone_run events _ (h.step hg.1 hpush hign) hg.2
      (fun hm => hp (List.mem_cons_of_mem _ hm)) (fun hm => hi (List.mem_cons_of_mem _ hm))

/-- **A pass whose events do no harm does what a pass is for.** -/
theorem pass_right (scan : Scan) (jobs : JobHeap) (q : ScheduledJobQueue) (events : List PassEvent)
    (hcur : q.currIndex ≤ q.list.length) (hnd : q.list.Nodup)
    (h : Guarded (Keeps scan) (Pass.step scan) (startPass jobs q) events) :
    PassRight scan jobs q events := by
  refine ⟨?_, ?_, ?_⟩
  · intro hended j hj hstay hfound
    have hstart : (startPass jobs q).Tracks scan j :=
      ⟨_, _, Split.of_cursor_le hcur hnd, List.mem_of_mem_drop hj, Or.inl ⟨hj, hfound, rfl, rfl⟩⟩
    obtain ⟨passed, ahead, -, -, hcase⟩ := tracks_run events _ hstart h hstay
    rcases hcase with ⟨-, -, -, hopen⟩ | ⟨hcount, -⟩
    · rw [hended] at hopen
      exact absurd hopen (by decide)
    · exact hcount
  · rintro before after j rfl hpush hign
    obtain ⟨hbefore, hcall, hafter⟩ := (guarded_append before _ _).mp h
    have hwhole := whole_run hcur hnd hbefore
    rw [run_append, run_cons]
    refine (gone_run after _ ⟨hwhole.step hcall, ?_, rfl⟩ hafter hpush hign).2.2
    -- the list holds the job once, so the removal leaves none of it
    obtain ⟨passed, ahead, hs⟩ := hwhole
    show j ∉ (ScheduledJobQueue.remove j _).list
    rw [remove_list]
    exact fun hm => ((hs.nodup.mem_erase_iff).mp hm).1 rfl
  · obtain ⟨passed, ahead, hs⟩ := whole_run hcur hnd h
    exact hs.cursor_le

/-! ### Two passes -/

/-- Three jobs of one class and phase, in the order of their ids. -/
def threeJobs : JobHeap := fun i => { jobClass := 1000, id := i }

/-- A queue of the first two. -/
def twoQueued : ScheduledJobQueue where
  list := [0, 1]

instance (scan : Scan) (p : Pass) : (e : PassEvent) → Decidable (Keeps scan p e)
  | .call (.remove j) =>
    match h : p.queue.list[p.queue.currIndex - 1]? with
    | none => decidable_of_iff (p.queue.list[p.queue.currIndex]? ≠ some j) (by
        unfold Keeps; rw [h]; simp)
    | some i => decidable_of_iff (p.queue.list[p.queue.currIndex]? = some j →
        p.queue.currIndex ≠ 0 ∧ ¬ scan.Found (p.jobs i)) (by unfold Keeps; rw [h]; simp)
  | .call (.push _) => inferInstanceAs (Decidable (_ ∧ _))
  | .call (.pushIgnoreSimObject _) => inferInstanceAs (Decidable (_ ∧ _))
  | .next => inferInstanceAs (Decidable True)

/-- The first job pushes the third one and takes itself out of the queue. -/
theorem pass_right_push_remove :
    PassRight .getNextJob threeJobs twoQueued
      [.next, .call (.push 2), .call (.remove 0), .next, .next, .next] :=
  pass_right .getNextJob threeJobs twoQueued _ (by decide) (by decide) (by decide)

/-- The first job removes the second one, which is the next: the first job is returned again. -/
theorem not_pass_right :
    ¬ ∀ (scan : Scan) (jobs : JobHeap) (q : ScheduledJobQueue) (events : List PassEvent),
      q.currIndex ≤ q.list.length → q.list.Nodup → PassRight scan jobs q events := by
  intro h
  have hright := h .getNextJob threeJobs twoQueued [.next, .call (.remove 1), .next, .next]
    (by decide) (by decide)
  exact absurd (hright.once (by decide) 0 (by decide) (by decide) (by decide)) (by decide)

end Trick.Exec
