/-
  The removal of several jobs, from one queue and from all queues of the executive.

  Data:           `passed` and `ahead`: the jobs of a queue on the two sides of its cursor.
  Specification:  `removeAll_list`: the other jobs stay, in their order.  `removeAll_sides`: they also stay on
                  their side of the cursor, if the job at the cursor is not one of those that are removed.
  Result:         `queueAt_removeJobs`: the loop of `remove_jobs` takes the jobs out of every queue, if their
                  class and thread are those they were added with and the number of the class is the right one.
-/
import Trick.Executive.Restart

namespace Trick.Exec.ScheduledJobQueue

open Trick.Lib

/-! ## One queue -/

/-- The jobs before the cursor: those that have been called. -/
def passed (q : ScheduledJobQueue) : List JobId := q.list.take q.currIndex

/-- The jobs from the cursor on. -/
def ahead (q : ScheduledJobQueue) : List JobId := q.list.drop q.currIndex

/-- Several jobs are removed. -/
def removeAll (l : List JobId) (q : ScheduledJobQueue) : ScheduledJobQueue := l.foldl (fun q j => q.remove j) q

variable {q : ScheduledJobQueue} {j : JobId}

theorem remove_of_notMem (hj : j ∉ q.list) : q.remove j = q := by
  unfold remove
  rw [if_neg hj]

/-- A job that occurs once, with what stands before and after it. -/
theorem exists_split_of_count (hcount : q.list.count j ≤ 1) (hj : j ∈ q.list) :
    ∃ l r, q.list = l ++ j :: r ∧ j ∉ l ∧ j ∉ r := by
  obtain ⟨l, r, hsplit⟩ := List.append_of_mem hj
  rw [hsplit, List.count_append, List.count_cons_self] at hcount
  refine ⟨l, r, hsplit, ?_, ?_⟩
  · exact List.count_eq_zero.mp (by omega)
  · exact List.count_eq_zero.mp (by omega)

/-- The other jobs of a list. -/
theorem filter_ne_eq_self {l : List JobId} (hj : j ∉ l) : l.filter (fun i => decide (i ≠ j)) = l := by
  rw [List.filter_eq_self]
  intro i hi
  have hne : i ≠ j := by
    rintro rfl
    exact hj hi
  exact decide_eq_true hne

theorem filter_ne_split {l r : List JobId} (hl : j ∉ l) (hr : j ∉ r) :
    (l ++ j :: r).filter (fun i => decide (i ≠ j)) = l ++ r := by
  have hself : ¬ decide (j ≠ j) = true := by
    rw [decide_eq_true_iff]
    exact fun h => h rfl
  rw [List.filter_append, List.filter_cons_of_neg (p := fun i => decide (i ≠ j)) hself,
    filter_ne_eq_self hl, filter_ne_eq_self hr]

/-- **A job is removed**: the others stay, in their order. -/
theorem remove_list_eq_filter (hcount : q.list.count j ≤ 1) :
    (q.remove j).list = q.list.filter fun i => decide (i ≠ j) := by
  by_cases hj : j ∈ q.list
  · obtain ⟨l, r, hsplit, hl, hr⟩ := exists_split_of_count hcount hj
    unfold remove
    rw [if_pos hj]
    show q.list.erase j = _
    rw [hsplit, filter_ne_split hl hr, List.erase_append_right _ hl, List.erase_cons_head]
  · rw [remove_of_notMem hj, filter_ne_eq_self hj]

/-- **A job that is not at the cursor is removed**: the others stay on their side of the cursor. -/
theorem remove_sides (hcount : q.list.count j ≤ 1) (hcursor : q.ahead.head? ≠ some j) :
    (q.remove j).passed = q.passed.filter (fun i => decide (i ≠ j)) ∧
      (q.remove j).ahead = q.ahead.filter (fun i => decide (i ≠ j)) := by
  by_cases hj : j ∈ q.list
  · obtain ⟨l, r, hsplit, hl, hr⟩ := exists_split_of_count hcount hj
    have hidx : q.list.idxOf j = l.length := by
      rw [hsplit, List.idxOf_append_of_notMem hl, List.idxOf_cons_self, Nat.add_zero]
    have hne : q.currIndex ≠ l.length := by
      intro heq
      apply hcursor
      unfold ahead
      rw [heq, hsplit, List.drop_left]
      rfl
    unfold remove passed ahead
    rw [if_pos hj]
    dsimp only
    have herase : q.list.erase j = l ++ r := by
      rw [hsplit, List.erase_append_right _ hl, List.erase_cons_head]
    rw [herase, hidx]
    rcases Nat.lt_or_gt_of_ne hne with hlt | hgt
    · -- the job is ahead
      rw [if_neg (by omega), hsplit, List.take_append_of_le_length (by omega),
        List.take_append_of_le_length (by omega), List.drop_append_of_le_length (by omega),
        List.drop_append_of_le_length (by omega)]
      refine ⟨?_, ?_⟩
      · rw [filter_ne_eq_self fun h => hl (List.mem_of_mem_take h)]
      · rw [filter_ne_split (fun h => hl (List.mem_of_mem_drop h)) hr]
    · -- the job was passed, and the cursor moves back with those behind it
      obtain ⟨k, hk⟩ : ∃ k, q.currIndex = l.length + 1 + k := ⟨q.currIndex - l.length - 1, by omega⟩
      have hback : q.currIndex - 1 = l.length + k := by omega
      have htake : (l ++ j :: r).take q.currIndex = l ++ j :: r.take k := by
        rw [hk, Nat.add_assoc, List.take_length_add_append, Nat.add_comm 1 k, List.take_succ_cons]
      have hdrop : (l ++ j :: r).drop q.currIndex = r.drop k := by
        rw [hk, Nat.add_assoc, List.drop_length_add_append, Nat.add_comm 1 k, List.drop_succ_cons]
      rw [if_pos (by omega), if_neg (by omega), hsplit, htake, hdrop, hback, List.take_length_add_append,
        List.drop_length_add_append]
      refine ⟨?_, ?_⟩
      · rw [filter_ne_split hl fun h => hr (List.mem_of_mem_take h)]
      · rw [filter_ne_eq_self fun h => hr (List.mem_of_mem_drop h)]
  · rw [remove_of_notMem hj]
    refine ⟨?_, ?_⟩
    · exact (filter_ne_eq_self fun h => hj (List.mem_of_mem_take h)).symm
    · exact (filter_ne_eq_self fun h => hj (List.mem_of_mem_drop h)).symm

/-- One job after the other. -/
theorem filter_ne_filter (j : JobId) (l : List JobId) (l' : List JobId) :
    (l'.filter fun i => decide (i ≠ j)).filter (fun i => decide (i ∉ l)) =
      l'.filter fun i => decide (i ∉ j :: l) := by
  rw [List.filter_filter]
  refine List.filter_congr fun i _ => ?_
  rw [← Bool.decide_and, decide_eq_decide, List.mem_cons, not_or]
  exact and_comm

theorem count_remove_le (i j : JobId) (q : ScheduledJobQueue) : (q.remove j).list.count i ≤ q.list.count i := by
  unfold remove
  split
  · exact List.erase_sublist.count_le i
  · exact le_refl _

/-- **Several jobs are removed**: the others stay, in their order. -/
theorem removeAll_list : ∀ (l : List JobId) (q : ScheduledJobQueue), (∀ j ∈ l, q.list.count j ≤ 1) →
    (removeAll l q).list = q.list.filter fun i => decide (i ∉ l) := by
  intro l
  induction l with
  | nil =>
    intro q _
    rw [List.filter_eq_self.mpr fun i _ => decide_eq_true List.not_mem_nil]
    rfl
  | cons j l ih =>
    intro q hcount
    show (removeAll l (q.remove j)).list = _
    rw [ih (q.remove j), remove_list_eq_filter (hcount j List.mem_cons_self), filter_ne_filter]
    intro i hi
    exact le_trans (count_remove_le i j q) (hcount i (List.mem_cons_of_mem j hi))

/-- **Several jobs are removed, none of them at the cursor**: the others stay on their side of it. -/
theorem removeAll_sides : ∀ (l : List JobId) (q : ScheduledJobQueue), (∀ j ∈ l, q.list.count j ≤ 1) →
    (∀ j ∈ l, q.ahead.head? ≠ some j) →
    (removeAll l q).passed = q.passed.filter (fun i => decide (i ∉ l)) ∧
      (removeAll l q).ahead = q.ahead.filter (fun i => decide (i ∉ l)) := by
  intro l
  induction l with
  | nil =>
    intro q _ _
    refine ⟨?_, ?_⟩
    · rw [List.filter_eq_self.mpr fun i _ => decide_eq_true List.not_mem_nil]
      rfl
    · rw [List.filter_eq_self.mpr fun i _ => decide_eq_true List.not_mem_nil]
      rfl
  | cons j l ih =>
    intro q hcount hcursor
    obtain ⟨hpassed, hahead⟩ := remove_sides (hcount j List.mem_cons_self) (hcursor j List.mem_cons_self)
    show (removeAll l (q.remove j)).passed = _ ∧ (removeAll l (q.remove j)).ahead = _
    have hrest := ih (q.remove j) ?_ ?_
    · rw [hrest.1, hrest.2, hpassed, hahead, filter_ne_filter, filter_ne_filter]
      exact ⟨rfl, rfl⟩
    · intro i hi
      exact le_trans (count_remove_le i j q) (hcount i (List.mem_cons_of_mem j hi))
    · -- the job at the cursor is the same
      intro i hi
      rw [hahead]
      cases hq : q.ahead with
      | nil => exact nofun
      | cons k rest =>
        have hk := hcursor i (List.mem_cons_of_mem j hi)
        have hkj := hcursor j List.mem_cons_self
        rw [hq] at hk hkj
        have hne : k ≠ j := fun h => hkj (congrArg some h)
        rw [List.filter_cons_of_pos (p := fun i => decide (i ≠ j)) (decide_eq_true hne)]
        exact hk

end Trick.Exec.ScheduledJobQueue

namespace Trick.Restart.Executive

open Trick.Lib Trick.Exec

/-! ## All queues -/

variable {s s' : Executive}

/-- The number of the class is the one that the map has for it. -/
def Numbered (d : Job) : Prop := ∀ c, classMap d.className = some c → d.data.jobClass = c

/-- A job is removed from one queue. -/
theorem queueAt_remove (s : Executive) (j : JobId) (p p' : Place) :
    (s.modifyQueue (ScheduledJobQueue.remove j) p).queueAt p' =
      if p' = p then (s.queueAt p').remove j else s.queueAt p' := by
  by_cases hp : HasPlace s p
  · rw [queueAt_modifyQueue _ hp]
    split
    · rename_i heq
      rw [heq]
    · rfl
  · rw [modifyQueue_of_not_hasPlace _ hp]
    split
    · -- there is no such queue, and so no job in it
      rename_i heq
      rw [heq, queueAt_of_not_hasPlace hp]
      rfl
    · rfl

/-- A job is removed from several queues. -/
theorem queueAt_removes (j : JobId) (p : Place) : ∀ (ps : List Place) (s : Executive), ps.Nodup →
    (ps.foldl (fun s p => s.modifyQueue (ScheduledJobQueue.remove j) p) s).queueAt p =
      if p ∈ ps then (s.queueAt p).remove j else s.queueAt p := by
  intro ps
  induction ps with
  | nil =>
    intro s _
    rw [if_neg List.not_mem_nil]
    rfl
  | cons p' ps ih =>
    intro s hnodup
    obtain ⟨hp', hps⟩ := List.nodup_cons.mp hnodup
    rw [List.foldl_cons, ih _ hps, queueAt_remove]
    by_cases hp : p = p'
    · subst hp
      rw [if_neg hp', if_pos rfl, if_pos List.mem_cons_self]
    · rw [if_neg hp]
      refine if_congr ?_ rfl rfl
      rw [List.mem_cons]
      exact (or_iff_right hp).symm

/-- **The number of the class leads back to the queues that the class and the thread call for.** -/
theorem removeJob_eq {j : JobId} (hnumber : Numbered (s.jobs j)) :
    s.removeJob j = (places (s.jobs j).className (s.jobs j).data.thread).foldl
      (fun s p => s.modifyQueue (ScheduledJobQueue.remove j) p) s := by
  unfold removeJob
  dsimp only
  cases hmap : classMap (s.jobs j).className with
  | none =>
    cases hclass : (s.jobs j).className with
    | unknown => rfl
    | _ =>
      rw [hclass] at hmap
      cases hmap
  | some c =>
    have hc := hnumber c hmap
    dsimp only
    rw [hc]
    cases hclass : (s.jobs j).className with
    | scheduled n =>
      rw [hclass] at hmap
      cases hmap
      have hge : (1000 + n : Int) ≥ 1000 := by omega
      rw [if_pos hge, if_pos hge]
      split
      · rfl
      · rename_i hn
        rw [not_not.mp hn]
        rfl
    | topOfFrame | endOfFrame =>
      rw [hclass] at hmap
      cases hmap
      by_cases hn : (s.jobs j).data.thread = 0
      · rw [if_neg (not_not.mpr hn), hn]
        rfl
      · rw [if_pos hn]
        show _ = List.foldl _ _ (if _ then _ else _)
        rw [if_neg hn]
        rfl
    | unknown =>
      rw [hclass] at hmap
      cases hmap
    | _ =>
      rw [hclass] at hmap
      cases hmap
      split <;> rfl

/-- A class and a thread call for a queue once. -/
theorem nodup_places (c : ClassName) (n : Nat) : (places c n).Nodup := by
  cases c with
  | topOfFrame | endOfFrame =>
    unfold places
    dsimp only
    split <;> exact List.nodup_singleton _
  | scheduled k => exact List.nodup_cons.mpr ⟨by simp, List.nodup_singleton _⟩
  | unknown => exact List.nodup_nil
  | _ => exact List.nodup_singleton _

/-- **The jobs stand where their class and thread call for**, under the right number. -/
structure Held (s : Executive) (l : List JobId) : Prop where
  numbered : ∀ j ∈ l, Numbered (s.jobs j)
  placed : ∀ j ∈ l, ∀ p,
    (s.queueAt p).list.count j = (places (s.jobs j).className (s.jobs j).data.thread).count p

theorem Held.count_le {l : List JobId} (h : Held s l) {j : JobId} (hj : j ∈ l) (p : Place) :
    (s.queueAt p).list.count j ≤ 1 := by
  rw [h.placed j hj p]
  exact List.nodup_iff_count_le_one.mp (nodup_places _ _) p

/-- **A job is removed from every queue.** -/
theorem queueAt_removeJob {j : JobId} (h : Held s [j]) (p : Place) :
    (s.removeJob j).queueAt p = (s.queueAt p).remove j := by
  rw [removeJob_eq (h.numbered j List.mem_cons_self), queueAt_removes j p _ s (nodup_places _ _)]
  split
  · rfl
  · rename_i hp
    -- the job is not there
    have hcount := h.placed j List.mem_cons_self p
    rw [List.count_eq_zero.mpr hp] at hcount
    rw [ScheduledJobQueue.remove_of_notMem (List.count_eq_zero.mp hcount)]

/-- **The loop of `remove_jobs`** takes the jobs out of every queue. -/
theorem queueAt_removeJobs (p : Place) : ∀ (l : List JobId) (s : Executive), l.Nodup → Held s l →
    (l.foldl removeJob s).queueAt p = (s.queueAt p).removeAll l := by
  intro l
  induction l with
  | nil => exact fun _ _ _ => rfl
  | cons j l ih =>
    intro s hnodup h
    obtain ⟨hj, hl⟩ := List.nodup_cons.mp hnodup
    have hone : Held s [j] := by
      refine ⟨?_, ?_⟩
      · intro i hi
        exact h.numbered i (List.mem_singleton.mp hi ▸ List.mem_cons_self)
      · intro i hi
        exact h.placed i (List.mem_singleton.mp hi ▸ List.mem_cons_self)
    -- the other jobs stay where they are
    have hremoves := removes_removeJob (List.mem_singleton.mpr rfl) s (l := [j]) (j := j)
    have hrest : Held (s.removeJob j) l := by
      refine ⟨?_, ?_⟩
      · intro i hi
        rw [hremoves.jobs]
        exact h.numbered i (List.mem_cons_of_mem j hi)
      · intro i hi p
        have hij : i ∉ [j] := by
          rw [List.mem_singleton]
          rintro rfl
          exact hj hi
        rw [hremoves.jobs, hremoves.count p i hij]
        exact h.placed i (List.mem_cons_of_mem j hi) p
    rw [List.foldl_cons, ih _ hl hrest, queueAt_removeJob hone p]
    rfl

end Trick.Restart.Executive
