/-
  The order of a `ScheduledJobQueue` that jobs enter in two ways.

  1. Data.  `push` searches by (class, phase, sim object, id); `push_ignore_sim_object` pushes the
     job while its sim object id is 1000000 and then puts the old id back, so the list is searched
     by one order and holds jobs that were inserted by another.
  2. Program.  `Traced.step` runs the calls on the queue of the model and keeps, next to each
     place of the list, which call put the job there (`Added`), and the jobs that were added and
     not removed.
  3. Specification.  `Ordered`: sorted by (class, phase); the jobs of `push` in the order of all
     four keys, equal ones in the order of the calls; the jobs of `push_ignore_sim_object` in the
     order of the calls within a class and phase; no job lost and none twice.
  4. Result.  The order by (class, phase) and the contents hold after any calls.  The two orders
     within a class and phase need what `std::upper_bound` asks for — a list split by the job that
     is searched for — and a push among jobs that were pushed without their sim object id finds
     no such list.
-/
import Trick.Executive.ScheduledJobQueue
import Trick.Lib.Run

namespace Trick.Exec

open Trick.Lib

/-! ## The second way into the queue -/

/-- The jobs while `push_ignore_sim_object` inserts `j`: its sim object id is 1000000. -/
def JobHeap.withHighSimObjectId (jobs : JobHeap) (j : JobId) : JobHeap :=
  Function.update jobs j { jobs j with simObjectId := 1000000 }

/-- `push_ignore_sim_object`; the id is restored before it returns, so the jobs are unchanged. -/
def ScheduledJobQueue.pushIgnoreSimObject (jobs : JobHeap) (j : JobId) (q : ScheduledJobQueue) :
    ScheduledJobQueue :=
  q.push (jobs.withHighSimObjectId j) j

/-! ## Runs of calls -/

/-- A call on the queue. -/
inductive QueueCall where
  | push (j : JobId)
  | pushIgnoreSimObject (j : JobId)
  | remove (j : JobId)
deriving DecidableEq, Repr

/-- The addition that put a job at its place of the list. -/
structure Added where
  job : JobId
  ignoreSimObject : Bool
  /-- The number of additions before this one. -/
  stamp : Nat
deriving DecidableEq, Repr

/-- A queue with its history: `added` runs along `queue.list`. -/
structure Traced where
  queue : ScheduledJobQueue := {}
  added : List Added := []
  stamp : Nat := 0
  /-- The jobs added and not removed. -/
  held : Multiset JobId := 0

/-- The jobs that the binary search of an addition compares. -/
def searched (jobs : JobHeap) (j : JobId) (ignoreSimObject : Bool) : JobHeap :=
  if ignoreSimObject then jobs.withHighSimObjectId j else jobs

/-- An addition: the queue after it is `q`. -/
def Traced.add (jobs : JobHeap) (j : JobId) (ignoreSimObject : Bool) (q : ScheduledJobQueue)
    (s : Traced) : Traced where
  queue := q
  added := insertAt (s.queue.insertIndex (searched jobs j ignoreSimObject) j)
    ⟨j, ignoreSimObject, s.stamp⟩ s.added
  stamp := s.stamp + 1
  held := j ::ₘ s.held

/-- One call. -/
def Traced.step (jobs : JobHeap) (s : Traced) : QueueCall → Traced
  | .push j => s.add jobs j false (s.queue.push jobs j)
  | .pushIgnoreSimObject j => s.add jobs j true (s.queue.pushIgnoreSimObject jobs j)
  | .remove j =>
    { s with
      queue := s.queue.remove j
      added := s.added.eraseIdx (s.queue.list.idxOf j)
      held := s.held.erase j }

/-! ## The order -/

/-- Job class, then phase. -/
def JobData.phaseKey (a : JobData) : Int ×ₗ Nat :=
  toLex (a.jobClass, a.phase)

/-- In the order of all four keys, equal ones in the order of the calls. -/
def PushOrder (jobs : JobHeap) (a b : Added) : Prop :=
  (jobs a.job).sortKey < (jobs b.job).sortKey ∨
    (jobs a.job).sortKey = (jobs b.job).sortKey ∧ a.stamp < b.stamp

instance (jobs : JobHeap) (a b : Added) : Decidable (PushOrder jobs a b) :=
  inferInstanceAs (Decidable (_ ∨ _))

/-- **The order of the queue** after a run of calls. -/
structure Ordered (jobs : JobHeap) (s : Traced) : Prop where
  /-- `added` tells of the jobs of the list, place by place. -/
  list_eq : s.queue.list = s.added.map Added.job
  phases : SortedBy (fun j => (jobs j).phaseKey) s.queue.list
  pushed : s.added.Pairwise fun a b =>
    a.ignoreSimObject = false → b.ignoreSimObject = false → PushOrder jobs a b
  ignored : s.added.Pairwise fun a b =>
    a.ignoreSimObject = true → b.ignoreSimObject = true →
      (jobs a.job).phaseKey = (jobs b.job).phaseKey → a.stamp < b.stamp
  contents : (s.queue.list : Multiset JobId) = s.held

/-- **When a call keeps the order.**  For an addition the list must be split by the new job: no
    job that compares greater stands before one that does not.  For one that ignores the sim
    object, no job of its class and phase that was added the same way may compare greater, which
    one with a sim object id of 1000000 and more does. -/
def Splits (jobs : JobHeap) (s : Traced) : QueueCall → Prop
  | .push j => Parted (fun i => (jobs i).sortKey) j s.queue.list
  | .pushIgnoreSimObject j =>
    Parted (fun i => (jobs.withHighSimObjectId j i).sortKey) j s.queue.list ∧
    ∀ a ∈ s.added, a.ignoreSimObject = true → (jobs a.job).phaseKey = (jobs j).phaseKey →
      ¬ (jobs.withHighSimObjectId j j).sortKey < (jobs.withHighSimObjectId j a.job).sortKey
  | .remove _ => True

instance (jobs : JobHeap) (s : Traced) : (c : QueueCall) → Decidable (Splits jobs s c)
  | .push j => inferInstanceAs (Decidable (Parted (fun i => (jobs i).sortKey) j s.queue.list))
  | .pushIgnoreSimObject _ => inferInstanceAs (Decidable (_ ∧ _))
  | .remove _ => inferInstanceAs (Decidable True)

/-! ## What the searched keys have in common -/

theorem JobData.phaseKey_mono {a b : JobData} (h : a.sortKey ≤ b.sortKey) :
    a.phaseKey ≤ b.phaseKey := by
  unfold JobData.sortKey at h
  unfold JobData.phaseKey
  simp only [Prod.Lex.toLex_le_toLex] at h ⊢
  rcases h with h | ⟨h1, h2 | ⟨h2, -⟩⟩
  · exact Or.inl h
  · exact Or.inr ⟨h1, le_of_lt h2⟩
  · exact Or.inr ⟨h1, le_of_eq h2⟩

/-- The temporary sim object id does not move a job to another class or phase. -/
@[simp] theorem searched_phaseKey (jobs : JobHeap) (j i : JobId) (b : Bool) :
    (searched jobs j b i).phaseKey = (jobs i).phaseKey := by
  unfold searched JobHeap.withHighSimObjectId
  cases b with
  | false => rfl
  | true =>
    by_cases hij : i = j
    · subst hij; simp [JobData.phaseKey]
    · simp [Function.update_of_ne hij]

/-! ## An addition -/

/-- The list after an addition, with either search. -/
theorem push_list (jobs : JobHeap) (j : JobId) (q : ScheduledJobQueue) :
    (q.push jobs j).list = insertAt (q.insertIndex jobs j) j q.list := rfl

theorem remove_list (q : ScheduledJobQueue) (j : JobId) : (q.remove j).list = q.list.erase j := by
  unfold ScheduledJobQueue.remove
  split
  · rfl
  · rename_i hj; exact (List.erase_of_not_mem hj).symm

theorem map_insertAt {α β : Type*} (f : α → β) (i : Nat) (x : α) (l : List α) :
    (insertAt i x l).map f = insertAt i (f x) (l.map f) := by
  unfold insertAt
  rw [List.map_append, List.map_cons, List.map_take, List.map_drop]

/-- What holds of the history whatever the calls were. -/
structure Traced.Sound (jobs : JobHeap) (s : Traced) : Prop where
  list_eq : s.queue.list = s.added.map Added.job
  phases : SortedBy (fun j => (jobs j).phaseKey) s.queue.list
  contents : (s.queue.list : Multiset JobId) = s.held
  stamps : ∀ a ∈ s.added, a.stamp < s.stamp

theorem Traced.Sound.add {jobs : JobHeap} {s : Traced} (h : s.Sound jobs) (j : JobId) (b : Bool) :
    (s.add jobs j b (s.queue.push (searched jobs j b) j)).Sound jobs := by
  refine ⟨?_, ?_, ?_, ?_⟩
  · show insertAt _ j s.queue.list = (insertAt _ _ s.added).map Added.job
    rw [map_insertAt, ← h.list_eq]
  · -- the search goes by a finer key, on a list that is sorted by class and phase only
    refine SortedBy.insertAt_coarser ?_ h.phases
    intro i k hle
    simpa only [searched_phaseKey] using JobData.phaseKey_mono hle
  · show ((insertAt _ j s.queue.list : List JobId) : Multiset JobId) = j ::ₘ s.held
    rw [← h.contents, Multiset.cons_coe]
    exact Multiset.coe_eq_coe.mpr (insertAt_perm _ _ _)
  · intro a ha
    show a.stamp < s.stamp + 1
    rcases mem_insertAt.mp ha with rfl | ha
    · exact Nat.lt_succ_self _
    · exact Nat.lt_succ_of_lt (h.stamps a ha)

theorem Traced.Sound.remove {jobs : JobHeap} {s : Traced} (h : s.Sound jobs) (j : JobId) :
    (s.step jobs (.remove j)).Sound jobs := by
  have hlist : (s.queue.remove j).list = s.queue.list.erase j := remove_list s.queue j
  refine ⟨?_, ?_, ?_, ?_⟩
  · show (s.queue.remove j).list = (s.added.eraseIdx (s.queue.list.idxOf j)).map Added.job
    rw [hlist, List.erase_eq_eraseIdx_of_idxOf rfl, List.eraseIdx_eq_take_drop_succ,
      List.eraseIdx_eq_take_drop_succ, List.map_append, List.map_take, List.map_drop, ← h.list_eq]
  · show SortedBy _ (s.queue.remove j).list
    rw [hlist]
    exact List.Pairwise.sublist (List.erase_sublist) h.phases
  · show (((s.queue.remove j).list : List JobId) : Multiset JobId) = s.held.erase j
    rw [hlist, ← h.contents, Multiset.coe_erase]
  · intro a ha
    exact h.stamps a (List.mem_of_mem_eraseIdx ha)

theorem Traced.Sound.step {jobs : JobHeap} {s : Traced} (h : s.Sound jobs) (c : QueueCall) :
    (s.step jobs c).Sound jobs := by
  cases c with
  | push j => exact h.add j false
  | pushIgnoreSimObject j => exact h.add j true
  | remove j => exact h.remove j

/-! ## The orders within a class and phase -/

/-- On a list that is split by the new job, the additions in front of its place compare not
    greater and those behind it greater. -/
theorem Traced.Sound.take_drop {jobs : JobHeap} {s : Traced} (h : s.Sound jobs) {j : JobId}
    {b : Bool} (hp : Parted (fun i => (searched jobs j b i).sortKey) j s.queue.list) :
    (∀ a ∈ s.added.take (s.queue.insertIndex (searched jobs j b) j),
      (searched jobs j b a.job).sortKey ≤ (searched jobs j b j).sortKey) ∧
    (∀ a ∈ s.added.drop (s.queue.insertIndex (searched jobs j b) j),
      (searched jobs j b j).sortKey < (searched jobs j b a.job).sortKey) := by
  obtain ⟨hleft, hright⟩ := hp.take_drop
  rw [h.list_eq] at hleft hright
  refine ⟨?_, ?_⟩
  · intro a ha
    refine hleft a.job ?_
    rw [← List.map_take, ← h.list_eq]
    exact List.mem_map_of_mem ha
  · intro a ha
    refine hright a.job ?_
    rw [← List.map_drop, ← h.list_eq]
    exact List.mem_map_of_mem ha

/-- The two orders that a mix of the calls can break. -/
structure Traced.InOrder (jobs : JobHeap) (s : Traced) : Prop where
  pushed : s.added.Pairwise fun a b =>
    a.ignoreSimObject = false → b.ignoreSimObject = false → PushOrder jobs a b
  ignored : s.added.Pairwise fun a b =>
    a.ignoreSimObject = true → b.ignoreSimObject = true →
      (jobs a.job).phaseKey = (jobs b.job).phaseKey → a.stamp < b.stamp

theorem Traced.InOrder.push {jobs : JobHeap} {s : Traced} (hs : s.Sound jobs)
    (h : s.InOrder jobs) {j : JobId} (hok : Splits jobs s (.push j)) :
    (s.step jobs (.push j)).InOrder jobs := by
  have hok : Parted (fun i => (searched jobs j false i).sortKey) j s.queue.list := hok
  obtain ⟨hleft, hright⟩ := hs.take_drop hok
  refine ⟨pairwise_insertAt h.pushed ?_ ?_, pairwise_insertAt h.ignored ?_ ?_⟩
  · -- a job in front of it: equal keys go by the order of the calls
    intro a ha _ _
    rcases lt_or_eq_of_le (hleft a ha) with hlt | heq
    · exact Or.inl hlt
    · exact Or.inr ⟨heq, hs.stamps a (List.mem_of_mem_take ha)⟩
  · intro a ha _ _
    exact Or.inl (hright a ha)
  · intro a _ _ hb
    exact absurd hb Bool.false_ne_true
  · intro a _ hb
    exact absurd hb Bool.false_ne_true

theorem Traced.InOrder.pushIgnoreSimObject {jobs : JobHeap} {s : Traced} (hs : s.Sound jobs)
    (h : s.InOrder jobs) {j : JobId} (hok : Splits jobs s (.pushIgnoreSimObject j)) :
    (s.step jobs (.pushIgnoreSimObject j)).InOrder jobs := by
  obtain ⟨hp, hnone⟩ := hok
  have hp : Parted (fun i => (searched jobs j true i).sortKey) j s.queue.list := hp
  obtain ⟨-, hright⟩ := hs.take_drop hp
  refine ⟨pairwise_insertAt h.pushed ?_ ?_, pairwise_insertAt h.ignored ?_ ?_⟩
  · intro a _ _ hb
    exact absurd hb.symm Bool.false_ne_true
  · intro a _ hb
    exact absurd hb.symm Bool.false_ne_true
  · intro a ha _ _ _
    exact hs.stamps a (List.mem_of_mem_take ha)
  · -- a job behind it compares greater, and none of its class and phase does
    intro a ha _ hign hphase
    exact absurd (hright a ha) (hnone a (List.mem_of_mem_drop ha) hign hphase.symm)

theorem Traced.InOrder.step {jobs : JobHeap} {s : Traced} (hs : s.Sound jobs)
    (h : s.InOrder jobs) {c : QueueCall} (hok : Splits jobs s c) : (s.step jobs c).InOrder jobs := by
  cases c with
  | push j => exact h.push hs hok
  | pushIgnoreSimObject j => exact h.pushIgnoreSimObject hs hok
  | remove j =>
    have hsub : (s.added.eraseIdx (s.queue.list.idxOf j)).Sublist s.added :=
      List.eraseIdx_sublist ..
    exact ⟨h.pushed.sublist hsub, h.ignored.sublist hsub⟩

/-! ## Runs -/

theorem sound_start (jobs : JobHeap) : ({} : Traced).Sound jobs :=
  ⟨rfl, List.Pairwise.nil, rfl, fun _ ha => (nomatch ha)⟩

/-- **Any calls** keep the list in the order of class and phase and lose no job. -/
theorem sound_run (jobs : JobHeap) :
    ∀ (calls : List QueueCall) (s : Traced), s.Sound jobs → (run (Traced.step jobs) s calls).Sound jobs
  | [], _, h => h
  | c :: calls, s, h => sound_run jobs calls (s.step jobs c) (h.step c)

/-- **Calls that find a list split by their job keep the whole order.** -/
theorem ordered_run (jobs : JobHeap) (calls : List QueueCall)
    (h : Guarded (Splits jobs) (Traced.step jobs) {} calls) :
    Ordered jobs (run (Traced.step jobs) {} calls) := by
  have hstep : ∀ (s : Traced) (c : QueueCall), s.Sound jobs ∧ s.InOrder jobs → Splits jobs s c →
      (s.step jobs c).Sound jobs ∧ (s.step jobs c).InOrder jobs := by
    intro s c hs hok
    exact ⟨hs.1.step c, hs.2.step hs.1 hok⟩
  have hstart : ({} : Traced).Sound jobs ∧ ({} : Traced).InOrder jobs :=
    ⟨sound_start jobs, List.Pairwise.nil, List.Pairwise.nil⟩
  obtain ⟨hs, ho⟩ := Guarded.invariant hstep calls {} hstart h
  exact ⟨hs.list_eq, hs.phases, ho.pushed, ho.ignored, hs.contents⟩

/-! ### Two runs -/

/-- Three jobs of one class and phase, in the sim objects 9, 1 and 5. -/
def threeObjects : JobHeap
  | 0 => { jobClass := 1000, simObjectId := 9, id := 1 }
  | 1 => { jobClass := 1000, simObjectId := 1, id := 2 }
  | _ => { jobClass := 1000, simObjectId := 5, id := 3 }

/-- Both calls in one queue: the job of object 1 goes behind that of object 9, in order. -/
theorem ordered_run_mixed :
    Ordered threeObjects (run (Traced.step threeObjects) {}
      [.push 2, .push 0, .pushIgnoreSimObject 1, .remove 2]) :=
  ordered_run threeObjects _ (by decide)

/-- A push after that meets the two in the order 9, 1, and the job of object 5 goes behind both. -/
theorem not_ordered_run :
    ¬ ∀ calls, Ordered threeObjects (run (Traced.step threeObjects) {} calls) := by
  intro h
  have hp := (h [.push 0, .pushIgnoreSimObject 1, .push 2]).pushed
  revert hp
  decide

/-! ## Calls that do not mix -/

/-- A push meets only pushed jobs in its class and phase, and a push without the sim object id only
    jobs with ids below the temporary one. -/
def Unmixed (jobs : JobHeap) (s : Traced) : QueueCall → Prop
  | .push j =>
    ∀ a ∈ s.added, (jobs a.job).phaseKey = (jobs j).phaseKey → a.ignoreSimObject = false
  | .pushIgnoreSimObject j =>
    ∀ a ∈ s.added, (jobs a.job).phaseKey = (jobs j).phaseKey → (jobs a.job).simObjectId < 1000000
  | .remove _ => True

theorem JobData.sortKey_lt_of_phaseKey {a b : JobData} (h : a.phaseKey < b.phaseKey) :
    a.sortKey < b.sortKey := by
  by_contra hn
  exact absurd h (not_lt.mpr (JobData.phaseKey_mono (not_lt.mp hn)))

theorem PushOrder.le {jobs : JobHeap} {a b : Added} (h : PushOrder jobs a b) :
    (jobs a.job).sortKey ≤ (jobs b.job).sortKey := by
  rcases h with hlt | ⟨heq, -⟩
  · exact le_of_lt hlt
  · exact le_of_eq heq

/-- No job of the class and phase of `j` compares greater while `j` is inserted without its sim
    object id. -/
theorem not_lt_withHigh {jobs : JobHeap} {i j : JobId} (hphase : (jobs i).phaseKey = (jobs j).phaseKey)
    (hid : (jobs i).simObjectId < 1000000) :
    ¬ (jobs.withHighSimObjectId j j).sortKey < (jobs.withHighSimObjectId j i).sortKey := by
  by_cases hij : i = j
  · subst hij; exact lt_irrefl _
  · unfold JobHeap.withHighSimObjectId
    rw [Function.update_self, Function.update_of_ne hij]
    unfold JobData.phaseKey at hphase
    obtain ⟨hclass, hph⟩ := Prod.mk.inj (toLex.injective hphase)
    unfold JobData.sortKey
    simp only [Prod.Lex.toLex_lt_toLex]
    omega

/-- **Calls that do not mix find a split list**, so a queue that is filled by `push` alone, or by
    `push_ignore_sim_object` alone with ids below 1000000, is ordered. -/
theorem splits_of_unmixed {jobs : JobHeap} {s : Traced} (hs : s.Sound jobs) (h : s.InOrder jobs)
    {c : QueueCall} (hc : Unmixed jobs s c) : Splits jobs s c := by
  have hphases : s.added.Pairwise fun a b => (jobs a.job).phaseKey ≤ (jobs b.job).phaseKey := by
    have hsorted : (s.added.map Added.job).Pairwise fun a b =>
        (jobs a).phaseKey ≤ (jobs b).phaseKey := by
      rw [← hs.list_eq]; exact hs.phases
    rw [List.pairwise_map] at hsorted
    exact hsorted
  cases c with
  | push j =>
    show Parted (fun i => (jobs i).sortKey) j s.queue.list
    rw [hs.list_eq]
    refine List.pairwise_map.mpr ?_
    refine List.Pairwise.imp_of_mem ?_ (hphases.and h.pushed)
    intro a b ha hb hab hlt
    have hle : (jobs j).phaseKey ≤ (jobs a.job).phaseKey := JobData.phaseKey_mono (le_of_lt hlt)
    rcases lt_or_eq_of_le (le_trans hle hab.1) with hlt' | heq
    · exact JobData.sortKey_lt_of_phaseKey hlt'
    · -- all three are of one class and phase, where every job was pushed by its four keys
      have hja : (jobs a.job).phaseKey = (jobs j).phaseKey :=
        le_antisymm (heq ▸ hab.1) hle
      exact lt_of_lt_of_le hlt (hab.2 (hc a ha hja) (hc b hb heq.symm)).le
  | pushIgnoreSimObject j =>
    refine ⟨?_, fun a ha _ hphase => not_lt_withHigh hphase (hc a ha hphase)⟩
    rw [hs.list_eq]
    refine List.pairwise_map.mpr ?_
    refine List.Pairwise.imp_of_mem ?_ hphases
    intro a b ha _ hab hlt
    have hmono : ∀ i, (jobs.withHighSimObjectId j i).phaseKey = (jobs i).phaseKey := by
      intro i; exact searched_phaseKey jobs j i true
    have hle : (jobs j).phaseKey ≤ (jobs a.job).phaseKey := by
      simpa only [hmono] using JobData.phaseKey_mono (le_of_lt hlt)
    rcases lt_or_eq_of_le (le_trans hle hab) with hlt' | heq
    · refine JobData.sortKey_lt_of_phaseKey ?_
      simpa only [hmono] using hlt'
    · have hja : (jobs a.job).phaseKey = (jobs j).phaseKey := le_antisymm (heq ▸ hab) hle
      exact absurd hlt (not_lt_withHigh hja (hc a ha hja))
  | remove j => exact trivial

end Trick.Exec
