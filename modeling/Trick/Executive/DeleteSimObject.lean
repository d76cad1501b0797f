/-
  `delete_sim_object`: a sim object and its components are taken out of the executive.

  Data:           `State`: the queues and the sim objects (`Executive`), the maps `all_jobs` and
                  `all_tagged_jobs`, `all_jobs_vector`, and the `depends` lists of the jobs.
  Program:        objects are added and deleted with their components, checkpoints are loaded, jobs come to
                  depend on other jobs, and the scheduler moves the cursors of the queues.
  Specification:  `Right`: no queue, map, vector or `depends` list of a job that remains refers to a deleted job,
                  and the other jobs stay in their queues, in their order, on their side of each cursor.
  Result:         `Sound.right`, for a state that satisfies the invariant `Sound` (every run is in
                  `DeletionRuns`).  A queue is left wrong when the job at its cursor is deleted, and the
                  `depends` lists of other jobs are never cleaned.
-/
import Trick.Lib.Multimap
import Trick.Executive.RemovedJobs
import Trick.Executive.Traversal

namespace Trick.DeleteSimObject

open Trick.Lib Trick.Restart Trick.Restart.Executive
open Trick.Exec (JobId JobHeap JobData Scan ScheduledJobQueue findNextJobLoop)

/-! ## Sim objects with components -/

/-- A vector of sim objects, each with its component objects. -/
inductive SimObjects where
  | nil
  | cons (object : SimObject) (preComponentObjects postComponentObjects rest : SimObjects)

/-- All objects, in the order in which they are added and deleted. -/
def SimObjects.objects : SimObjects → List SimObject
  | .nil => []
  | .cons o pre post rest => pre.objects ++ o :: (post.objects ++ rest.objects)

/-- The jobs of all objects. -/
def SimObjects.jobs (f : SimObjects) : List JobId := loadedJobs f.objects

/-! ## The program -/

/-- The executive, with what else refers to jobs. -/
structure State where
  exec : Executive
  parentObject : JobId → Option SimObject
  tags : JobId → List String
  depends : JobId → List JobId
  allJobs : Multimap String JobId
  allJobsVector : List JobId
  allTaggedJobs : Multimap String JobId

namespace State

/-- One turn of the loop of `add_jobs_to_queue`, with `add_job_to_queue`. -/
def addJob (o : SimObject) (restartFlag : Bool) (s : State) (j : JobId) : State :=
  let e := Executive.addJob o restartFlag s.exec j
  { s with
    exec := e
    parentObject := Function.update s.parentObject j (some o)
    allJobs := s.allJobs.insert (e.jobs j).name j
    allJobsVector := s.allJobsVector ++ [j]
    allTaggedJobs := (s.tags j).foldl (fun m tag => m.insert tag j) s.allTaggedJobs }

/-- `add_jobs_to_queue` -/
def addJobsToQueue (restartFlag : Bool) (s : State) (o : SimObject) : State :=
  o.jobs.foldl (addJob o restartFlag) s

/-- `add_sim_object`, for the object itself. -/
def addObject (s : State) (o : SimObject) : State :=
  let o := { o with id := s.exec.numSimObjects + 1 }
  let e := { s.exec with
    numSimObjects := o.id
    simObjects := s.exec.simObjects ++ [o] }
  { s with exec := e }.addJobsToQueue false o

/-- The name of a component, with that of the object it belongs to in front. -/
def componentName (outer : Option String) (o : SimObject) : SimObject :=
  match outer with
  | none => o
  | some name => { o with name := name ++ "." ++ o.name }

/-- **`add_sim_object`**, for the objects of a vector: the components before and after each object. -/
def addSimObjects (outer : Option String) : SimObjects → State → State
  | .nil, s => s
  | .cons o pre post rest, s =>
    let o := componentName outer o
    let s := addSimObjects (some o.name) pre s
    let s := s.addObject o
    let s := addSimObjects (some o.name) post s
    addSimObjects outer rest s

/-- **`remove_jobs`** -/
def removeJobs (s : State) (o : SimObject) : State :=
  let keep := fun j => decide (s.parentObject j ≠ some o)
  { s with
    exec := o.jobs.foldl Executive.removeJob s.exec
    allJobs := s.allJobs.filter keep
    allJobsVector := s.allJobsVector.filter keep
    allTaggedJobs := s.allTaggedJobs.filter keep }

/-- `delete_sim_object`, for the object itself. -/
def deleteObject (s : State) (o : SimObject) : State :=
  let e := { s.exec with simObjects := s.exec.simObjects.filter fun o' => o' ≠ o }
  { s with exec := e }.removeJobs o

/-- **`delete_sim_object`**, for the objects of a vector. -/
def deleteSimObjects : SimObjects → State → State
  | .nil, s => s
  | .cons o pre post rest, s =>
    let s := deleteSimObjects pre s
    let s := s.deleteObject o
    let s := deleteSimObjects post s
    deleteSimObjects rest s

/-- A job of a loaded object gets its object and its name. -/
def registerJob (o : SimObject) (s : State) (j : JobId) : State :=
  { s with
    exec := Executive.registerJob o s.exec j
    parentObject := Function.update s.parentObject j (some o) }

/-- `set_curr_index` -/
def setCurrIndex (value : Nat) (q : ScheduledJobQueue) : ScheduledJobQueue :=
  if value < q.list.length then { q with currIndex := value } else q

/-- **`restart`** -/
def restart (s : State) (allJobs : List Job) : Except String State :=
  let currentIpIndex := (s.exec.queues .inputProcessor).currIndex
  let s := { s with
    exec := s.exec.clearScheduledQueues
    allJobs := Multimap.empty
    allJobsVector := []
    allTaggedJobs := Multimap.empty }
  let s := s.exec.simObjects.foldl (fun s o => o.jobs.foldl (registerJob o) s) s
  let loaded := loadedJobs s.exec.simObjects
  if allJobs.any fun c => loaded.all fun j => decide ((s.exec.jobs j).name < c.name) then
    .error "Job in checkpoint file does not exist in current sim."
  else
    let s := { s with exec := allJobs.foldl (restoreJob loaded) s.exec }
    let s := s.exec.simObjects.foldl (addJobsToQueue true) s
    let e := { s.exec with numSimObjects := s.exec.simObjects.length }
    .ok { s with exec := e.modifyQueue (setCurrIndex currentIpIndex) (.exec .inputProcessor) }

/-- A checkpoint is loaded: its objects stand in `sim_objects`, and the executive is restarted. -/
def loadCheckpoint (s : State) (c : Checkpoint) : Except String State :=
  let e := { s.exec with
    jobs := fun j => (c.newJobs j).getD (s.exec.jobs j)
    simObjects := c.simObjects }
  { s with exec := e }.restart c.allJobs

/-- `get_job`: the `j_instance`-th job of a name. -/
def getJob (s : State) (jobName : String) (jInstance : Nat) : Option JobId :=
  (s.allJobs.range jobName)[jInstance - 1]?

/-- `add_depends_on_job` -/
def addDependsOnJob (s : State) (target : String) (tInstance : Nat) (depend : String) (dInstance : Nat) :
    State :=
  match s.getJob target tInstance, s.getJob depend dInstance with
  | some targetJob, some dependJob =>
    if (s.exec.jobs targetJob).data.thread = (s.exec.jobs dependJob).data.thread then s
    else { s with depends := Function.update s.depends targetJob (s.depends targetJob ++ [dependJob]) }
  | _, _ => s

/-- The scheduler asks a queue for its next job. -/
def next (s : State) (p : Place) (scan : Scan) : State :=
  let r := scan.next (fun i => (s.exec.jobs i).data) (s.exec.queueAt p)
  let e := s.exec.modifyQueue (fun _ => r.2.2) p
  { s with exec := { e with jobs := fun i => { s.exec.jobs i with data := r.2.1 i } } }

/-- The scheduler starts over with a queue. -/
def resetCurrIndex (s : State) (p : Place) : State :=
  { s with exec := s.exec.modifyQueue ScheduledJobQueue.resetCurrIndex p }

/-! ## Runs -/

/-- The executive before any object is added. -/
def construct (jobs : JobId → Job) (tags : JobId → List String) : State where
  exec := Executive.construct jobs
  parentObject := fun _ => none
  tags := tags
  depends := fun _ => []
  allJobs := Multimap.empty
  allJobsVector := []
  allTaggedJobs := Multimap.empty

/-- What happens in a run. -/
inductive Event where
  | addSimObject (o : SimObject) (preComponentObjects postComponentObjects : SimObjects)
  | deleteSimObject (o : SimObject) (preComponentObjects postComponentObjects : SimObjects)
  | loadCheckpoint (c : Checkpoint)
  | addDependsOnJob (target : String) (tInstance : Nat) (depend : String) (dInstance : Nat)
  | next (p : Place) (scan : Scan)
  | resetCurrIndex (p : Place)

/-- **One event.**  An executive that ends is left as it was. -/
def step (s : State) : Event → State
  | .addSimObject o pre post => addSimObjects none (.cons o pre post .nil) s
  | .deleteSimObject o pre post => deleteSimObjects (.cons o pre post .nil) s
  | .loadCheckpoint c => (s.loadCheckpoint c).toOption.getD s
  | .addDependsOnJob target tInstance depend dInstance =>
    s.addDependsOnJob target tInstance depend dInstance
  | .next p scan => s.next p scan
  | .resetCurrIndex p => s.resetCurrIndex p

/-! ## What is wanted -/

/-- **Nothing refers to the jobs `gone`.** -/
structure LeavesNothing (gone : List JobId) (s : State) : Prop where
  queues : ∀ p, ∀ j ∈ (s.exec.queueAt p).list, j ∉ gone
  allJobs : ∀ e ∈ s.allJobs.entries, e.2 ∉ gone
  allJobsVector : ∀ j ∈ s.allJobsVector, j ∉ gone
  allTaggedJobs : ∀ e ∈ s.allTaggedJobs.entries, e.2 ∉ gone
  depends : ∀ j ∈ loadedJobs s.exec.simObjects, ∀ d ∈ s.depends j, d ∉ gone

/-- **The other jobs stay** in their queues, in their order, on their side of each cursor. -/
def KeepsOthers (gone : List JobId) (s s' : State) : Prop :=
  ∀ p, (s'.exec.queueAt p).passed = (s.exec.queueAt p).passed.filter (fun j => decide (j ∉ gone)) ∧
    (s'.exec.queueAt p).ahead = (s.exec.queueAt p).ahead.filter (fun j => decide (j ∉ gone))

/-- **The deletion of some objects is right.** -/
structure Right (f : SimObjects) (s : State) : Prop where
  leavesNothing : LeavesNothing f.jobs (deleteSimObjects f s)
  keepsOthers : KeepsOthers f.jobs s (deleteSimObjects f s)

/-- No job of another object depends on a job of these. -/
def NoneDepends (f : SimObjects) (s : State) : Prop :=
  ∀ o ∈ s.exec.simObjects, o ∉ f.objects → ∀ j ∈ o.jobs, ∀ d ∈ s.depends j, d ∉ f.jobs

/-- No queue has a job of these at its cursor, unless it has no other jobs. -/
def AwayFromCursors (f : SimObjects) (s : State) : Prop :=
  ∀ p, (∀ j ∈ f.jobs, (s.exec.queueAt p).ahead.head? ≠ some j) ∨
    ∀ j ∈ (s.exec.queueAt p).list, j ∈ f.jobs

/-- These objects have been added, each of them once. -/
def Added (f : SimObjects) (s : State) : Prop := f.objects.Nodup ∧ ∀ o ∈ f.objects, o ∈ s.exec.simObjects

/-- None of these objects has been added. -/
def Fresh (f : SimObjects) (s : State) : Prop :=
  f.jobs.Nodup ∧ ∀ j ∈ f.jobs, j ∉ loadedJobs s.exec.simObjects ∧ ∀ p, j ∉ (s.exec.queueAt p).list

/-- The condition on an event: an object that is added is a new one, one that is deleted was added, and no job
    of a checkpoint waits in the queue that a load does not clear. -/
def Event.Ok (s : State) : Event → Prop
  | .addSimObject o pre post => Fresh (.cons o pre post .nil) s
  | .deleteSimObject o pre post => Added (.cons o pre post .nil) s
  | .loadCheckpoint c => Clears s.exec c
  | _ => True

/-! ## The program without the maps -/

variable {s s' : State}

theorem exec_addJobs (o : SimObject) (restartFlag : Bool) (l : List JobId) (s : State) :
    (l.foldl (addJob o restartFlag) s).exec = l.foldl (Executive.addJob o restartFlag) s.exec :=
  (List.foldl_hom State.exec fun _ _ => rfl).symm

theorem exec_addJobsToQueue (restartFlag : Bool) (s : State) (o : SimObject) :
    (s.addJobsToQueue restartFlag o).exec = s.exec.addJobsToQueue restartFlag o :=
  exec_addJobs o restartFlag o.jobs s

theorem exec_addObject (s : State) (o : SimObject) : (s.addObject o).exec = s.exec.addSimObject o :=
  exec_addJobsToQueue false _ _

theorem exec_deleteObject (s : State) (o : SimObject) :
    (s.deleteObject o).exec = s.exec.deleteSimObject o := rfl

/-- The objects are deleted one after the other. -/
theorem deleteSimObjects_eq : ∀ (f : SimObjects) (s : State),
    deleteSimObjects f s = f.objects.foldl deleteObject s := by
  intro f
  induction f with
  | nil => exact fun _ => rfl
  | cons o pre post rest ihpre ihpost ihrest =>
    intro s
    unfold deleteSimObjects SimObjects.objects
    dsimp only
    rw [ihpre, ihpost, ihrest, List.foldl_append, List.foldl_cons, List.foldl_append]

/-! ## The invariant -/

/-- **The invariant of a run**: the jobs of the objects stand where their class and thread call for, under the
    right number, and belong to their objects. -/
structure Sound (s : State) : Prop where
  rebuilt : Rebuilt s.exec
  numbered : ∀ j ∈ loadedJobs s.exec.simObjects, Numbered (s.exec.jobs j)
  parent : ∀ o ∈ s.exec.simObjects, ∀ j ∈ o.jobs, s.parentObject j = some o

/-- What the invariant reads. -/
theorem Sound.of_same (h : Sound s) (hobjects : s'.exec.simObjects = s.exec.simObjects)
    (hparent : s'.parentObject = s.parentObject)
    (hlist : ∀ p, (s'.exec.queueAt p).list = (s.exec.queueAt p).list)
    (hclass : ∀ j, (s'.exec.jobs j).className = (s.exec.jobs j).className)
    (hthread : ∀ j, (s'.exec.jobs j).data.thread = (s.exec.jobs j).data.thread)
    (hnumber : ∀ j, (s'.exec.jobs j).data.jobClass = (s.exec.jobs j).data.jobClass) : Sound s' := by
  refine ⟨⟨?_, ?_⟩, ?_, ?_⟩
  · intro j hj p
    rw [hobjects] at hj
    rw [hlist, hclass, hthread]
    exact h.rebuilt.placed j hj p
  · rw [hobjects]
    exact h.rebuilt.nodup
  · intro j hj c hc
    rw [hobjects] at hj
    rw [hclass] at hc
    rw [hnumber]
    exact h.numbered j hj c hc
  · intro o ho
    rw [hobjects] at ho
    rw [hparent]
    exact h.parent o ho

/-- The jobs of objects that were added. -/
theorem Sound.held (h : Sound s) {l : List JobId} (hl : ∀ j ∈ l, j ∈ loadedJobs s.exec.simObjects) :
    Held s.exec l :=
  ⟨fun j hj => h.numbered j (hl j hj), fun j hj => h.rebuilt.placed j (hl j hj)⟩

/-! ## Objects are deleted -/

/-- **Some objects have been deleted.** -/
structure Deleted (objects : List SimObject) (s s' : State) : Prop where
  sound : Sound s'
  simObjects : s'.exec.simObjects = s.exec.simObjects.filter fun o => o ∉ objects
  parent : s'.parentObject = s.parentObject
  depends : s'.depends = s.depends
  queue : ∀ p, s'.exec.queueAt p = (s.exec.queueAt p).removeAll (loadedJobs objects)
  allJobs : ∀ e ∈ s'.allJobs.entries, ∀ o ∈ objects, s.parentObject e.2 ≠ some o
  allJobsVector : ∀ j ∈ s'.allJobsVector, ∀ o ∈ objects, s.parentObject j ≠ some o
  allTaggedJobs : ∀ e ∈ s'.allTaggedJobs.entries, ∀ o ∈ objects, s.parentObject e.2 ≠ some o
  mapped : (∀ e ∈ s'.allJobs.entries, e ∈ s.allJobs.entries) ∧
    (∀ j ∈ s'.allJobsVector, j ∈ s.allJobsVector) ∧
    ∀ e ∈ s'.allTaggedJobs.entries, e ∈ s.allTaggedJobs.entries

theorem deleted_nil (h : Sound s) : Deleted [] s s where
  sound := h
  simObjects := (List.filter_eq_self.mpr fun _ _ => decide_eq_true List.not_mem_nil).symm
  parent := rfl
  depends := rfl
  queue _ := rfl
  allJobs _ _ _ ho := absurd ho List.not_mem_nil
  allJobsVector _ _ _ ho := absurd ho List.not_mem_nil
  allTaggedJobs _ _ _ ho := absurd ho List.not_mem_nil
  mapped := ⟨fun _ h => h, fun _ h => h, fun _ h => h⟩

/-- The jobs that were added with one object. -/
theorem Sound.jobs_nodup (h : Sound s) {o : SimObject} (ho : o ∈ s.exec.simObjects) : o.jobs.Nodup :=
  (List.nodup_flatMap.mp h.rebuilt.nodup).1 o ho

/-- **An object is deleted.** -/
theorem Sound.deleteObject (h : Sound s) {o : SimObject} (ho : o ∈ s.exec.simObjects) :
    Deleted [o] s (s.deleteObject o) := by
  have hexec := exec_deleteObject s o
  have hremoves := removes_jobs o.jobs o.jobs
    { s.exec with simObjects := s.exec.simObjects.filter fun o' => o' ≠ o } (List.Subset.refl _)
  unfold Executive.deleteSimObject at hexec
  rw [← hexec] at hremoves
  have hfilter : (s.deleteObject o).exec.simObjects = s.exec.simObjects.filter fun o' => o' ≠ o :=
    hremoves.simObjects
  have hsub : ∀ o' ∈ (s.deleteObject o).exec.simObjects, o' ∈ s.exec.simObjects := by
    intro o' ho'
    rw [hfilter] at ho'
    exact (List.mem_filter.mp ho').1
  have hkept : ∀ {j : JobId}, decide (s.parentObject j ≠ some o) = true →
      ∀ o' ∈ [o], s.parentObject j ≠ some o' := by
    intro j hj o' ho'
    rw [List.mem_singleton.mp ho']
    exact of_decide_eq_true hj
  refine ⟨⟨?_, ?_, ?_⟩, ?_, rfl, rfl, ?_, ?_, ?_, ?_, ?_, ?_, ?_⟩
  · rw [exec_deleteObject]
    exact h.rebuilt.deleteSimObject ho
  · intro j hj
    rw [hremoves.jobs]
    obtain ⟨o', ho', hj'⟩ := List.mem_flatMap.mp hj
    exact h.numbered j (List.mem_flatMap.mpr ⟨o', hsub o' ho', hj'⟩)
  · exact fun o' ho' => h.parent o' (hsub o' ho')
  · rw [hfilter]
    refine List.filter_congr fun o' _ => ?_
    rw [decide_eq_decide, List.mem_singleton]
  · intro p
    have hheld : Held { s.exec with simObjects := s.exec.simObjects.filter fun o' => o' ≠ o } o.jobs := by
      have hheld := h.held (l := o.jobs) fun j hj => List.mem_flatMap.mpr ⟨o, ho, hj⟩
      refine ⟨hheld.numbered, ?_⟩
      intro j hj p
      rw [← hheld.placed j hj p]
      cases p <;> rfl
    rw [hexec, queueAt_removeJobs p o.jobs _ (h.jobs_nodup ho) hheld]
    have hjobs : loadedJobs [o] = o.jobs := by
      unfold loadedJobs
      rw [List.flatMap_singleton]
    rw [hjobs]
    cases p <;> rfl
  · exact fun e he => hkept (List.mem_filter.mp he).2
  · exact fun j hj => hkept (List.mem_filter.mp hj).2
  · exact fun e he => hkept (List.mem_filter.mp he).2
  · exact fun e he => (List.mem_filter.mp he).1
  · exact fun j hj => (List.mem_filter.mp hj).1
  · exact fun e he => (List.mem_filter.mp he).1

/-- Some objects are deleted after others. -/
theorem Deleted.trans {objects objects' : List SimObject} {s'' : State} (h : Deleted objects s s')
    (h' : Deleted objects' s' s'') : Deleted (objects ++ objects') s s'' where
  sound := h'.sound
  simObjects := by
    rw [h'.simObjects, h.simObjects, List.filter_filter]
    refine List.filter_congr fun o _ => ?_
    rw [← Bool.decide_and, decide_eq_decide, List.mem_append, not_or]
    exact and_comm
  parent := h'.parent.trans h.parent
  depends := h'.depends.trans h.depends
  queue p := by
    rw [h'.queue, h.queue]
    unfold loadedJobs ScheduledJobQueue.removeAll
    rw [List.flatMap_append, List.foldl_append]
  allJobs e he o ho := by
    rcases List.mem_append.mp ho with ho | ho
    · exact h.allJobs e (h'.mapped.1 e he) o ho
    · rw [← h.parent]
      exact h'.allJobs e he o ho
  allJobsVector j hj o ho := by
    rcases List.mem_append.mp ho with ho | ho
    · exact h.allJobsVector j (h'.mapped.2.1 j hj) o ho
    · rw [← h.parent]
      exact h'.allJobsVector j hj o ho
  allTaggedJobs e he o ho := by
    rcases List.mem_append.mp ho with ho | ho
    · exact h.allTaggedJobs e (h'.mapped.2.2 e he) o ho
    · rw [← h.parent]
      exact h'.allTaggedJobs e he o ho
  mapped := ⟨fun e he => h.mapped.1 e (h'.mapped.1 e he), fun j hj => h.mapped.2.1 j (h'.mapped.2.1 j hj),
    fun e he => h.mapped.2.2 e (h'.mapped.2.2 e he)⟩

/-- **Objects are deleted one after the other.** -/
theorem Sound.deleteObjects : ∀ (objects : List SimObject) (s : State), Sound s → objects.Nodup →
    (∀ o ∈ objects, o ∈ s.exec.simObjects) → Deleted objects s (objects.foldl State.deleteObject s) := by
  intro objects
  induction objects with
  | nil => exact fun _ h _ _ => deleted_nil h
  | cons o objects ih =>
    intro s h hnodup hmem
    obtain ⟨ho, hrest⟩ := List.nodup_cons.mp hnodup
    have hone := h.deleteObject (hmem o List.mem_cons_self)
    refine hone.trans (ih _ hone.sound hrest ?_)
    intro o' ho'
    rw [hone.simObjects, List.mem_filter]
    refine ⟨hmem o' (List.mem_cons_of_mem o ho'), decide_eq_true ?_⟩
    rw [List.mem_singleton]
    rintro rfl
    exact ho ho'

/-- **Objects are deleted with their components.** -/
theorem Sound.deleteSimObjects (h : Sound s) {f : SimObjects} (hadded : Added f s) :
    Deleted f.objects s (State.deleteSimObjects f s) := by
  rw [deleteSimObjects_eq]
  exact Sound.deleteObjects f.objects s h hadded.1 hadded.2

/-- **One deletion.** -/
theorem Sound.right (h : Sound s) {f : SimObjects} (hadded : Added f s) (hdepends : NoneDepends f s)
    (haway : AwayFromCursors f s) : Right f s := by
  have hdeleted := h.deleteSimObjects hadded
  generalize hs' : State.deleteSimObjects f s = s' at hdeleted
  have hloaded : ∀ j ∈ f.jobs, j ∈ loadedJobs s.exec.simObjects := by
    intro j hj
    obtain ⟨o, ho, hjo⟩ := List.mem_flatMap.mp hj
    exact List.mem_flatMap.mpr ⟨o, hadded.2 o ho, hjo⟩
  have hheld := h.held hloaded
  have hcount : ∀ p, ∀ j ∈ f.jobs, (s.exec.queueAt p).list.count j ≤ 1 := fun p j hj => hheld.count_le hj p
  have hlist : ∀ p, (s'.exec.queueAt p).list =
      (s.exec.queueAt p).list.filter fun j => decide (j ∉ f.jobs) := by
    intro p
    rw [hdeleted.queue p]
    exact ScheduledJobQueue.removeAll_list f.jobs _ (hcount p)
  -- a job that is still in a map belongs to none of the objects
  have hmapped : ∀ j, (∀ o ∈ f.objects, s.parentObject j ≠ some o) → j ∉ f.jobs := by
    intro j hj hmem
    obtain ⟨o, ho, hjo⟩ := List.mem_flatMap.mp hmem
    exact hj o ho (h.parent o (hadded.2 o ho) j hjo)
  refine ⟨?_, ?_⟩
  · rw [hs']
    refine ⟨?_, ?_, ?_, ?_, ?_⟩
    · intro p j hj
      rw [hlist p] at hj
      exact of_decide_eq_true (List.mem_filter.mp hj).2
    · exact fun e he => hmapped e.2 (hdeleted.allJobs e he)
    · exact fun j hj => hmapped j (hdeleted.allJobsVector j hj)
    · exact fun e he => hmapped e.2 (hdeleted.allTaggedJobs e he)
    · intro j hj d hd
      obtain ⟨o, ho, hjo⟩ := List.mem_flatMap.mp hj
      rw [hdeleted.simObjects, List.mem_filter] at ho
      rw [hdeleted.depends] at hd
      exact hdepends o ho.1 (of_decide_eq_true ho.2) j hjo d hd
  · rw [hs']
    intro p
    rcases haway p with haway | hall
    · rw [hdeleted.queue p]
      exact ScheduledJobQueue.removeAll_sides f.jobs _ (hcount p) haway
    · -- no job is left
      have hnone : ∀ l : List JobId, (∀ j ∈ l, j ∈ f.jobs) → l.filter (fun j => decide (j ∉ f.jobs)) = [] := by
        intro l hl
        rw [List.filter_eq_nil_iff]
        intro j hj hnot
        exact of_decide_eq_true hnot (hl j hj)
      have hempty := hlist p
      rw [hnone _ hall] at hempty
      unfold ScheduledJobQueue.passed ScheduledJobQueue.ahead
      rw [hempty, hnone _ fun j hj => hall j (List.mem_of_mem_take hj),
        hnone _ fun j hj => hall j (List.mem_of_mem_drop hj), List.take_nil, List.drop_nil]
      exact ⟨rfl, rfl⟩

end State

end Trick.DeleteSimObject
