/-
  `restart`: the job queues of the executive are rebuilt from a checkpoint.

  Every queue is cleared, and the jobs of the loaded sim objects are added again, each to the queues that
  its class and thread call for.  `places` is what a class and a thread call for; `addJobToQueue` is how the
  code finds it, with the number of the class and a map from the numbers to the queues.

  The scheduler's order, the cursors and the times of the jobs are in `ScheduledJobQueue` and `Executive`;
  here it matters which job stands where, and how often.
-/
import Trick.Lib.Run
import Trick.Lib.Modify
import Trick.Executive.ScheduledJobQueue

namespace Trick.Restart

open Trick.Lib Trick.Exec

/-! ## Classes and queues -/

/-- The job classes: those with a queue of their own, the classes of the S_define order by their place in it,
    and the classes that the scheduler does not know. -/
inductive ClassName where
  | defaultData | inputProcessor | initialization | inputProcessorRun | systemThreadSync
  | topOfFrame | endOfFrame | shutdown | freezeInit | freezeScheduled | freezeAutomatic | freeze
  | unfreeze | execTimeTicChanged
  | scheduled (n : Nat)
  | unknown
deriving DecidableEq

/-- `class_map` -/
def classMap : ClassName → Option Int
  | .defaultData => some 0
  | .inputProcessor => some 1
  | .initialization => some 2
  | .inputProcessorRun => some 3
  | .systemThreadSync => some 4
  | .topOfFrame => some 5
  | .endOfFrame => some 6
  | .shutdown => some 7
  | .freezeInit => some 8
  | .freezeScheduled => some 9
  | .freezeAutomatic => some 10
  | .freeze => some 11
  | .unfreeze => some 12
  | .execTimeTicChanged => some 13
  | .scheduled n => some (1000 + n)
  | .unknown => none

/-- The queues of the executive. -/
inductive ExecQueue where
  | defaultData | inputProcessor | initialization | inputProcessorRun | scheduled | topOfFrame
  | endOfFrame | threadSync | shutdown | freezeInit | freezeScheduled | freeze | unfreeze
  | timeTicChanged
deriving DecidableEq

/-- `class_to_queue` -/
def classToQueue : Int → Option ExecQueue
  | 0 => some .defaultData
  | 1 => some .inputProcessor
  | 2 => some .initialization
  | 3 => some .inputProcessorRun
  | 4 => some .threadSync
  | 5 => some .topOfFrame
  | 6 => some .endOfFrame
  | 7 => some .shutdown
  | 8 => some .freezeInit
  | 9 => some .freezeScheduled
  | 10 => some .freezeScheduled
  | 11 => some .freeze
  | 12 => some .unfreeze
  | 13 => some .timeTicChanged
  | _ => none

/-- The queues of a thread. -/
inductive ThreadQueue where
  | jobQueue | topOfFrame | endOfFrame
deriving DecidableEq

/-- A queue. -/
inductive Place where
  | exec (q : ExecQueue)
  | thread (n : Nat) (q : ThreadQueue)
deriving DecidableEq

/-- **The queues that a class and a thread call for.** -/
def places : ClassName → Nat → List Place
  | .scheduled _, n => [.thread n .jobQueue, .exec .scheduled]
  | .topOfFrame, n => if n = 0 then [.exec .topOfFrame] else [.thread n .topOfFrame]
  | .endOfFrame, n => if n = 0 then [.exec .endOfFrame] else [.thread n .endOfFrame]
  | .defaultData, _ => [.exec .defaultData]
  | .inputProcessor, _ => [.exec .inputProcessor]
  | .initialization, _ => [.exec .initialization]
  | .inputProcessorRun, _ => [.exec .inputProcessorRun]
  | .systemThreadSync, _ => [.exec .threadSync]
  | .shutdown, _ => [.exec .shutdown]
  | .freezeInit, _ => [.exec .freezeInit]
  | .freezeScheduled, _ => [.exec .freezeScheduled]
  | .freezeAutomatic, _ => [.exec .freezeScheduled]
  | .freeze, _ => [.exec .freeze]
  | .unfreeze, _ => [.exec .unfreeze]
  | .execTimeTicChanged, _ => [.exec .timeTicChanged]
  | .unknown, _ => []

/-! ## The executive -/

/-- A job.  Of `data` the queues read the class number, the phase and the ids; the name of the class stands
    in `className`. -/
structure Job where
  name : String
  className : ClassName
  data : JobData

/-- `SimObject` -/
structure SimObject where
  name : String
  id : Int := 0
  jobs : List JobId
deriving DecidableEq

/-- The jobs of some sim objects. -/
def loadedJobs (objects : List SimObject) : List JobId := objects.flatMap SimObject.jobs

/-- The executive, as far as it concerns who stands in which queue. -/
structure Executive where
  jobs : JobId → Job
  queues : ExecQueue → ScheduledJobQueue
  threads : List (ThreadQueue → ScheduledJobQueue)
  simObjects : List SimObject
  numSimObjects : Int

namespace Executive

/-- The queue at a place; a thread that does not exist has none. -/
def queueAt (s : Executive) : Place → ScheduledJobQueue
  | .exec q => s.queues q
  | .thread n q => ((s.threads[n]?).map (· q)).getD {}

/-- A queue is changed. -/
def modifyQueue (s : Executive) (f : ScheduledJobQueue → ScheduledJobQueue) : Place → Executive
  | .exec q => { s with queues := Function.update s.queues q (f (s.queues q)) }
  | .thread n q => { s with threads := s.threads.modify n fun t => Function.update t q (f (t q)) }

/-- `push` -/
def push (s : Executive) (j : JobId) (p : Place) : Executive :=
  s.modifyQueue (fun q => q.push (fun i => (s.jobs i).data) j) p

/-- A job is changed. -/
def setJob (s : Executive) (j : JobId) (d : Job) : Executive :=
  { s with jobs := Function.update s.jobs j d }

/-- **`add_job_to_queue`** -/
def addJobToQueue (s : Executive) (j : JobId) : Executive :=
  match classMap (s.jobs j).className with
  | none => s
  | some c =>
    let s := s.setJob j { s.jobs j with data := { (s.jobs j).data with jobClass := c } }
    let n := (s.jobs j).data.thread
    if n ≠ 0 then
      if c ≥ 1000 then (s.push j (.thread n .jobQueue)).push j (.exec .scheduled)
      else if (s.jobs j).className = .topOfFrame then s.push j (.thread n .topOfFrame)
      else if (s.jobs j).className = .endOfFrame then s.push j (.thread n .endOfFrame)
      else match classToQueue c with
        | some q => s.push j (.exec q)
        | none => s
    else if c ≥ 1000 then (s.push j (.thread 0 .jobQueue)).push j (.exec .scheduled)
    else match classToQueue c with
      | some q => s.push j (.exec q)
      | none => s

/-- One turn of the loop of `add_jobs_to_queue`: the job belongs to the object, and its thread exists. -/
def addJob (o : SimObject) (restartFlag : Bool) (s : Executive) (j : JobId) : Executive :=
  let s := s.setJob j { s.jobs j with
    name := if restartFlag = false then o.name ++ "." ++ (s.jobs j).name else (s.jobs j).name
    data := { (s.jobs j).data with simObjectId := o.id } }
  let s := { s with
    threads := s.threads ++
      List.replicate ((s.jobs j).data.thread + 1 - s.threads.length) (fun _ => ({} : ScheduledJobQueue)) }
  s.addJobToQueue j

/-- `add_jobs_to_queue` -/
def addJobsToQueue (restartFlag : Bool) (s : Executive) (o : SimObject) : Executive :=
  o.jobs.foldl (addJob o restartFlag) s

/-- `add_sim_object`, for an object without components. -/
def addSimObject (s : Executive) (o : SimObject) : Executive :=
  let o := { o with id := s.numSimObjects + 1 }
  { s with
    numSimObjects := o.id
    simObjects := s.simObjects ++ [o] }.addJobsToQueue false o

/-- The loop of `remove_jobs` over the queues. -/
def removeJob (s : Executive) (j : JobId) : Executive :=
  let d := (s.jobs j).data
  let remove (s : Executive) (p : Place) : Executive := s.modifyQueue (ScheduledJobQueue.remove j) p
  match classMap (s.jobs j).className with
  | none => s
  | some _ =>
    if d.thread ≠ 0 then
      if d.jobClass ≥ 1000 then remove (remove s (.thread d.thread .jobQueue)) (.exec .scheduled)
      else if (s.jobs j).className = .topOfFrame then remove s (.thread d.thread .topOfFrame)
      else if (s.jobs j).className = .endOfFrame then remove s (.thread d.thread .endOfFrame)
      else match classToQueue d.jobClass with
        | some q => remove s (.exec q)
        | none => s
    else if d.jobClass ≥ 1000 then remove (remove s (.thread 0 .jobQueue)) (.exec .scheduled)
    else match classToQueue d.jobClass with
      | some q => remove s (.exec q)
      | none => s

/-- `delete_sim_object`, for an object without components. -/
def deleteSimObject (s : Executive) (o : SimObject) : Executive :=
  o.jobs.foldl removeJob { s with simObjects := s.simObjects.filter fun o' => o' ≠ o }

/-- `clear_scheduled_queues`; `Threads::clear_scheduled_queues` clears all queues of a thread. -/
def clearScheduledQueues (s : Executive) : Executive :=
  { s with
    queues := fun q =>
      match q with
      | .defaultData | .inputProcessor | .initialization | .inputProcessorRun | .scheduled
      | .topOfFrame | .endOfFrame | .shutdown | .freezeInit | .freezeScheduled | .freeze | .unfreeze
      | .timeTicChanged => {}
      -- not named there
      | .threadSync => s.queues .threadSync
    threads := s.threads.map fun _ _ => {} }

/-! ## A checkpoint is loaded -/

/-- What a checkpoint holds of the executive.  Each job belongs to one of the objects, once. -/
structure Checkpoint where
  simObjects : List SimObject
  /-- The jobs of the objects that are allocated when the checkpoint is read. -/
  newJobs : JobId → Option Job
  /-- `all_jobs_for_checkpoint` -/
  allJobs : List Job
  nodup : (loadedJobs simObjects).Nodup

/-- The name of a job, with that of its object in front. -/
def jobName (o : SimObject) (name : String) : String :=
  if (o.name ++ ".").isPrefixOf name then name else o.name ++ "." ++ name

/-- A job of a loaded object is found again under its name. -/
def registerJob (o : SimObject) (s : Executive) (j : JobId) : Executive :=
  s.setJob j { s.jobs j with
    name := jobName o (s.jobs j).name
    data := { (s.jobs j).data with simObjectId := o.id } }

/-- `copy_from_checkpoint` -/
def copyFromCheckpoint (d c : Job) : Job :=
  { d with
    className := c.className
    data := { d.data with
      disabled := c.data.disabled
      cycle := c.data.cycle
      start := c.data.start
      stop := c.data.stop
      phase := c.data.phase
      systemJobClass := c.data.systemJobClass
      thread := c.data.thread
      cycleTics := c.data.cycleTics
      startTics := c.data.startTics
      stopTics := c.data.stopTics
      nextTics := c.data.nextTics } }

/-- A job of the checkpoint is copied to those of its name, id and object. -/
def restoreJob (loaded : List JobId) (s : Executive) (c : Job) : Executive :=
  (loaded.filter fun j => (s.jobs j).name = c.name ∧ (s.jobs j).data.id = c.data.id ∧
      (s.jobs j).data.simObjectId = c.data.simObjectId).foldl
    (fun s j => s.setJob j (copyFromCheckpoint (s.jobs j) c)) s

/-- **`restart`**, with the sim objects of the checkpoint: the executive ends when a job of the checkpoint has
    a name behind those of all jobs. -/
def restart (s : Executive) (allJobs : List Job) : Except String Executive :=
  let s := s.clearScheduledQueues
  let s := s.simObjects.foldl (fun s o => o.jobs.foldl (registerJob o) s) s
  let loaded := loadedJobs s.simObjects
  if allJobs.any fun c => loaded.all fun j => decide ((s.jobs j).name < c.name) then
    .error "Job in checkpoint file does not exist in current sim."
  else
    let s := allJobs.foldl (restoreJob loaded) s
    let s := s.simObjects.foldl (addJobsToQueue true) s
    .ok { s with numSimObjects := s.simObjects.length }

/-- A checkpoint is loaded: its objects stand in `sim_objects`, and the executive is restarted. -/
def loadCheckpoint (s : Executive) (c : Checkpoint) : Except String Executive :=
  { s with
    jobs := fun j => (c.newJobs j).getD (s.jobs j)
    simObjects := c.simObjects }.restart c.allJobs

/-! ## Runs -/

/-- The executive before any object is added: the main thread exists. -/
def construct (jobs : JobId → Job) : Executive where
  jobs := jobs
  queues := fun _ => {}
  threads := [fun _ => {}]
  simObjects := []
  numSimObjects := 0

/-- What a running executive is asked to do. -/
inductive Event where
  | addSimObject (o : SimObject)
  | deleteSimObject (o : SimObject)
  | loadCheckpoint (c : Checkpoint)

/-- **One event.**  An executive that ends is left as it was. -/
def step (s : Executive) : Event → Executive
  | .addSimObject o => s.addSimObject o
  | .deleteSimObject o => s.deleteSimObject o
  | .loadCheckpoint c => (s.loadCheckpoint c).toOption.getD s

/-- **Every job of a sim object stands once in each queue that its class and thread call for, and in no
    other queue.** -/
def Placed (s : Executive) : Prop :=
  ∀ j ∈ loadedJobs s.simObjects, ∀ p,
    (s.queueAt p).list.count j = (places (s.jobs j).className (s.jobs j).data.thread).count p

/-- **No job of the checkpoint waits in the queue that is not cleared.** -/
def Clears (s : Executive) (c : Checkpoint) : Prop :=
  ∀ j ∈ loadedJobs c.simObjects, j ∉ (s.queues .threadSync).list

/-- The condition on an event: an object that is added is a new one, and one that is deleted was added. -/
def Event.Ok (s : Executive) : Event → Prop
  | .addSimObject o => o.jobs.Nodup ∧ ∀ j ∈ o.jobs, j ∉ loadedJobs s.simObjects ∧ ∀ p, j ∉ (s.queueAt p).list
  | .deleteSimObject o => o ∈ s.simObjects
  | .loadCheckpoint c => Clears s c

/-! ## Queues and places -/

variable {s s' s'' : Executive}

/-- The place is that of a queue. -/
def HasPlace (s : Executive) : Place → Prop
  | .exec _ => True
  | .thread n _ => n < s.threads.length

/-- The queue of a thread that exists. -/
theorem queueAt_thread {n : Nat} {t : ThreadQueue → ScheduledJobQueue} (h : s.threads[n]? = some t)
    (q : ThreadQueue) : s.queueAt (.thread n q) = t q := by
  show ((s.threads[n]?).map (· q)).getD {} = t q
  rw [h]
  rfl

theorem queueAt_modifyQueue (f : ScheduledJobQueue → ScheduledJobQueue) {p : Place} (hp : HasPlace s p)
    (p' : Place) : (s.modifyQueue f p).queueAt p' = if p' = p then f (s.queueAt p) else s.queueAt p' := by
  cases p with
  | exec q =>
    cases p' with
    | exec q' =>
      show Function.update s.queues q (f (s.queues q)) q' = _
      by_cases hq : q' = q
      · subst hq
        rw [Function.update_self, if_pos rfl]
        rfl
      · rw [Function.update_of_ne hq, if_neg fun h => hq (Place.exec.inj h)]
        rfl
    | thread n q' =>
      rw [if_neg nofun]
      rfl
  | thread n q =>
    cases p' with
    | exec q' =>
      rw [if_neg nofun]
      rfl
    | thread n' q' =>
      have hmod : (s.threads.modify n fun t => Function.update t q (f (t q)))[n']? =
          (s.threads[n']?).map fun t => if n = n' then Function.update t q (f (t q)) else t := by
        rw [List.getElem?_modify]
        rfl
      cases ht : s.threads[n']? with
      | none =>
        have hne : n' ≠ n := by
          rintro rfl
          exact absurd (List.getElem?_eq_none_iff.mp ht) (not_le.mpr hp)
        rw [if_neg fun h => hne (Place.thread.inj h).1]
        show (((s.threads.modify n _)[n']?).map (· q')).getD ({} : ScheduledJobQueue) =
          ((s.threads[n']?).map (· q')).getD {}
        rw [hmod, ht]
        rfl
      | some t =>
        rw [ht] at hmod
        rw [queueAt_thread hmod, queueAt_thread ht]
        dsimp only
        by_cases hn : n = n'
        · subst hn
          rw [if_pos rfl, queueAt_thread ht]
          by_cases hq : q' = q
          · subst hq
            rw [if_pos rfl, Function.update_self]
          · rw [if_neg fun h => hq (Place.thread.inj h).2, Function.update_of_ne hq]
        · rw [if_neg fun h => hn (Place.thread.inj h).1.symm, if_neg hn]

theorem hasPlace_modifyQueue (f : ScheduledJobQueue → ScheduledJobQueue) (p p' : Place) :
    HasPlace (s.modifyQueue f p) p' ↔ HasPlace s p' := by
  cases p <;> cases p' <;> unfold HasPlace modifyQueue <;> simp

/-- There is no such queue. -/
theorem modifyQueue_of_not_hasPlace (f : ScheduledJobQueue → ScheduledJobQueue) {p : Place}
    (hp : ¬ HasPlace s p) : s.modifyQueue f p = s := by
  cases p with
  | exec q => exact absurd trivial hp
  | thread n q =>
    have hnone : s.threads[n]? = none := List.getElem?_eq_none_iff.mpr (not_lt.mp hp)
    show { s with threads := s.threads.modify n _ } = s
    rw [modify_eq_self hnone]

theorem queueAt_of_not_hasPlace {p : Place} (hp : ¬ HasPlace s p) : s.queueAt p = {} := by
  cases p with
  | exec q => exact absurd trivial hp
  | thread n q =>
    have hnone : s.threads[n]? = none := List.getElem?_eq_none_iff.mpr (not_lt.mp hp)
    unfold queueAt
    dsimp only
    rw [hnone]
    rfl

/-- **A job is pushed**: it stands once more in that queue. -/
theorem count_push {p : Place} (hp : HasPlace s p) (j x : JobId) (p' : Place) :
    ((s.push j p).queueAt p').list.count x = (s.queueAt p').list.count x + if x = j ∧ p' = p then 1 else 0 := by
  unfold push
  rw [queueAt_modifyQueue _ hp]
  by_cases hpp : p' = p
  · subst hpp
    rw [if_pos rfl]
    unfold ScheduledJobQueue.push
    dsimp only
    rw [(insertAt_perm _ _ _).count_eq, List.count_cons]
    by_cases hx : x = j
    · rw [if_pos (beq_iff_eq.mpr hx.symm), if_pos (And.intro hx rfl)]
    · rw [if_neg fun h => hx (beq_iff_eq.mp h).symm, if_neg fun h => hx h.1]
  · rw [if_neg hpp, if_neg fun h => hpp h.2]
    rfl

/-! ## Jobs are added -/

/-- **The jobs of `l` have been added**: each stands once more in each queue that its class and thread call
    for, and nothing else has changed. -/
structure Adds (l : List JobId) (s s' : Executive) : Prop where
  className : ∀ x, (s'.jobs x).className = (s.jobs x).className
  thread : ∀ x, (s'.jobs x).data.thread = (s.jobs x).data.thread
  simObjects : s'.simObjects = s.simObjects
  count : ∀ p x, (s'.queueAt p).list.count x = (s.queueAt p).list.count x +
    l.count x * (places (s.jobs x).className (s.jobs x).data.thread).count p

theorem Adds.append {l l' : List JobId} (h : Adds l s s') (h' : Adds l' s' s'') : Adds (l ++ l') s s'' where
  className x := (h'.className x).trans (h.className x)
  thread x := (h'.thread x).trans (h.thread x)
  simObjects := h'.simObjects.trans h.simObjects
  count p x := by
    rw [h'.count, h.count, h.className, h.thread, List.count_append, add_mul, add_assoc]

/-- A step that adds no job. -/
theorem Adds.of_queues (hclass : ∀ x, (s'.jobs x).className = (s.jobs x).className)
    (hthread : ∀ x, (s'.jobs x).data.thread = (s.jobs x).data.thread) (hobjects : s'.simObjects = s.simObjects)
    (hqueue : ∀ p, (s'.queueAt p).list = (s.queueAt p).list) : Adds [] s s' := by
  refine ⟨hclass, hthread, hobjects, ?_⟩
  intro p x
  rw [hqueue, List.count_nil, zero_mul, add_zero]

theorem adds_refl (s : Executive) : Adds [] s s :=
  Adds.of_queues (fun _ => rfl) (fun _ => rfl) rfl fun _ => rfl

/-- What the queues do not look at. -/
theorem adds_setJob {j : JobId} {d : Job} (hclass : d.className = (s.jobs j).className)
    (hthread : d.data.thread = (s.jobs j).data.thread) : Adds [] s (s.setJob j d) := by
  have hfield : ∀ x, (Function.update s.jobs j d x).className = (s.jobs x).className ∧
      (Function.update s.jobs j d x).data.thread = (s.jobs x).data.thread := by
    intro x
    by_cases hx : x = j
    · subst hx
      rw [Function.update_self]
      exact ⟨hclass, hthread⟩
    · rw [Function.update_of_ne hx]
      exact ⟨rfl, rfl⟩
  exact Adds.of_queues (fun x => (hfield x).1) (fun x => (hfield x).2) rfl fun p => by cases p <;> rfl

/-- A job is pushed on several queues. -/
theorem count_pushes (j : JobId) : ∀ (ps : List Place) (s : Executive), (∀ p ∈ ps, HasPlace s p) →
    let s' := ps.foldl (fun s p => s.push j p) s
    s'.jobs = s.jobs ∧ s'.simObjects = s.simObjects ∧ ∀ p x, (s'.queueAt p).list.count x =
      (s.queueAt p).list.count x + if x = j then ps.count p else 0 := by
  intro ps
  induction ps with
  | nil => exact fun s _ => ⟨rfl, rfl, fun p x => by simp⟩
  | cons p ps ih =>
    intro s hps
    have hfirst : HasPlace s p := hps p List.mem_cons_self
    have hrest : ∀ p' ∈ ps, HasPlace (s.push j p) p' := by
      intro p' hp'
      exact (hasPlace_modifyQueue _ p p').mpr (hps p' (List.mem_cons_of_mem p hp'))
    obtain ⟨hjobs, hobjects, hcount⟩ := ih (s.push j p) hrest
    have hsame : (s.push j p).jobs = s.jobs ∧ (s.push j p).simObjects = s.simObjects := by
      cases p <;> exact ⟨rfl, rfl⟩
    refine ⟨hjobs.trans hsame.1, hobjects.trans hsame.2, ?_⟩
    intro p' x
    rw [List.foldl_cons, hcount, count_push hfirst, List.count_cons]
    by_cases hx : x = j
    · by_cases hp : p' = p
      · subst hp
        simp [hx]
        omega
      · have hne : ¬ p = p' := fun h => hp h.symm
        simp [hx, hp, hne]
    · simp [hx]

/-- **The number of the class leads to the queues that the class and the thread call for.** -/
theorem addJobToQueue_eq (s : Executive) (j : JobId) :
    ∃ c : Int, s.addJobToQueue j =
      (places (s.jobs j).className (s.jobs j).data.thread).foldl (fun s p => s.push j p)
        (s.setJob j { s.jobs j with data := { (s.jobs j).data with jobClass := c } }) := by
  have hself : ∀ d : Job, (s.setJob j d).jobs j = d := fun d => Function.update_self ..
  unfold addJobToQueue
  cases hmap : classMap (s.jobs j).className with
  | none =>
    -- the scheduler does not know the class
    refine ⟨(s.jobs j).data.jobClass, ?_⟩
    have hsame : s.setJob j (s.jobs j) = s := by
      unfold setJob
      rw [Function.update_eq_self]
    cases hclass : (s.jobs j).className with
    | unknown => exact hsame.symm
    | _ =>
      rw [hclass] at hmap
      cases hmap
  | some c =>
    refine ⟨c, ?_⟩
    dsimp only
    rw [hself]
    dsimp only
    generalize s.setJob j _ = s₁
    cases hclass : (s.jobs j).className with
    | scheduled n =>
      rw [hclass] at hmap
      cases hmap
      have hge : (1000 + n : Int) ≥ 1000 := by omega
      rw [if_pos hge, if_pos hge]
      split
      · rfl
      · rename_i hn
        rw [not_not.mp hn]
        rfl
    | topOfFrame | endOfFrame =>
      rw [hclass] at hmap
      cases hmap
      by_cases hn : (s.jobs j).data.thread = 0
      · rw [if_neg (not_not.mpr hn), hn]
        rfl
      · rw [if_pos hn]
        show _ = List.foldl _ _ (if _ then _ else _)
        rw [if_neg hn]
        rfl
    | unknown =>
      rw [hclass] at hmap
      cases hmap
    | _ =>
      rw [hclass] at hmap
      cases hmap
      split <;> rfl

/-- Of the threads only that of the job is called for. -/
theorem thread_of_mem_places {c : ClassName} {m n : Nat} {q : ThreadQueue} (h : .thread n q ∈ places c m) :
    n = m := by
  cases c with
  | scheduled k =>
    have h : Place.thread n q ∈ [Place.thread m .jobQueue, .exec .scheduled] := h
    rcases List.mem_cons.mp h with h | h
    · exact (Place.thread.inj h).1
    · cases List.mem_singleton.mp h
  | topOfFrame =>
    have h : Place.thread n q ∈ if m = 0 then [.exec .topOfFrame] else [.thread m .topOfFrame] := h
    split at h
    · cases List.mem_singleton.mp h
    · exact (Place.thread.inj (List.mem_singleton.mp h)).1
  | endOfFrame =>
    have h : Place.thread n q ∈ if m = 0 then [.exec .endOfFrame] else [.thread m .endOfFrame] := h
    split at h
    · cases List.mem_singleton.mp h
    · exact (Place.thread.inj (List.mem_singleton.mp h)).1
  | unknown => cases h
  | _ =>
    rcases h with _ | ⟨_, h⟩
    cases h

/-- **A job is added** to the queues that its class and thread call for. -/
theorem adds_addJobToQueue {j : JobId} (hthread : (s.jobs j).data.thread < s.threads.length) :
    Adds [j] s (s.addJobToQueue j) := by
  obtain ⟨c, heq⟩ := addJobToQueue_eq s j
  have hset : Adds [] s (s.setJob j { s.jobs j with data := { (s.jobs j).data with jobClass := c } }) :=
    adds_setJob rfl rfl
  have hplaces : ∀ p ∈ places (s.jobs j).className (s.jobs j).data.thread, HasPlace s p := by
    intro p hp
    cases p with
    | exec q => trivial
    | thread n q =>
      have hn : n = (s.jobs j).data.thread := thread_of_mem_places hp
      show n < s.threads.length
      rw [hn]
      exact hthread
  rw [heq]
  have hhas : ∀ p ∈ places (s.jobs j).className (s.jobs j).data.thread,
      HasPlace (s.setJob j { s.jobs j with data := { (s.jobs j).data with jobClass := c } }) p := by
    intro p hp
    have hp := hplaces p hp
    cases p <;> exact hp
  obtain ⟨hjobs, hobjects, hcount⟩ := count_pushes j _ _ hhas
  refine ⟨?_, ?_, hobjects.trans hset.simObjects, ?_⟩
  · intro x
    rw [hjobs]
    exact hset.className x
  · intro x
    rw [hjobs]
    exact hset.thread x
  · intro p x
    rw [hcount, hset.count, List.count_nil, zero_mul, add_zero, List.count_singleton]
    by_cases hx : x = j
    · rw [if_pos hx, hx, if_pos (beq_self_eq_true j), one_mul]
    · rw [if_neg hx, if_neg fun h => hx (beq_iff_eq.mp h).symm, zero_mul]

/-- New threads have empty queues. -/
theorem adds_threads (s : Executive) (k : Nat) :
    Adds [] s { s with threads := s.threads ++ List.replicate k (fun _ => ({} : ScheduledJobQueue)) } := by
  refine Adds.of_queues (fun _ => rfl) (fun _ => rfl) rfl ?_
  intro p
  cases p with
  | exec q => rfl
  | thread n q =>
    show ((((s.threads ++ _)[n]?).map (· q)).getD ({} : ScheduledJobQueue)).list = _
    by_cases hn : n < s.threads.length
    · rw [List.getElem?_append_left hn]
      rfl
    · have hnone : s.threads[n]? = none := List.getElem?_eq_none_iff.mpr (not_lt.mp hn)
      have hold : s.queueAt (.thread n q) = {} := queueAt_of_not_hasPlace hn
      rw [hold, List.getElem?_append_right (not_lt.mp hn), List.getElem?_replicate]
      split <;> rfl

theorem adds_addJob (o : SimObject) (restartFlag : Bool) (s : Executive) (j : JobId) :
    Adds [j] s (addJob o restartFlag s j) := by
  unfold addJob
  dsimp only
  generalize hd : ({ s.jobs j with
    name := if restartFlag = false then o.name ++ "." ++ (s.jobs j).name else (s.jobs j).name
    data := { (s.jobs j).data with simObjectId := o.id } } : Job) = d
  have hset : Adds [] s (s.setJob j d) := by
    subst hd
    exact adds_setJob rfl rfl
  have hthreads := adds_threads (s.setJob j d) (((s.setJob j d).jobs j).data.thread + 1 - (s.setJob j d).threads.length)
  refine (hset.append hthreads).append (adds_addJobToQueue ?_)
  show ((s.setJob j d).jobs j).data.thread < ((s.setJob j d).threads ++ List.replicate _ _).length
  rw [List.length_append, List.length_replicate]
  omega

/-- **The jobs of an object are added.** -/
theorem adds_addJobsToQueue (restartFlag : Bool) (s : Executive) (o : SimObject) :
    Adds o.jobs s (s.addJobsToQueue restartFlag o) := by
  have hfold : ∀ (l : List JobId) (s : Executive), Adds l s (l.foldl (addJob o restartFlag) s) := by
    intro l
    induction l with
    | nil => exact adds_refl
    | cons j l ih => exact fun s => (adds_addJob o restartFlag s j).append (ih _)
  exact hfold o.jobs s

/-- **The jobs of all objects are added.** -/
theorem adds_objects (objects : List SimObject) :
    ∀ s : Executive, Adds (loadedJobs objects) s (objects.foldl (addJobsToQueue true) s) := by
  induction objects with
  | nil => exact adds_refl
  | cons o objects ih => exact fun s => (adds_addJobsToQueue true s o).append (ih _)

/-! ## The restart -/

/-- What does not concern the queues. -/
structure SameQueues (s s' : Executive) : Prop where
  queues : s'.queues = s.queues
  threads : s'.threads = s.threads
  simObjects : s'.simObjects = s.simObjects

theorem SameQueues.trans (h : SameQueues s s') (h' : SameQueues s' s'') : SameQueues s s'' :=
  ⟨h'.queues.trans h.queues, h'.threads.trans h.threads, h'.simObjects.trans h.simObjects⟩

/-- A loop over steps that do not concern the queues. -/
theorem sameQueues_foldl {β : Type*} {f : Executive → β → Executive} (hf : ∀ s b, SameQueues s (f s b)) :
    ∀ (l : List β) (s : Executive), SameQueues s (l.foldl f s) := by
  intro l
  induction l with
  | nil => exact fun s => ⟨rfl, rfl, rfl⟩
  | cons b l ih => exact fun s => (hf s b).trans (ih _)

/-- The queue that `clear_scheduled_queues` does not name keeps its jobs. -/
theorem queueAt_clear (s : Executive) (p : Place) : (s.clearScheduledQueues.queueAt p).list =
    if p = .exec .threadSync then (s.queues .threadSync).list else [] := by
  cases p with
  | exec q => cases q <;> rfl
  | thread n q =>
    rw [if_neg nofun]
    have hget : s.clearScheduledQueues.threads[n]? =
        (s.threads[n]?).map fun _ => fun _ => ({} : ScheduledJobQueue) := List.getElem?_map
    unfold queueAt
    dsimp only
    rw [hget]
    cases s.threads[n]? <;> rfl

/-- **The restart of the executive**: the loaded jobs join those that were in the queue that is not cleared. -/
theorem loadCheckpoint_count {c : Checkpoint} (h : s.loadCheckpoint c = .ok s') :
    s'.simObjects = c.simObjects ∧ ∀ p x, (s'.queueAt p).list.count x =
      (if p = .exec .threadSync then (s.queues .threadSync).list.count x else 0) +
        (loadedJobs c.simObjects).count x * (places (s'.jobs x).className (s'.jobs x).data.thread).count p := by
  unfold loadCheckpoint restart at h
  dsimp only at h
  split at h
  · cases h
  have h := Except.ok.inj h
  generalize hclear : ({ s with
    jobs := fun j => (c.newJobs j).getD (s.jobs j)
    simObjects := c.simObjects } : Executive).clearScheduledQueues = s₁ at h
  have hset : ∀ (s : Executive) (j : JobId) (d : Job), SameQueues s (s.setJob j d) := fun _ _ _ => ⟨rfl, rfl, rfl⟩
  have hregister : SameQueues s₁ (s₁.simObjects.foldl (fun s o => o.jobs.foldl (registerJob o) s) s₁) := by
    refine sameQueues_foldl (fun s o => ?_) _ _
    exact sameQueues_foldl (fun s j => hset s j _) o.jobs s
  generalize s₁.simObjects.foldl (fun s o => o.jobs.foldl (registerJob o) s) s₁ = s₂ at h hregister
  have hrestore : SameQueues s₂ (c.allJobs.foldl (restoreJob (loadedJobs s₂.simObjects)) s₂) :=
    sameQueues_foldl (fun s j => sameQueues_foldl (fun s j => hset s j _) _ s) _ _
  generalize c.allJobs.foldl (restoreJob (loadedJobs s₂.simObjects)) s₂ = s₃ at h hrestore
  have hsame := hregister.trans hrestore
  have hadds := adds_objects s₃.simObjects s₃
  generalize s₃.simObjects.foldl (addJobsToQueue true) s₃ = s₄ at h hadds
  subst h
  have hobjects : s₃.simObjects = c.simObjects := by
    rw [hsame.simObjects, ← hclear]
    rfl
  refine ⟨hadds.simObjects.trans hobjects, ?_⟩
  intro p x
  have hqueue : (s₃.queueAt p).list = if p = .exec .threadSync then (s.queues .threadSync).list else [] := by
    have hcleared := queueAt_clear { s with
      jobs := fun j => (c.newJobs j).getD (s.jobs j)
      simObjects := c.simObjects } p
    rw [hclear] at hcleared
    rw [← hcleared]
    unfold queueAt
    rw [hsame.queues, hsame.threads]
  have hcount := hadds.count p x
  rw [hqueue, hobjects] at hcount
  show (s₄.queueAt p).list.count x = _
  rw [hcount, hadds.className, hadds.thread]
  split
  · rfl
  · rw [List.count_nil]

/-- **The loaded jobs are placed if and only if none of them waits in the queue that is not cleared.** -/
theorem loadCheckpoint_placed {c : Checkpoint} (h : s.loadCheckpoint c = .ok s') :
    Placed s' ↔ Clears s c := by
  obtain ⟨hobjects, hcount⟩ := loadCheckpoint_count h
  have hone : ∀ {j : JobId}, j ∈ loadedJobs c.simObjects → (loadedJobs c.simObjects).count j = 1 :=
    fun hj => List.count_eq_one_of_mem c.nodup hj
  unfold Placed Clears
  rw [hobjects]
  constructor
  · intro hplaced j hj hmem
    have hpos := List.count_pos_iff.mpr hmem
    have hp := hplaced j hj (.exec .threadSync)
    rw [hcount, if_pos rfl, hone hj, one_mul] at hp
    omega
  · intro hclears j hj p
    rw [hcount, hone hj, one_mul]
    split
    · rw [List.count_eq_zero.mpr (hclears j hj), zero_add]
    · rw [zero_add]

/-! ## Jobs are removed -/

/-- **Only jobs of `l` have been removed.** -/
structure Removes (l : List JobId) (s s' : Executive) : Prop where
  jobs : s'.jobs = s.jobs
  simObjects : s'.simObjects = s.simObjects
  count : ∀ p, ∀ x ∉ l, (s'.queueAt p).list.count x = (s.queueAt p).list.count x

theorem Removes.trans {l : List JobId} (h : Removes l s s') (h' : Removes l s' s'') : Removes l s s'' :=
  ⟨h'.jobs.trans h.jobs, h'.simObjects.trans h.simObjects,
    fun p x hx => (h'.count p x hx).trans (h.count p x hx)⟩

theorem removes_remove {l : List JobId} {j : JobId} (hj : j ∈ l) (s : Executive) (p : Place) :
    Removes l s (s.modifyQueue (ScheduledJobQueue.remove j) p) := by
  have hremove : ∀ (q : ScheduledJobQueue), ∀ x ∉ l, (q.remove j).list.count x = q.list.count x := by
    intro q x hx
    have hne : x ≠ j := by
      rintro rfl
      exact hx hj
    unfold ScheduledJobQueue.remove
    split
    · exact List.count_erase_of_ne hne
    · rfl
  refine ⟨by cases p <;> rfl, by cases p <;> rfl, ?_⟩
  intro p' x hx
  by_cases hp : HasPlace s p
  · rw [queueAt_modifyQueue _ hp]
    split
    · rename_i heq
      rw [hremove _ x hx, heq]
    · rfl
  · rw [modifyQueue_of_not_hasPlace _ hp]

/-- The loop of `remove_jobs`, for one job. -/
theorem removes_removeJob {l : List JobId} {j : JobId} (hj : j ∈ l) (s : Executive) :
    Removes l s (s.removeJob j) := by
  have hone := removes_remove hj
  have hnone : Removes l s s := ⟨rfl, rfl, fun _ _ _ => rfl⟩
  unfold removeJob
  dsimp only
  split
  · exact hnone
  · split_ifs
    · exact (hone s _).trans (hone _ _)
    · exact hone s _
    · exact hone s _
    · split
      · exact hone s _
      · exact hnone
    · exact (hone s _).trans (hone _ _)
    · split
      · exact hone s _
      · exact hnone

theorem removes_jobs (l : List JobId) : ∀ (l' : List JobId) (s : Executive), l' ⊆ l →
    Removes l s (l'.foldl removeJob s) := by
  intro l'
  induction l' with
  | nil => exact fun s _ => ⟨rfl, rfl, fun _ _ _ => rfl⟩
  | cons j l' ih =>
    intro s hsub
    exact (removes_removeJob (hsub List.mem_cons_self) s).trans
      (ih _ fun k hk => hsub (List.mem_cons_of_mem j hk))

/-! ## Every run -/

/-- **The invariant of a run**: the jobs are placed, and each belongs to one object, once. -/
structure Rebuilt (s : Executive) : Prop where
  placed : Placed s
  nodup : (loadedJobs s.simObjects).Nodup

/-- A new object is added. -/
theorem Rebuilt.addSimObject (h : Rebuilt s) {o : SimObject} (hok : Event.Ok s (.addSimObject o)) :
    Rebuilt (s.addSimObject o) := by
  obtain ⟨hnodup, hnew⟩ := hok
  unfold Executive.addSimObject
  dsimp only
  have hadds := adds_addJobsToQueue false
    { s with
      numSimObjects := s.numSimObjects + 1
      simObjects := s.simObjects ++ [{ o with id := s.numSimObjects + 1 }] }
    { o with id := s.numSimObjects + 1 }
  generalize Executive.addJobsToQueue false _ _ = s' at hadds ⊢
  have hloaded : loadedJobs s'.simObjects = loadedJobs s.simObjects ++ o.jobs := by
    rw [hadds.simObjects]
    show (s.simObjects ++ [_]).flatMap SimObject.jobs = _
    rw [List.flatMap_append, List.flatMap_singleton]
    rfl
  refine ⟨?_, ?_⟩
  · intro j hj p
    rw [hadds.count, hadds.className, hadds.thread]
    rw [hloaded, List.mem_append] at hj
    have hqueue : ∀ p, (Executive.queueAt { s with
        numSimObjects := s.numSimObjects + 1
        simObjects := s.simObjects ++ [{ o with id := s.numSimObjects + 1 }] } p) = s.queueAt p := by
      intro p
      cases p <;> rfl
    rw [hqueue]
    rcases hj with hj | hj
    · -- the jobs that were there are no jobs of the new object
      have hnot : j ∉ o.jobs := fun hjo => (hnew j hjo).1 hj
      rw [List.count_eq_zero.mpr hnot, zero_mul, add_zero]
      exact h.placed j hj p
    · rw [List.count_eq_zero.mpr ((hnew j hj).2 p), zero_add, List.count_eq_one_of_mem hnodup hj, one_mul]
  · rw [hloaded]
    refine List.nodup_append.mpr ⟨h.nodup, hnodup, ?_⟩
    rintro j hj k hk rfl
    exact (hnew j hk).1 hj

/-- An object is deleted. -/
theorem Rebuilt.deleteSimObject (h : Rebuilt s) {o : SimObject} (ho : o ∈ s.simObjects) :
    Rebuilt (s.deleteSimObject o) := by
  unfold Executive.deleteSimObject
  have hremoves := removes_jobs o.jobs o.jobs { s with simObjects := s.simObjects.filter fun o' => o' ≠ o }
    (List.Subset.refl _)
  generalize List.foldl _ _ _ = s' at hremoves ⊢
  have hsub : (loadedJobs (s.simObjects.filter fun o' => o' ≠ o)).Sublist (loadedJobs s.simObjects) :=
    List.filter_sublist.flatMap _
  obtain ⟨-, hpair⟩ := List.nodup_flatMap.mp h.nodup
  refine ⟨?_, ?_⟩
  · intro j hj p
    rw [hremoves.simObjects] at hj
    rw [hremoves.jobs]
    -- the job belongs to another object, so not to the one that is deleted
    have hnot : j ∉ o.jobs := by
      obtain ⟨o', ho', hj'⟩ := List.mem_flatMap.mp hj
      obtain ⟨ho', hne⟩ := List.mem_filter.mp ho'
      intro hjo
      have hsymm : Std.Symm (Function.onFun List.Disjoint SimObject.jobs) := ⟨fun _ _ hd => hd.symm⟩
      exact List.Pairwise.forall hpair ho' ho (of_decide_eq_true hne) hj' hjo
    rw [hremoves.count p j hnot]
    have hplaced := h.placed j (hsub.subset hj) p
    rw [← hplaced]
    cases p <;> rfl
  · rw [hremoves.simObjects]
    exact h.nodup.sublist hsub

/-- **The step lemma.** -/
theorem Rebuilt.step (h : Rebuilt s) {e : Event} (hok : Event.Ok s e) : Rebuilt (s.step e) := by
  cases e with
  | addSimObject o => exact h.addSimObject hok
  | deleteSimObject o => exact h.deleteSimObject hok
  | loadCheckpoint c =>
    show Rebuilt ((s.loadCheckpoint c).toOption.getD s)
    cases hload : s.loadCheckpoint c with
    | error _ => exact h
    | ok s' =>
      refine ⟨(loadCheckpoint_placed hload).mpr hok, ?_⟩
      show (loadedJobs s'.simObjects).Nodup
      rw [(loadCheckpoint_count hload).1]
      exact c.nodup

end Executive

end Trick.Restart
