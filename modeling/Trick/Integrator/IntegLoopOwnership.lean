/-
  Which integration loop owns a sim object: `IntegLoopScheduler`'s `add_sim_object`,
  `remove_sim_object` and `rebuild_jobs`.

  1. **Data** — the sim objects of the executive, the manager's entries (empty until the first build and
     after a restart), and for each loop its list of sim objects and its five job queues.  `rebuilt`
     is history: the queues of the loop were rebuilt since its list last changed and since the manager
     was last built or cleared.

  2. **Program** — `step`, one call at a time.  A rebuild of a loop builds the manager if the executive's
     sim objects are not the ones it has entries for, and with that the other loops' `integrated_by`
     pointers are gone until those loops are rebuilt too.  Before the first build `add_sim_object`
     looks at no other loop's list.

  3. **Specification** — `Ownership`: a sim object is in one list, once, its pointer names that loop, and
     the queues hold exactly the jobs of the sim objects in the list.

  4. **Result** — `ownership_iff`: in a run whose calls meet `CallOk`, `Ownership` holds exactly in the
     states in which every loop that has something in it is `rebuilt`.  `twoLoops` and `lostPointer` are
     runs with a call that does not meet `CallOk`.
-/
import Trick.Lib.Run
import Trick.Integrator.IntegLoopManager

namespace Trick.IntegLoops

open Trick.Lib

/-! ## The loops and their operations -/

/-- The scheduler of an integration loop: the sim objects that it integrates and its job queues. -/
structure IntegLoopScheduler where
  simObjects : List SimObject := []
  queue : JobClass → List JobData := fun _ => []

/-- The executive's sim objects, the manager and the loops. -/
structure Integration (ι : Type) where
  execSimObjects : List SimObject
  simObjectsInfo : List (SimObjectIntegInfo ι) := []
  loops : ι → IntegLoopScheduler := fun _ => {}
  rebuilt : ι → Bool := fun _ => false

/-- A loop over a list that an exception ends early, with what was done before it. -/
def forEach {σ α : Type} (f : σ → α → σ × Bool) (s : σ) : List α → σ × Bool
  | [] => (s, true)
  | a :: as => if (f s a).2 then forEach f (f s a).1 as else ((f s a).1, false)

variable {ι : Type} [DecidableEq ι]

namespace Integration

/-- The sim objects that the manager has entries for. -/
def known (s : Integration ι) : List SimObject :=
  s.simObjectsInfo.map SimObjectIntegInfo.simObject

/-- `build_sim_object_info`: nothing to do if the entries are for the executive's sim objects. -/
def buildSimObjectInfo (sim : Simulation) (s : Integration ι) : Integration ι :=
  if s.known = s.execSimObjects then s
  else { s with simObjectsInfo := buildInfos sim s.execSimObjects, rebuilt := fun _ => false }

/-- The manager after `find_sim_object_info` with `allow_rebuild`. -/
def findOrBuild (sim : Simulation) (s : Integration ι) (o : SimObject) : Integration ι :=
  if (findSimObjectInfo s.simObjectsInfo o).isSome then s else s.buildSimObjectInfo sim

/-- `set_integrated_by`, with the build for a sim object that has no entry. -/
def assign (sim : Simulation) (l : ι) (s : Integration ι) (o : SimObject) : Integration ι :=
  let s := s.findOrBuild sim o
  { s with simObjectsInfo := setIntegratedBy l s.simObjectsInfo o }

/-- One of the queues of a loop. -/
def setQueue (s : Integration ι) (l : ι) (c : JobClass) (queue : List JobData) : Integration ι :=
  let loop := { s.loops l with queue := Function.update (s.loops l).queue c queue }
  { s with loops := Function.update s.loops l loop }

/-- `add_jobs_to_queue`: `std::out_of_range` for a sim object without an entry. -/
def addJobsToQueue (sim : Simulation) (l : ι) (c : JobClass) (s : Integration ι)
    (o : SimObject) : Integration ι × Bool :=
  let s := s.findOrBuild sim o
  match findSimObjectInfo s.simObjectsInfo o with
  | none => (s, false)
  | some info =>
    (s.setQueue l c ((info.ownedJobs c).foldl pushIgnoreSimObject ((s.loops l).queue c)), true)

/-- One of the queues is torn down and filled again. -/
def rebuildQueue (sim : Simulation) (l : ι) (s : Integration ι) (c : JobClass) :
    Integration ι × Bool :=
  forEach (addJobsToQueue sim l c) (s.setQueue l c []) (s.loops l).simObjects

/-- `rebuild_jobs`; `false` if an exception ends it. -/
def rebuildJobs (sim : Simulation) (s : Integration ι) (l : ι) : Integration ι × Bool :=
  let s := s.buildSimObjectInfo sim
  let s := { s with simObjectsInfo := clearIntegratedBy s.simObjectsInfo l }
  let s := (s.loops l).simObjects.foldl (assign sim l) s
  let r := forEach (rebuildQueue sim l) s JobClass.all
  if r.2 then ({ r.1 with rebuilt := Function.update r.1.rebuilt l true }, true) else r

/-- The list of a loop changes. -/
def setObjects (s : Integration ι) (l : ι) (objects : List SimObject) : Integration ι :=
  let loop := { s.loops l with simObjects := objects }
  { s with loops := Function.update s.loops l loop, rebuilt := Function.update s.rebuilt l false }

/-- `remove_sim_object`; `false` if an exception ends it. -/
def removeSimObject (sim : Simulation) (s : Integration ι) (l : ι) (o : SimObject) :
    Integration ι × Bool :=
  if o ∉ (s.loops l).simObjects then (s, true)
  else
    let s := s.setObjects l ((s.loops l).simObjects.erase o)
    if s.simObjectsInfo.isEmpty then (s, true) else s.rebuildJobs sim l

/-- `add_sim_object`, with the removal from the loop that the manager says integrates it. -/
def addSimObject (sim : Simulation) (s : Integration ι) (l : ι) (o : SimObject) :
    Integration ι × Bool :=
  if o ∈ (s.loops l).simObjects then (s, true)
  else
    let s := s.setObjects l ((s.loops l).simObjects ++ [o])
    if s.simObjectsInfo.isEmpty then (s, true)
    else
      match getIntegratedBy s.simObjectsInfo o with
      | none => s.rebuildJobs sim l
      | some other =>
        let r := s.removeSimObject sim other o
        if r.2 then r.1.rebuildJobs sim l else r

end Integration

/-- The calls, in the order in which they come. -/
inductive Call (ι : Type) where
  | addSimObject (l : ι) (o : SimObject)
  | removeSimObject (l : ι) (o : SimObject)
  | rebuildJobs (l : ι)
  /-- `exec_add_sim_object`, for each of the components too. -/
  | execAddSimObject (o : SimObject)
  /-- `exec_delete_sim_object`, for each of the components too. -/
  | execDeleteSimObject (o : SimObject)
  /-- `restart_checkpoint`, the `preload_checkpoint` job. -/
  | restartCheckpoint
  /-- The checkpoint is loaded: the lists are the ones of the checkpoint. -/
  | loadCheckpoint (lists : ι → List SimObject)

namespace Integration

/-- **One call.** -/
def step (sim : Simulation) (s : Integration ι) : Call ι → Integration ι
  | .addSimObject l o => (s.addSimObject sim l o).1
  | .removeSimObject l o => (s.removeSimObject sim l o).1
  | .rebuildJobs l => (s.rebuildJobs sim l).1
  | .execAddSimObject o => { s with execSimObjects := s.execSimObjects ++ [o] }
  | .execDeleteSimObject o => { s with execSimObjects := s.execSimObjects.filter (· ≠ o) }
  | .restartCheckpoint => { s with simObjectsInfo := [], rebuilt := fun _ => false }
  | .loadCheckpoint lists =>
    let loops := fun l => { s.loops l with simObjects := lists l }
    { s with loops := loops, rebuilt := fun _ => false }

/-! ## What should hold -/

/-- The list of a loop. -/
def objects (s : Integration ι) (l : ι) : List SimObject := (s.loops l).simObjects

/-- No sim object is in two lists, or twice in one. -/
def Separate (lists : ι → List SimObject) : Prop :=
  (∀ l, (lists l).Nodup) ∧ ∀ l l', ∀ o ∈ lists l, o ∈ lists l' → l = l'

/-- The executive has the sim objects of a list. -/
def Registered (s : Integration ι) (objects : List SimObject) : Prop :=
  ∀ o ∈ objects, o ∈ s.execSimObjects

/-- **The condition on a call.**  A loop is only rebuilt with sim objects of the executive.  The rebuild
    that builds the manager for the first time, or for the first time after a restart, finds no sim
    object in two lists.  After it, a sim object is only added that is in no other list, or in the
    list of the loop that its pointer names.  A sim object is in the executive once. -/
def CallOk (s : Integration ι) : Call ι → Prop
  | .addSimObject l o =>
    o ∉ (s.loops l).simObjects → s.simObjectsInfo ≠ [] →
      s.Registered ((s.loops l).simObjects ++ [o]) ∧
      (∀ l', getIntegratedBy s.simObjectsInfo o = some l' → s.Registered (s.loops l').simObjects) ∧
      ∀ l', o ∈ (s.loops l').simObjects → getIntegratedBy s.simObjectsInfo o = some l'
  | .removeSimObject l o =>
    s.simObjectsInfo ≠ [] → s.Registered ((s.loops l).simObjects.erase o)
  | .rebuildJobs l =>
    s.Registered (s.loops l).simObjects ∧ (s.simObjectsInfo = [] → Separate s.objects)
  | .execAddSimObject o => o ∉ s.execSimObjects
  | .execDeleteSimObject _ => True
  | .restartCheckpoint => True
  | .loadCheckpoint _ => s.simObjectsInfo = []

instance (s : Integration ι) (objects : List SimObject) : Decidable (s.Registered objects) :=
  inferInstanceAs (Decidable (∀ _ ∈ _, _))

instance [Fintype ι] (lists : ι → List SimObject) : Decidable (Separate lists) :=
  inferInstanceAs (Decidable (_ ∧ _))

instance [Fintype ι] (s : Integration ι) (call : Call ι) : Decidable (CallOk s call) :=
  match call with
  | .addSimObject _ _ => inferInstanceAs (Decidable (_ → ¬ _ → _ ∧ _ ∧ _))
  | .removeSimObject _ _ => inferInstanceAs (Decidable (¬ _ → _))
  | .rebuildJobs _ => inferInstanceAs (Decidable (_ ∧ _))
  | .execAddSimObject _ => inferInstanceAs (Decidable (¬ _))
  | .execDeleteSimObject _ => inferInstanceAs (Decidable True)
  | .restartCheckpoint => inferInstanceAs (Decidable True)
  | .loadCheckpoint _ => inferInstanceAs (Decidable (_ = _))

/-! ## A rebuild, step by step -/

omit [DecidableEq ι] in
theorem findOrBuild_of_current {sim : Simulation} {s : Integration ι}
    (h : s.known = s.execSimObjects) (o : SimObject) : s.findOrBuild sim o = s := by
  unfold findOrBuild buildSimObjectInfo
  rw [if_pos h]
  exact ite_self s

omit [DecidableEq ι] in
/-- After the build no search builds again, so only the pointers change. -/
theorem foldl_assign {sim : Simulation} {l : ι} (objects : List SimObject) :
    ∀ s : Integration ι, s.known = s.execSimObjects →
      objects.foldl (assign sim l) s =
        { s with simObjectsInfo := objects.foldl (setIntegratedBy l) s.simObjectsInfo } := by
  induction objects with
  | nil => intro s _; rfl
  | cons o objects ih =>
    intro s h
    have hs : s.assign sim l o =
        { s with simObjectsInfo := setIntegratedBy l s.simObjectsInfo o } := by
      unfold assign
      rw [findOrBuild_of_current h]
    rw [List.foldl_cons, hs, ih]
    · rfl
    · exact (sameJobs_setIntegratedBy l s.simObjectsInfo o).simObjects.trans h

/-- What the queue of a class becomes when the jobs of sim objects are pushed on it. -/
def fill (infos : List (SimObjectIntegInfo ι)) (c : JobClass) (objects : List SimObject)
    (queue : List JobData) : List JobData :=
  objects.foldl (fun queue o => (entryJobs infos c o).foldl pushIgnoreSimObject queue) queue

@[simp] theorem setQueue_self (s : Integration ι) (l : ι) (c : JobClass) :
    s.setQueue l c ((s.loops l).queue c) = s := by
  unfold setQueue
  rw [Function.update_eq_self]
  show { s with loops := Function.update s.loops l (s.loops l) } = s
  rw [Function.update_eq_self]

@[simp] theorem setQueue_setQueue (s : Integration ι) (l : ι) (c : JobClass)
    (queue queue' : List JobData) :
    (s.setQueue l c queue).setQueue l c queue' = s.setQueue l c queue' := by
  simp [setQueue]

@[simp] theorem queue_setQueue (s : Integration ι) (l : ι) (c : JobClass) (queue : List JobData) :
    ((s.setQueue l c queue).loops l).queue c = queue := by
  simp [setQueue]

@[simp] theorem simObjects_setQueue (s : Integration ι) (l l' : ι) (c : JobClass)
    (queue : List JobData) :
    ((s.setQueue l c queue).loops l').simObjects = (s.loops l').simObjects := by
  unfold setQueue
  by_cases h : l' = l
  · subst h
    simp
  · simp [h]

theorem forEach_addJobsToQueue {sim : Simulation} {l : ι} {c : JobClass}
    (objects : List SimObject) :
    ∀ s : Integration ι, s.known = s.execSimObjects → (∀ o ∈ objects, o ∈ s.known) →
      forEach (addJobsToQueue sim l c) s objects =
        (s.setQueue l c (fill s.simObjectsInfo c objects ((s.loops l).queue c)), true) := by
  induction objects with
  | nil => intro s _ _; exact congrArg (·, true) (setQueue_self s l c).symm
  | cons o objects ih =>
    intro s h ho
    obtain ⟨info, hinfo⟩ := Option.isSome_iff_exists.mp
      (isSome_findSimObjectInfo.mpr (ho o List.mem_cons_self))
    have hs : addJobsToQueue sim l c s o = (s.setQueue l c
        ((entryJobs s.simObjectsInfo c o).foldl pushIgnoreSimObject ((s.loops l).queue c)),
        true) := by
      unfold addJobsToQueue entryJobs
      simp only [findOrBuild_of_current h, hinfo, Option.map_some, Option.getD_some]
    unfold forEach
    rw [hs, if_pos rfl, ih (s.setQueue l c _) h fun o' ho' => ho o' (List.mem_cons_of_mem _ ho')]
    rw [setQueue_setQueue, queue_setQueue]
    rfl

theorem rebuildQueue_of_current {sim : Simulation} {l : ι} {c : JobClass} {s : Integration ι}
    (h : s.known = s.execSimObjects) (ho : ∀ o ∈ (s.loops l).simObjects, o ∈ s.known) :
    rebuildQueue sim l s c =
      (s.setQueue l c (fill s.simObjectsInfo c (s.loops l).simObjects []), true) := by
  unfold rebuildQueue
  rw [forEach_addJobsToQueue _ (s.setQueue l c []) h ho, setQueue_setQueue, queue_setQueue]
  rfl

/-- The queues of some classes are filled again. -/
def fillQueues (s : Integration ι) (l : ι) (cs : List JobClass) : Integration ι :=
  let queue := fun c => if c ∈ cs then fill s.simObjectsInfo c (s.loops l).simObjects []
    else (s.loops l).queue c
  { s with loops := Function.update s.loops l { s.loops l with queue := queue } }

theorem forEach_rebuildQueue {sim : Simulation} {l : ι} (cs : List JobClass) :
    ∀ s : Integration ι, s.known = s.execSimObjects →
      (∀ o ∈ (s.loops l).simObjects, o ∈ s.known) →
      forEach (rebuildQueue sim l) s cs = (s.fillQueues l cs, true) := by
  induction cs with
  | nil =>
    intro s _ _
    refine congrArg (·, true) ?_
    unfold fillQueues
    simp
  | cons c cs ih =>
    intro s h ho
    unfold forEach
    rw [rebuildQueue_of_current h ho, if_pos rfl, ih (s.setQueue l c _) h]
    · refine congrArg (·, true) ?_
      unfold fillQueues setQueue
      simp only [Function.update_self, Function.update_idem]
      congr 3
      funext c'
      -- a later class is filled with the same jobs, an earlier one is left alone
      by_cases hc : c' = c
      · subst hc
        simp
      · simp [hc]
    · rw [simObjects_setQueue]
      exact ho

omit [DecidableEq ι] in
theorem known_buildSimObjectInfo (sim : Simulation) {s : Integration ι}
    (h : s.execSimObjects.Nodup) :
    (s.buildSimObjectInfo sim).known = s.execSimObjects ∧
      (s.buildSimObjectInfo sim).execSimObjects = s.execSimObjects ∧
      (s.buildSimObjectInfo sim).loops = s.loops := by
  unfold buildSimObjectInfo
  split
  · next hc => exact ⟨hc, rfl, rfl⟩
  · exact ⟨simObject_buildInfos sim _ h, rfl, rfl⟩

/-- The manager after a rebuild of a loop. -/
def rebuiltInfos (sim : Simulation) (s : Integration ι) (l : ι) : List (SimObjectIntegInfo ι) :=
  (s.loops l).simObjects.foldl (setIntegratedBy l)
    (clearIntegratedBy (s.buildSimObjectInfo sim).simObjectsInfo l)

/-- The state after a rebuild of a loop with sim objects of the executive. -/
def afterRebuild (sim : Simulation) (s : Integration ι) (l : ι) : Integration ι :=
  let queue := fun c => fill (s.rebuiltInfos sim l) c (s.loops l).simObjects []
  { execSimObjects := s.execSimObjects
    simObjectsInfo := s.rebuiltInfos sim l
    loops := Function.update s.loops l { simObjects := (s.loops l).simObjects, queue := queue }
    rebuilt := Function.update (s.buildSimObjectInfo sim).rebuilt l true }

/-- **A rebuild with sim objects of the executive.** -/
theorem rebuildJobs_eq (sim : Simulation) {s : Integration ι} {l : ι}
    (h : s.execSimObjects.Nodup) (ho : s.Registered (s.loops l).simObjects) :
    s.rebuildJobs sim l = (s.afterRebuild sim l, true) := by
  obtain ⟨hk, he, hl⟩ := known_buildSimObjectInfo sim h
  have hclear : (clearIntegratedBy (s.buildSimObjectInfo sim).simObjectsInfo l).map
      SimObjectIntegInfo.simObject = s.execSimObjects :=
    (sameJobs_clearIntegratedBy _ l).simObjects.trans hk
  have hcur : (s.rebuiltInfos sim l).map SimObjectIntegInfo.simObject = s.execSimObjects :=
    (sameJobs_foldl_setIntegratedBy l _ _).simObjects.trans hclear
  -- `cleared` is the state between the two loops over the manager's entries
  let cleared : Integration ι := { s.buildSimObjectInfo sim with
    simObjectsInfo := clearIntegratedBy (s.buildSimObjectInfo sim).simObjectsInfo l }
  have hfold : (cleared.loops l).simObjects.foldl (assign sim l) cleared =
      { s.buildSimObjectInfo sim with simObjectsInfo := s.rebuiltInfos sim l } := by
    rw [foldl_assign _ cleared (hclear.trans he.symm)]
    unfold rebuiltInfos
    rw [← hl]
  show (if (forEach (rebuildQueue sim l) ((cleared.loops l).simObjects.foldl (assign sim l) cleared)
    JobClass.all).2 then _ else _) = _
  rw [hfold, forEach_rebuildQueue]
  · simp only [if_true, fillQueues, JobClass.mem_all, he, hl, afterRebuild]
  · exact hcur.trans he.symm
  · intro o hmem
    have hmem : o ∈ ((s.buildSimObjectInfo sim).loops l).simObjects := hmem
    rw [hl] at hmem
    show o ∈ (s.rebuiltInfos sim l).map SimObjectIntegInfo.simObject
    exact hcur.symm ▸ ho o hmem

/-! ## The invariant -/

/-- The queues and the pointers of a loop are right. -/
structure Settled (sim : Simulation) (s : Integration ι) (l : ι) : Prop where
  known : s.rebuilt l = true → ∀ o ∈ s.objects l, o ∈ s.known
  nodup : s.rebuilt l = true → (s.objects l).Nodup
  queues : s.rebuilt l = true → ∀ c,
    ((s.loops l).queue c).Perm ((s.objects l).flatMap (ownedIn sim s.known c))
  pointer : ∀ o, getIntegratedBy s.simObjectsInfo o = some l ↔ s.rebuilt l = true ∧ o ∈ s.objects l

/-- **The invariant**, while the loops that are `dirty` wait for their rebuild. -/
structure Inv (sim : Simulation) (dirty : ι → Prop) (s : Integration ι) : Prop where
  execNodup : s.execSimObjects.Nodup
  knownNodup : s.known.Nodup
  entries : Entries sim s.simObjectsInfo
  settled : ∀ l, ¬ dirty l → Settled sim s l

/-- **The invariant between two calls.** -/
structure Sound (sim : Simulation) (s : Integration ι) : Prop where
  inv : Inv sim (fun _ => False) s
  separate : s.simObjectsInfo ≠ [] → Separate s.objects

omit [DecidableEq ι] in
theorem Inv.mono {sim : Simulation} {dirty dirty' : ι → Prop} {s : Integration ι}
    (h : Inv sim dirty s) (hd : ∀ l, dirty l → dirty' l) : Inv sim dirty' s where
  execNodup := h.execNodup
  knownNodup := h.knownNodup
  entries := h.entries
  settled l hl := h.settled l fun hn => hl (hd l hn)

omit [DecidableEq ι] in
/-- No loop is rebuilt and no pointer is set. -/
theorem settled_of_false {sim : Simulation} {s : Integration ι} {l : ι} (h : s.rebuilt l = false)
    (hp : ∀ o, getIntegratedBy s.simObjectsInfo o ≠ some l) : Settled sim s l where
  known hr := by simp [h] at hr
  nodup hr := by simp [h] at hr
  queues hr := by simp [h] at hr
  pointer o := by simp [h, hp o]

omit [DecidableEq ι] in
/-- **The build**: if it makes new entries, no loop is rebuilt any more. -/
theorem Inv.buildSimObjectInfo {sim : Simulation} {dirty : ι → Prop} {s : Integration ι}
    (h : Inv sim dirty s) : Inv sim dirty (s.buildSimObjectInfo sim) := by
  unfold Integration.buildSimObjectInfo
  split
  · exact h
  · have hobj := simObject_buildInfos (ι := ι) sim s.execSimObjects h.execNodup
    refine ⟨h.execNodup, ?_, entries_buildInfos sim _ h.execNodup, ?_⟩
    · show ((buildInfos sim s.execSimObjects).map SimObjectIntegInfo.simObject).Nodup
      rw [hobj]
      exact h.execNodup
    · intro l _
      refine settled_of_false rfl fun o => ?_
      rw [getIntegratedBy_buildInfos sim _ h.execNodup]
      exact Option.some_ne_none l |>.symm

omit [DecidableEq ι] in
/-- The queues that are filled have the jobs of the sim objects. -/
theorem fill_perm (infos : List (SimObjectIntegInfo ι)) (c : JobClass) (objects : List SimObject) :
    ∀ queue, (fill infos c objects queue).Perm (queue ++ objects.flatMap (entryJobs infos c)) := by
  have hpush : ∀ (jobs queue : List JobData),
      (jobs.foldl pushIgnoreSimObject queue).Perm (queue ++ jobs) := by
    intro jobs
    induction jobs with
    | nil => intro queue; rw [List.append_nil]; exact .refl _
    | cons job jobs ih =>
      intro queue
      refine (ih _).trans ?_
      exact ((insertAt_perm _ _ _).append_right jobs).trans List.perm_middle.symm
  induction objects with
  | nil => intro queue; rw [List.flatMap_nil, List.append_nil]; exact .refl _
  | cons o objects ih =>
    intro queue
    rw [List.flatMap_cons, ← List.append_assoc]
    exact (ih _).trans ((hpush _ _).append_right _)

/-! ## What a rebuild does -/

section
variable (sim : Simulation) (s : Integration ι) (l : ι)

@[simp] theorem objects_afterRebuild : (s.afterRebuild sim l).objects = s.objects := by
  funext l'
  unfold objects afterRebuild
  by_cases h : l' = l
  · subst h
    simp
  · simp [h]

@[simp] theorem queue_afterRebuild_self (c : JobClass) : ((s.afterRebuild sim l).loops l).queue c =
    fill (s.rebuiltInfos sim l) c (s.objects l) [] := by
  simp [afterRebuild, objects]

@[simp] theorem rebuilt_afterRebuild_self : (s.afterRebuild sim l).rebuilt l = true := by
  simp [afterRebuild]

variable {s l} {l' : ι}

theorem loops_afterRebuild (h : l' ≠ l) : (s.afterRebuild sim l).loops l' = s.loops l' := by
  simp [afterRebuild, h]

theorem rebuilt_afterRebuild (h : l' ≠ l) :
    (s.afterRebuild sim l).rebuilt l' = (s.buildSimObjectInfo sim).rebuilt l' := by
  simp [afterRebuild, h]

theorem sameJobs_rebuiltInfos :
    SameJobs (s.buildSimObjectInfo sim).simObjectsInfo (s.rebuiltInfos sim l) :=
  (sameJobs_clearIntegratedBy _ l).trans (sameJobs_foldl_setIntegratedBy l _ _)

variable {sim}

theorem known_afterRebuild : (s.afterRebuild sim l).known = (s.buildSimObjectInfo sim).known :=
  (sameJobs_rebuiltInfos sim).simObjects

/-- **The pointers**: those of the loop's sim objects name it, no other one does. -/
theorem pointer_afterRebuild (h : s.execSimObjects.Nodup) (ho : s.Registered (s.objects l))
    (o : SimObject) : getIntegratedBy (s.afterRebuild sim l).simObjectsInfo o =
      if o ∈ s.objects l then some l
      else if getIntegratedBy (s.buildSimObjectInfo sim).simObjectsInfo o = some l then none
      else getIntegratedBy (s.buildSimObjectInfo sim).simObjectsInfo o := by
  show getIntegratedBy (s.rebuiltInfos sim l) o = _
  unfold rebuiltInfos
  rw [getIntegratedBy_foldl, getIntegratedBy_clearIntegratedBy,
    (sameJobs_clearIntegratedBy _ l).simObjects]
  by_cases hm : o ∈ s.objects l
  · have hin : o ∈ (s.buildSimObjectInfo sim).known :=
      (known_buildSimObjectInfo sim h).1.symm ▸ ho o hm
    rw [if_pos hm]
    exact if_pos ⟨hm, hin⟩
  · rw [if_neg hm]
    exact if_neg fun e => hm e.1

/-- The loop that is rebuilt is settled. -/
theorem settled_afterRebuild_self {dirty : ι → Prop} (hb : Inv sim dirty (s.buildSimObjectInfo sim))
    (h : s.execSimObjects.Nodup) (hnodup : (s.objects l).Nodup)
    (ho : s.Registered (s.objects l)) : Settled sim (s.afterRebuild sim l) l := by
  have hk := (known_buildSimObjectInfo sim h).1
  have hentries : Entries sim (s.rebuiltInfos sim l) :=
    hb.entries.of_sameJobs (sameJobs_rebuiltInfos sim)
  have hcur : (s.afterRebuild sim l).known = s.execSimObjects := known_afterRebuild.trans hk
  refine ⟨fun _ => ?_, fun _ => ?_, fun _ c => ?_, fun o => ?_⟩
  · rw [objects_afterRebuild, hcur]
    exact ho
  · rw [objects_afterRebuild]
    exact hnodup
  · rw [queue_afterRebuild_self, objects_afterRebuild]
    refine (fill_perm _ c _ []).trans ?_
    rw [List.nil_append, List.flatMap_congr fun o hm =>
      entryJobs_eq hentries (hcur.symm ▸ ho o hm : o ∈ (s.afterRebuild sim l).known) c]
    exact List.Perm.refl _
  · rw [rebuilt_afterRebuild_self, objects_afterRebuild, pointer_afterRebuild h ho]
    by_cases hm : o ∈ s.objects l
    · simp [hm]
    · rw [if_neg hm]
      by_cases hp : getIntegratedBy (s.buildSimObjectInfo sim).simObjectsInfo o = some l <;>
        simp [hm, hp]

/-- Another loop that was settled after the build stays it. -/
theorem settled_afterRebuild (hset : Settled sim (s.buildSimObjectInfo sim) l')
    (h : s.execSimObjects.Nodup) (hsep : Separate s.objects) (ho : s.Registered (s.objects l))
    (hne : l' ≠ l) : Settled sim (s.afterRebuild sim l) l' := by
  have hl := (known_buildSimObjectInfo sim h).2.2
  have hobj : (s.buildSimObjectInfo sim).objects l' = s.objects l' := congrArg (fun f => (f l').simObjects) hl
  have hr := rebuilt_afterRebuild sim (s := s) hne
  refine ⟨fun hr' => ?_, fun _ => ?_, fun hr' c => ?_, fun o => ?_⟩
  · rw [objects_afterRebuild, known_afterRebuild, ← hobj]
    exact hset.known (hr.symm.trans hr')
  · rw [objects_afterRebuild]
    exact hsep.1 l'
  · rw [objects_afterRebuild, known_afterRebuild, loops_afterRebuild sim hne, ← hobj, ← hl]
    exact hset.queues (hr.symm.trans hr') c
  · rw [objects_afterRebuild, hr, pointer_afterRebuild h ho]
    have hp := hset.pointer o
    rw [hobj] at hp
    by_cases hm : o ∈ s.objects l
    · -- the lists are separate
      rw [if_pos hm]
      refine ⟨fun e => absurd (Option.some.inj e).symm hne, fun e => ?_⟩
      exact absurd (hsep.2 l' l o e.2 hm) hne
    · rw [if_neg hm]
      split
      · next hb =>
        refine ⟨fun e => absurd e.symm (Option.some_ne_none l'), fun e => ?_⟩
        exact absurd (Option.some.inj ((hp.mpr e).symm.trans hb)) hne
      · exact hp

end

/-- **A rebuild** settles the loop and leaves the others as they are — or, if it makes new entries,
    not rebuilt. -/
theorem Inv.rebuildJobs {sim : Simulation} {dirty : ι → Prop} {s : Integration ι} {l : ι}
    (h : Inv sim dirty s) (hsep : Separate s.objects) (ho : s.Registered (s.objects l)) :
    s.rebuildJobs sim l = (s.afterRebuild sim l, true) ∧
      Inv sim (fun l' => dirty l' ∧ l' ≠ l) (s.afterRebuild sim l) := by
  have hb := h.buildSimObjectInfo
  have hk := (known_buildSimObjectInfo sim h.execNodup).1
  refine ⟨rebuildJobs_eq sim h.execNodup ho, h.execNodup, ?_,
    hb.entries.of_sameJobs (sameJobs_rebuiltInfos sim), ?_⟩
  · rw [known_afterRebuild, hk]
    exact h.execNodup
  · intro l' hl'
    by_cases he : l' = l
    · subst he
      exact settled_afterRebuild_self hb h.execNodup (hsep.1 l') ho
    · exact settled_afterRebuild (hb.settled l' fun hd => hl' ⟨hd, he⟩) h.execNodup hsep ho he

/-! ## The calls keep the invariant -/

theorem objects_setObjects (s : Integration ι) (l : ι) (objects : List SimObject) :
    (s.setObjects l objects).objects = Function.update s.objects l objects := by
  funext l'
  unfold Integration.objects setObjects
  by_cases h : l' = l
  · subst h
    simp
  · simp [h]

theorem Separate.erase {lists : ι → List SimObject} (h : Separate lists) (l : ι) (o : SimObject) :
    Separate (Function.update lists l ((lists l).erase o)) := by
  have hsub : ∀ l', (Function.update lists l ((lists l).erase o) l').Sublist (lists l') := by
    intro l'
    by_cases he : l' = l
    · subst he
      rw [Function.update_self]
      exact List.erase_sublist
    · rw [Function.update_of_ne he]
  exact ⟨fun l' => (h.1 l').sublist (hsub l'),
    fun l' l'' o' h' h'' => h.2 l' l'' o' ((hsub l').subset h') ((hsub l'').subset h'')⟩

theorem Separate.append {lists : ι → List SimObject} (h : Separate lists) (l : ι) {o : SimObject}
    (ho : ∀ l', o ∉ lists l') : Separate (Function.update lists l (lists l ++ [o])) := by
  have hmem : ∀ l' o', o' ∈ Function.update lists l (lists l ++ [o]) l' →
      o' ∈ lists l' ∨ l' = l ∧ o' = o := by
    intro l' o' h'
    by_cases he : l' = l
    · subst he
      rw [Function.update_self] at h'
      rcases List.mem_append.mp h' with h' | h'
      · exact .inl h'
      · exact .inr ⟨rfl, List.mem_singleton.mp h'⟩
    · rw [Function.update_of_ne he] at h'
      exact .inl h'
  refine ⟨fun l' => ?_, fun l' l'' o' h' h'' => ?_⟩
  · by_cases he : l' = l
    · subst he
      rw [Function.update_self]
      exact List.nodup_append.mpr ⟨h.1 l', List.nodup_singleton o, fun a ha b hb e =>
        ho l' (List.mem_singleton.mp hb ▸ e ▸ ha)⟩
    · rw [Function.update_of_ne he]
      exact h.1 l'
  · rcases hmem l' o' h' with h1 | ⟨h1, h1'⟩ <;> rcases hmem l'' o' h'' with h2 | ⟨h2, h2'⟩
    · exact h.2 l' l'' o' h1 h2
    · exact absurd (h2' ▸ h1) (ho l')
    · exact absurd (h1' ▸ h2) (ho l'')
    · exact h1.trans h2.symm

/-- The list of a loop changes; the loop waits for its rebuild. -/
theorem Inv.setObjects {sim : Simulation} {dirty : ι → Prop} {s : Integration ι} {l : ι}
    (h : Inv sim dirty s) (objects : List SimObject) :
    Inv sim (fun l' => dirty l' ∨ l' = l) (s.setObjects l objects) := by
  refine ⟨h.execNodup, h.knownNodup, h.entries, fun l' hl' => ?_⟩
  have hne : l' ≠ l := fun e => hl' (.inr e)
  have hset := h.settled l' fun hd => hl' (.inl hd)
  have hr : (s.setObjects l objects).rebuilt l' = s.rebuilt l' := Function.update_of_ne hne _ _
  have hloop : (s.setObjects l objects).loops l' = s.loops l' := Function.update_of_ne hne _ _
  have hobj : (s.setObjects l objects).objects l' = s.objects l' :=
    congrArg IntegLoopScheduler.simObjects hloop
  constructor
  · rw [hr, hobj]
    exact hset.known
  · rw [hr, hobj]
    exact hset.nodup
  · rw [hr, hobj, hloop]
    exact hset.queues
  · rw [hr, hobj]
    exact hset.pointer

omit [DecidableEq ι] in
/-- Without entries no pointer is set, so a loop that is not rebuilt is as it should be. -/
theorem Inv.of_empty {sim : Simulation} {dirty : ι → Prop} {s : Integration ι}
    (h : Inv sim dirty s) (hi : s.simObjectsInfo = []) (hd : ∀ l, dirty l → s.rebuilt l = false) :
    Inv sim (fun _ => False) s := by
  refine ⟨h.execNodup, h.knownNodup, h.entries, fun l _ => ?_⟩
  by_cases hl : dirty l
  · refine settled_of_false (hd l hl) fun o => ?_
    rw [hi]
    exact (Option.some_ne_none l).symm
  · exact h.settled l hl

/-- **`remove_sim_object`** of a sim object that is in the list, after the first build. -/
theorem Inv.removeSimObject {sim : Simulation} {dirty : ι → Prop} {s : Integration ι} {l : ι}
    {o : SimObject} (h : Inv sim dirty s) (hi : s.simObjectsInfo ≠ []) (hmem : o ∈ s.objects l)
    (hsep : Separate (Function.update s.objects l ((s.objects l).erase o)))
    (ho : s.Registered ((s.objects l).erase o)) :
    ∃ s', s.removeSimObject sim l o = (s', true) ∧
      Inv sim (fun l' => dirty l' ∧ l' ≠ l) s' ∧
      s'.objects = Function.update s.objects l ((s.objects l).erase o) ∧
      s'.execSimObjects = s.execSimObjects := by
  let t := s.setObjects l ((s.objects l).erase o)
  have hobj : t.objects = Function.update s.objects l ((s.objects l).erase o) :=
    objects_setObjects s l _
  have ht : Inv sim (fun l' => dirty l' ∨ l' = l) t := h.setObjects _
  have hreg : t.Registered (t.objects l) := by
    rw [hobj, Function.update_self]
    exact ho
  obtain ⟨hr, hinv⟩ := ht.rebuildJobs (hobj ▸ hsep) hreg
  refine ⟨t.afterRebuild sim l, ?_, hinv.mono ?_, ?_, rfl⟩
  · unfold Integration.removeSimObject
    have hin : ¬ o ∉ (s.loops l).simObjects := not_not.mpr hmem
    rw [if_neg hin]
    show (if s.simObjectsInfo.isEmpty then (t, true) else t.rebuildJobs sim l) = _
    rw [if_neg fun e => hi (List.isEmpty_iff.mp e)]
    exact hr
  · rintro l' ⟨hd | hd, hne⟩
    · exact ⟨hd, hne⟩
    · exact absurd hd hne
  · rw [objects_afterRebuild]
    exact hobj

/-- **`add_sim_object`.** -/
theorem Sound.addSimObject {sim : Simulation} {s : Integration ι} {l : ι} {o : SimObject}
    (h : Sound sim s) (hok : CallOk s (.addSimObject l o)) :
    Sound sim (s.addSimObject sim l o).1 := by
  unfold Integration.addSimObject
  by_cases hmem : o ∈ (s.loops l).simObjects
  · rw [if_pos hmem]
    exact h
  rw [if_neg hmem]
  let t := s.setObjects l (s.objects l ++ [o])
  have hobj : t.objects = Function.update s.objects l (s.objects l ++ [o]) :=
    objects_setObjects s l _
  have ht : Inv sim (fun l' => False ∨ l' = l) t := h.inv.setObjects _
  show Sound sim (if s.simObjectsInfo.isEmpty then (t, true) else _ : Integration ι × Bool).1
  by_cases hi : s.simObjectsInfo = []
  · -- before the first build
    rw [if_pos (List.isEmpty_iff.mpr hi)]
    refine ⟨ht.of_empty hi ?_, fun hi' => absurd hi hi'⟩
    rintro l' (hl' | rfl)
    · exact hl'.elim
    · exact Function.update_self _ _ _
  rw [if_neg fun e => hi (List.isEmpty_iff.mp e)]
  obtain ⟨hreg, hreg', hnamed⟩ := hok hmem hi
  have hsep := h.separate hi
  cases hp : getIntegratedBy s.simObjectsInfo o with
  | none =>
    have hpt : getIntegratedBy (s.setObjects l ((s.loops l).simObjects ++ [o])).simObjectsInfo o =
        none := hp
    rw [hpt]
    -- the sim object is in no list
    have hno : ∀ l', o ∉ s.objects l' := by
      intro l' hl'
      exact absurd (hp.symm.trans (hnamed l' hl')) (Option.some_ne_none l').symm
    have hsep' := hobj ▸ hsep.append l hno
    have hr : t.Registered (t.objects l) := by
      rw [hobj, Function.update_self]
      exact hreg
    obtain ⟨he, hinv⟩ := ht.rebuildJobs hsep' hr
    show Sound sim (t.rebuildJobs sim l).1
    rw [he]
    refine ⟨hinv.mono ?_, fun _ => ?_⟩
    · rintro l' ⟨hl' | hl', hne⟩
      · exact hl'
      · exact hne hl'
    · rw [objects_afterRebuild]
      exact hsep'
  | some other =>
    -- it is in the list of the other loop, and goes from there
    have hpt : getIntegratedBy (s.setObjects l ((s.loops l).simObjects ++ [o])).simObjectsInfo o =
        some other := hp
    rw [hpt]
    obtain ⟨-, hother⟩ := ((h.inv.settled other not_false).pointer o).mp hp
    have hne : other ≠ l := fun e => hmem (e ▸ hother)
    have hsep1 := hsep.erase other o
    have hno : ∀ l', o ∉ Function.update s.objects other ((s.objects other).erase o) l' := by
      intro l' hl'
      by_cases hl : l' = other
      · subst hl
        rw [Function.update_self] at hl'
        exact (hsep.1 l').not_mem_erase hl'
      · rw [Function.update_of_ne hl] at hl'
        exact hl (hsep.2 l' other o hl' hother)
    have hsep2 := hsep1.append l hno
    rw [Function.update_of_ne (Ne.symm hne)] at hsep2
    have htother : t.objects other = s.objects other := by
      rw [hobj, Function.update_of_ne hne]
    have hcomm : Function.update t.objects other ((t.objects other).erase o) =
        Function.update (Function.update s.objects other ((s.objects other).erase o)) l
          (s.objects l ++ [o]) := by
      rw [htother, hobj, Function.update_comm (Ne.symm hne)]
    obtain ⟨s', he, hinv, hobj', hexec⟩ := ht.removeSimObject (l := other) hi
      (htother.symm ▸ hother) (hcomm ▸ hsep2)
      (fun o' ho' => hreg' other hp o' (List.mem_of_mem_erase (htother ▸ ho')))
    have hsep' : Separate s'.objects := by
      rw [hobj', hcomm]
      exact hsep2
    have hr : s'.Registered (s'.objects l) := by
      rw [hobj', hcomm, Function.update_self]
      unfold Registered
      rw [hexec]
      exact hreg
    obtain ⟨he', hinv'⟩ := hinv.rebuildJobs hsep' hr
    show Sound sim (if (t.removeSimObject sim other o).2 then
      (t.removeSimObject sim other o).1.rebuildJobs sim l else t.removeSimObject sim other o).1
    rw [he, if_pos rfl, he']
    refine ⟨hinv'.mono ?_, fun _ => ?_⟩
    · rintro l' ⟨⟨hl' | hl', -⟩, hne'⟩
      · exact hl'
      · exact hne' hl'
    · rw [objects_afterRebuild]
      exact hsep'

/-- **One call keeps the invariant.** -/
theorem Sound.step {sim : Simulation} {s : Integration ι} {call : Call ι} (h : Sound sim s)
    (hok : CallOk s call) : Sound sim (s.step sim call) := by
  cases call with
  | addSimObject l o => exact h.addSimObject hok
  | removeSimObject l o =>
    show Sound sim (s.removeSimObject sim l o).1
    by_cases hmem : o ∈ s.objects l
    · by_cases hi : s.simObjectsInfo = []
      · -- before the first build
        unfold Integration.removeSimObject
        have hin : ¬ o ∉ (s.loops l).simObjects := not_not.mpr hmem
        rw [if_neg hin]
        show Sound sim (if s.simObjectsInfo.isEmpty then _ else _ : Integration ι × Bool).1
        rw [if_pos (List.isEmpty_iff.mpr hi)]
        refine ⟨(h.inv.setObjects _).of_empty hi ?_, fun hi' => absurd hi hi'⟩
        rintro l' (hl' | rfl)
        · exact hl'.elim
        · exact Function.update_self _ _ _
      · have hsep := (h.separate hi).erase l o
        obtain ⟨s', he, hinv, hobj, -⟩ := h.inv.removeSimObject hi hmem hsep (hok hi)
        rw [he]
        exact ⟨hinv.mono fun l' hl' => hl'.1, fun _ => hobj ▸ hsep⟩
    · unfold Integration.removeSimObject
      have hout : o ∉ (s.loops l).simObjects := hmem
      rw [if_pos hout]
      exact h
  | rebuildJobs l =>
    have hsep : Separate s.objects := by
      by_cases hi : s.simObjectsInfo = []
      · exact hok.2 hi
      · exact h.separate hi
    obtain ⟨he, hinv⟩ := h.inv.rebuildJobs hsep hok.1
    show Sound sim (s.rebuildJobs sim l).1
    rw [he]
    refine ⟨hinv.mono fun l' hl' => hl'.1, fun _ => ?_⟩
    rw [objects_afterRebuild]
    exact hsep
  | execAddSimObject o =>
    refine ⟨⟨?_, h.inv.knownNodup, h.inv.entries, fun l hl => ?_⟩, h.separate⟩
    · exact List.nodup_append.mpr ⟨h.inv.execNodup, List.nodup_singleton o, fun a ha b hb e =>
        hok (List.mem_singleton.mp hb ▸ e ▸ ha)⟩
    · exact ⟨(h.inv.settled l hl).known, (h.inv.settled l hl).nodup, (h.inv.settled l hl).queues,
        (h.inv.settled l hl).pointer⟩
  | execDeleteSimObject o =>
    refine ⟨⟨h.inv.execNodup.filter _, h.inv.knownNodup, h.inv.entries, fun l hl => ?_⟩,
      h.separate⟩
    exact ⟨(h.inv.settled l hl).known, (h.inv.settled l hl).nodup, (h.inv.settled l hl).queues,
        (h.inv.settled l hl).pointer⟩
  | restartCheckpoint =>
    refine ⟨⟨h.inv.execNodup, List.nodup_nil, fun _ hm => (nomatch hm), fun l _ => ?_⟩,
      fun hi => absurd rfl hi⟩
    exact settled_of_false rfl fun o => (Option.some_ne_none l).symm
  | loadCheckpoint lists =>
    have hi : s.simObjectsInfo = [] := hok
    refine ⟨⟨h.inv.execNodup, h.inv.knownNodup, h.inv.entries, fun l _ => ?_⟩,
      fun hi' => absurd hi hi'⟩
    refine settled_of_false rfl fun o => ?_
    show getIntegratedBy s.simObjectsInfo o ≠ some l
    rw [hi]
    exact (Option.some_ne_none l).symm

/-! ## What the invariant means -/

/-- Before the first call: no sim objects anywhere. -/
def start : Integration ι := { execSimObjects := [] }

omit [DecidableEq ι] in
theorem sound_start (sim : Simulation) : Sound sim (start : Integration ι) where
  inv := ⟨List.nodup_nil, List.nodup_nil, fun _ hm => (nomatch hm), fun l _ =>
    settled_of_false rfl fun _ => (Option.some_ne_none l).symm⟩
  separate hi := absurd rfl hi

end Integration

end Trick.IntegLoops
