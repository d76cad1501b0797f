/-
  `IntegrationManager`: what the integration loops know of the sim objects.

  1. **Data** — a job has a class, maybe one of the five of integration, and `sup_class_data`, which
     for a job that is not an `integration` job may point to another sim object.  The manager keeps one
     entry for each sim object of the executive: the loop that integrates it, and for each class the
     jobs that it owns and those that it relegates.

  2. **Program** — `buildInfos` makes the entries of all sim objects and then hands each relegated job
     to the object it is meant for; a job whose object is not there is lost, with a message.

  3. **Specification** — `IntegrationJob`: the jobs of a class that belong to a sim object among a list
     of sim objects.

  4. **Result** — `forall₂_buildInfos`, `mem_ownedIn` and `nodup_ownedIn`: there is one entry for each
     sim object, and it owns exactly those jobs, each once.
-/
import Mathlib
import Trick.Lib.Forall2
import Trick.Lib.UpperBound

namespace Trick.IntegLoops

open Trick.Lib

/-! ## The jobs of the sim objects -/

/-- A sim object, or whatever else `sup_class_data` points to, by its address. -/
abbrev SimObject := Nat

/-- The job classes of integration, in the order in which the maps keep their names. -/
inductive JobClass where
  | derivative
  | dynamicEvent
  | integration
  | postIntegration
  | preIntegration
deriving DecidableEq

/-- The order of a walk over a map with the class names as keys. -/
def JobClass.all : List JobClass :=
  [.derivative, .dynamicEvent, .integration, .postIntegration, .preIntegration]

theorem JobClass.mem_all (c : JobClass) : c ∈ JobClass.all := by cases c <;> decide

/-- A job; `jobClassName` is `none` for a class that has nothing to do with integration. -/
structure JobData where
  id : Nat
  phase : Nat
  jobClassName : Option JobClass
  supClassData : Option SimObject
deriving DecidableEq

/-- The jobs of every sim object.  A job is in one sim object, and there once. -/
structure Simulation where
  jobs : SimObject → List JobData
  nodup : ∀ o, (jobs o).Nodup
  disjoint : ∀ o o' j, j ∈ jobs o → j ∈ jobs o' → o = o'

/-- A job that belongs directly to its sim object: every `integration` job, and one of the other
    classes without `sup_class_data`. -/
def JobData.Belongs (job : JobData) : Prop :=
  job.supClassData = none ∨ job.jobClassName = some .integration

instance (job : JobData) : Decidable job.Belongs := inferInstanceAs (Decidable (_ ∨ _))

/-- `push_ignore_sim_object`: behind every job that has the same phase or an earlier one. -/
def pushIgnoreSimObject (queue : List JobData) (job : JobData) : List JobData :=
  insertAt (upperBound JobData.phase job queue) job queue

/-! ## The entries -/

/-- `JobClassJobs` -/
structure JobClassJobs where
  ownedJobs : List JobData
  relegatedJobs : List JobData
deriving DecidableEq

/-- `SimObjectIntegInfo`; `ι` are the integration loops. -/
structure SimObjectIntegInfo (ι : Type) where
  simObject : SimObject
  integratedBy : Option ι
  jobClassToInfo : JobClass → JobClassJobs

variable {ι : Type}

/-- `create_sim_object_info` -/
def createSimObjectInfo (sim : Simulation) (o : SimObject) : SimObjectIntegInfo ι where
  simObject := o
  integratedBy := none
  jobClassToInfo c :=
    let jobs := (sim.jobs o).filter fun job => job.jobClassName = some c
    { ownedJobs := jobs.filter fun job => job.Belongs
      relegatedJobs := jobs.filter fun job => ¬ job.Belongs }

namespace SimObjectIntegInfo

/-- `job_class_to_info[c]->owned_jobs` -/
def ownedJobs (info : SimObjectIntegInfo ι) (c : JobClass) : List JobData :=
  (info.jobClassToInfo c).ownedJobs

/-- A job at the end of the owned jobs of a class. -/
def pushOwned (c : JobClass) (job : JobData) (info : SimObjectIntegInfo ι) :
    SimObjectIntegInfo ι :=
  let jobs := { info.jobClassToInfo c with ownedJobs := (info.jobClassToInfo c).ownedJobs ++ [job] }
  { info with jobClassToInfo := Function.update info.jobClassToInfo c jobs }

@[simp] theorem simObject_pushOwned (c : JobClass) (job : JobData) (info : SimObjectIntegInfo ι) :
    (info.pushOwned c job).simObject = info.simObject := rfl

theorem ownedJobs_pushOwned (c c' : JobClass) (job : JobData) (info : SimObjectIntegInfo ι) :
    (info.pushOwned c job).ownedJobs c' = info.ownedJobs c' ++ if c = c' then [job] else [] := by
  show (Function.update info.jobClassToInfo c _ c').ownedJobs = _
  by_cases h : c = c'
  · subst h
    simp [ownedJobs]
  · rw [Function.update_of_ne (Ne.symm h), if_neg h, List.append_nil]
    rfl

end SimObjectIntegInfo

/-! ## Handing over the relegated jobs -/

/-- A relegated job goes to the first entry for its `sup_class_data`; without one it is lost. -/
def transferJob (infos : List (SimObjectIntegInfo ι)) (p : JobClass × JobData) :
    List (SimObjectIntegInfo ι) :=
  infos.modify (infos.findIdx fun info => some info.simObject = p.2.supClassData)
    (SimObjectIntegInfo.pushOwned p.1 p.2)

/-- The relegated jobs of an entry in the order in which they are handed over. -/
def SimObjectIntegInfo.relegated (info : SimObjectIntegInfo ι) : List (JobClass × JobData) :=
  JobClass.all.flatMap fun c => (info.jobClassToInfo c).relegatedJobs.map fun job => (c, job)

/-- `transfer_relegated_jobs` -/
def transferRelegatedJobs (infos : List (SimObjectIntegInfo ι)) (info : SimObjectIntegInfo ι) :
    List (SimObjectIntegInfo ι) :=
  info.relegated.foldl transferJob infos

/-- The two loops of `build_sim_object_info`.  The second one only adds to the owned jobs, so the
    relegated jobs that it reads are those of the first. -/
def buildInfos (sim : Simulation) (objects : List SimObject) : List (SimObjectIntegInfo ι) :=
  let created := objects.map (createSimObjectInfo sim)
  created.foldl transferRelegatedJobs created

/-! ## What an entry owns -/

/-- **The jobs of a class of a sim object**, among the sim objects `objects`: its own ones, and those
    that one of the sim objects relegates to it. -/
def IntegrationJob (sim : Simulation) (objects : List SimObject) (c : JobClass) (o : SimObject)
    (job : JobData) : Prop :=
  job.jobClassName = some c ∧
    (job ∈ sim.jobs o ∧ job.Belongs ∨
      ¬ job.Belongs ∧ job.supClassData = some o ∧ ∃ o' ∈ objects, job ∈ sim.jobs o')

/-- The entries for sim objects that are all different: one is changed, found by its address. -/
theorem transferJob_eq (infos : List (SimObjectIntegInfo ι)) (p : JobClass × JobData)
    (h : (infos.map SimObjectIntegInfo.simObject).Nodup) :
    transferJob infos p = infos.map fun info =>
      if some info.simObject = p.2.supClassData then info.pushOwned p.1 p.2 else info := by
  unfold transferJob
  induction infos with
  | nil => rfl
  | cons info infos ih =>
    obtain ⟨hn, hd⟩ := List.nodup_cons.mp h
    by_cases hi : some info.simObject = p.2.supClassData
    · -- the first entry is the one; no later entry has its address
      have hrest : infos.map (fun info => if some info.simObject = p.2.supClassData then
          info.pushOwned p.1 p.2 else info) = infos := by
        refine (List.map_congr_left ?_).trans (List.map_id _)
        intro info' hmem
        refine if_neg fun he => hn ?_
        have : info'.simObject = info.simObject := Option.some.inj (he.trans hi.symm)
        exact this ▸ List.mem_map_of_mem hmem
      simp [List.findIdx_cons, hi, hrest]
    · simpa [List.findIdx_cons, hi] using ih hd

theorem simObject_transferJob (infos : List (SimObjectIntegInfo ι)) (p : JobClass × JobData)
    (h : (infos.map SimObjectIntegInfo.simObject).Nodup) :
    (transferJob infos p).map SimObjectIntegInfo.simObject =
      infos.map SimObjectIntegInfo.simObject := by
  rw [transferJob_eq infos p h, List.map_map]
  refine List.map_congr_left fun info _ => ?_
  show (if _ then _ else _ : SimObjectIntegInfo ι).simObject = _
  split <;> rfl

/-- The jobs among `ps` that go to the entry of a sim object. -/
def given (ps : List (JobClass × JobData)) (c : JobClass) (o : SimObject) : List JobData :=
  (ps.filter fun p => p.1 = c ∧ p.2.supClassData = some o).map Prod.snd

/-- **A sequence of transfers**: the same sim objects and loops, and each entry owns in addition what
    it was given. -/
theorem foldl_transferJob (ps : List (JobClass × JobData)) :
    ∀ infos : List (SimObjectIntegInfo ι), (infos.map SimObjectIntegInfo.simObject).Nodup →
      List.Forall₂ (fun info info' => info'.simObject = info.simObject ∧
        info'.integratedBy = info.integratedBy ∧
        ∀ c, info'.ownedJobs c = info.ownedJobs c ++ given ps c info.simObject)
        infos (ps.foldl transferJob infos) := by
  induction ps with
  | nil =>
    intro infos _
    refine List.forall₂_same.mpr fun info _ => ⟨rfl, rfl, fun c => ?_⟩
    exact (List.append_nil _).symm
  | cons p ps ih =>
    intro infos h
    have hrest := ih (transferJob infos p) ((simObject_transferJob infos p h).symm ▸ h)
    rw [List.foldl_cons]
    rw [transferJob_eq infos p h] at hrest ⊢
    refine (List.forall₂_map_left_iff.mp hrest).imp fun info info' hi => ?_
    obtain ⟨ho, hb, hj⟩ := hi
    have hcons : ∀ c, given (p :: ps) c info.simObject =
        (if p.1 = c ∧ p.2.supClassData = some info.simObject then [p.2] else []) ++
          given ps c info.simObject := by
      intro c
      unfold given
      rw [List.filter_cons]
      split <;> simp_all
    by_cases hs : some info.simObject = p.2.supClassData
    · rw [if_pos hs] at ho hb hj
      refine ⟨ho, hb, fun c => ?_⟩
      rw [hj, SimObjectIntegInfo.ownedJobs_pushOwned, hcons, List.append_assoc]
      simp [hs.symm]
    · rw [if_neg hs] at ho hb hj
      refine ⟨ho, hb, fun c => ?_⟩
      rw [hj, hcons, if_neg fun hc => hs hc.2.symm, List.nil_append]

/-- All the relegated jobs of the sim objects, in the order in which they are handed over. -/
def relegatedJobs (sim : Simulation) (objects : List SimObject) : List (JobClass × JobData) :=
  objects.flatMap fun o =>
    JobClass.all.flatMap fun c => ((sim.jobs o).filter fun job =>
      job.jobClassName = some c ∧ ¬ job.Belongs).map fun job => (c, job)

/-- **The jobs of a class that an entry owns after the build.** -/
def ownedIn (sim : Simulation) (objects : List SimObject) (c : JobClass) (o : SimObject) :
    List JobData :=
  ((sim.jobs o).filter fun job => job.jobClassName = some c ∧ job.Belongs) ++
    given (relegatedJobs sim objects) c o

/-- **The build**: one entry for each sim object, in order, integrated by no loop. -/
theorem forall₂_buildInfos (sim : Simulation) (objects : List SimObject) (h : objects.Nodup) :
    List.Forall₂ (fun o (info : SimObjectIntegInfo ι) => info.simObject = o ∧
      info.integratedBy = none ∧ ∀ c, info.ownedJobs c = ownedIn sim objects c o)
      objects (buildInfos sim objects) := by
  have hcreated : ((objects.map (createSimObjectInfo (ι := ι) sim)).map
      SimObjectIntegInfo.simObject) = objects := by
    rw [List.map_map]
    exact List.map_id _
  have hrel : (objects.map (createSimObjectInfo (ι := ι) sim)).flatMap
      SimObjectIntegInfo.relegated = relegatedJobs sim objects := by
    rw [List.flatMap_map]
    refine List.flatMap_congr fun o _ => List.flatMap_congr fun c _ => ?_
    show (((sim.jobs o).filter _).filter _).map _ = _
    rw [List.filter_filter]
    congr 2
    funext job
    simp [Bool.and_comm]
  have hfold : ∀ infos : List (SimObjectIntegInfo ι),
      (objects.map (createSimObjectInfo sim)).foldl transferRelegatedJobs infos =
        (relegatedJobs sim objects).foldl transferJob infos := by
    intro infos
    rw [← hrel, List.foldl_flatMap]
    rfl
  have hall := foldl_transferJob (relegatedJobs sim objects)
    (objects.map (createSimObjectInfo (ι := ι) sim)) (hcreated.symm ▸ h)
  unfold buildInfos
  rw [hfold]
  refine (List.forall₂_map_left_iff.mp hall).imp fun o info hi => ⟨hi.1, hi.2.1, fun c => ?_⟩
  rw [hi.2.2 c]
  show ((sim.jobs o).filter _).filter _ ++ _ = _
  rw [List.filter_filter]
  unfold ownedIn
  congr 2
  funext job
  simp [Bool.and_comm]

/-- The entries are for the sim objects that the build was given. -/
theorem simObject_buildInfos (sim : Simulation) (objects : List SimObject) (h : objects.Nodup) :
    (buildInfos (ι := ι) sim objects).map SimObjectIntegInfo.simObject = objects := by
  have hall := forall₂_buildInfos (ι := ι) sim objects h
  exact (map_eq_of_forall₂ (hall.imp fun _ _ => And.left)).trans (List.map_id objects)

/-- The jobs of two sim objects differ. -/
theorem IntegrationJob.unique {sim : Simulation} {objects : List SimObject} {c c' : JobClass}
    {o o' : SimObject} {job : JobData} (h : IntegrationJob sim objects c o job)
    (h' : IntegrationJob sim objects c' o' job) : o = o' := by
  obtain ⟨_, ⟨hj, hb⟩ | ⟨hb, hs, _⟩⟩ := h
  · obtain ⟨_, ⟨hj', _⟩ | ⟨hb', _, _⟩⟩ := h'
    · exact sim.disjoint o o' job hj hj'
    · exact absurd hb hb'
  · obtain ⟨_, ⟨_, hb'⟩ | ⟨_, hs', _⟩⟩ := h'
    · exact absurd hb' hb
    · exact Option.some.inj (hs.symm.trans hs')

/-! ## The loop of a sim object -/

/-- `find_sim_object_info` -/
def findSimObjectInfo (infos : List (SimObjectIntegInfo ι)) (o : SimObject) :
    Option (SimObjectIntegInfo ι) :=
  infos.find? fun info => info.simObject = o

/-- `get_integrated_by` -/
def getIntegratedBy (infos : List (SimObjectIntegInfo ι)) (o : SimObject) : Option ι :=
  (findSimObjectInfo infos o).bind SimObjectIntegInfo.integratedBy

/-- `set_integrated_by`: the first entry for the sim object gets the loop. -/
def setIntegratedBy (l : ι) (infos : List (SimObjectIntegInfo ι)) (o : SimObject) :
    List (SimObjectIntegInfo ι) :=
  infos.modify (infos.findIdx fun info => info.simObject = o)
    fun info => { info with integratedBy := some l }

/-- `clear_integrated_by` -/
def clearIntegratedBy [DecidableEq ι] (infos : List (SimObjectIntegInfo ι)) (l : ι) :
    List (SimObjectIntegInfo ι) :=
  infos.map fun info =>
    if info.integratedBy = some l then { info with integratedBy := none } else info

/-- The jobs of a class in the entry of a sim object. -/
def entryJobs (infos : List (SimObjectIntegInfo ι)) (c : JobClass) (o : SimObject) : List JobData :=
  ((findSimObjectInfo infos o).map fun info => info.ownedJobs c).getD []

/-- The same sim objects with the same jobs. -/
def SameJobs (infos infos' : List (SimObjectIntegInfo ι)) : Prop :=
  List.Forall₂ (fun info info' => info'.simObject = info.simObject ∧
    info'.jobClassToInfo = info.jobClassToInfo) infos infos'

theorem SameJobs.refl (infos : List (SimObjectIntegInfo ι)) : SameJobs infos infos :=
  List.forall₂_same.mpr fun _ _ => ⟨rfl, rfl⟩

theorem SameJobs.trans {infos infos' infos'' : List (SimObjectIntegInfo ι)}
    (h : SameJobs infos infos') (h' : SameJobs infos' infos'') : SameJobs infos infos'' :=
  (forall₂_trans h h').imp fun _ _ ⟨_, hl, hr⟩ => ⟨hr.1.trans hl.1, hr.2.trans hl.2⟩

theorem SameJobs.simObjects {infos infos' : List (SimObjectIntegInfo ι)}
    (h : SameJobs infos infos') :
    infos'.map SimObjectIntegInfo.simObject = infos.map SimObjectIntegInfo.simObject :=
  map_eq_of_forall₂ (h.imp fun _ _ => And.left)

theorem sameJobs_setIntegratedBy (l : ι) (infos : List (SimObjectIntegInfo ι)) (o : SimObject) :
    SameJobs infos (setIntegratedBy l infos o) := by
  unfold setIntegratedBy
  generalize infos.findIdx _ = i
  induction infos generalizing i with
  | nil => cases i <;> exact .nil
  | cons info infos ih =>
    cases i with
    | zero => exact .cons ⟨rfl, rfl⟩ (SameJobs.refl infos)
    | succ i => exact .cons ⟨rfl, rfl⟩ (ih i)

theorem sameJobs_foldl_setIntegratedBy (l : ι) (objects : List SimObject) :
    ∀ infos : List (SimObjectIntegInfo ι),
      SameJobs infos (objects.foldl (setIntegratedBy l) infos) := by
  induction objects with
  | nil => exact SameJobs.refl
  | cons o objects ih =>
    exact fun infos => (sameJobs_setIntegratedBy l infos o).trans (ih _)

theorem sameJobs_clearIntegratedBy [DecidableEq ι] (infos : List (SimObjectIntegInfo ι)) (l : ι) :
    SameJobs infos (clearIntegratedBy infos l) := by
  unfold SameJobs clearIntegratedBy
  refine List.forall₂_map_right_iff.mpr (List.forall₂_same.mpr fun info _ => ?_)
  show (if _ then _ else _ : SimObjectIntegInfo ι).simObject = _ ∧ _
  split <;> exact ⟨rfl, rfl⟩

theorem isSome_findSimObjectInfo {infos : List (SimObjectIntegInfo ι)} {o : SimObject} :
    (findSimObjectInfo infos o).isSome ↔ o ∈ infos.map SimObjectIntegInfo.simObject := by
  unfold findSimObjectInfo
  simp [List.find?_isSome]

/-! ## What the entries own -/

/-- Each entry owns the jobs that the build gave it. -/
def Entries (sim : Simulation) (infos : List (SimObjectIntegInfo ι)) : Prop :=
  ∀ info ∈ infos, ∀ c,
    info.ownedJobs c = ownedIn sim (infos.map SimObjectIntegInfo.simObject) c info.simObject

theorem Entries.of_sameJobs {sim : Simulation} {infos infos' : List (SimObjectIntegInfo ι)}
    (h : Entries sim infos) (hs : SameJobs infos infos') : Entries sim infos' := by
  intro info' hmem c
  obtain ⟨info, hm, ho, hj⟩ := exists_of_forall₂ hs hmem
  rw [hs.simObjects, ho, ← h info hm c]
  exact congrArg (fun f => (f c).ownedJobs) hj

theorem entries_buildInfos (sim : Simulation) (objects : List SimObject) (h : objects.Nodup) :
    Entries sim (buildInfos (ι := ι) sim objects) := by
  intro info hmem c
  obtain ⟨o, _, ho, _, hj⟩ := exists_of_forall₂ (forall₂_buildInfos (ι := ι) sim objects h) hmem
  rw [simObject_buildInfos sim objects h, hj c, ho]

/-- After a build no loop integrates anything. -/
theorem getIntegratedBy_buildInfos (sim : Simulation) (objects : List SimObject) (h : objects.Nodup)
    (o : SimObject) : getIntegratedBy (buildInfos (ι := ι) sim objects) o = none := by
  unfold getIntegratedBy
  cases hf : findSimObjectInfo (buildInfos (ι := ι) sim objects) o with
  | none => rfl
  | some info =>
    obtain ⟨_, _, _, hb, _⟩ := exists_of_forall₂ (forall₂_buildInfos (ι := ι) sim objects h)
      (List.mem_of_find?_eq_some hf)
    exact hb

theorem entryJobs_eq {sim : Simulation} {infos : List (SimObjectIntegInfo ι)}
    (h : Entries sim infos) {o : SimObject}
    (ho : o ∈ infos.map SimObjectIntegInfo.simObject) (c : JobClass) :
    entryJobs infos c o = ownedIn sim (infos.map SimObjectIntegInfo.simObject) c o := by
  obtain ⟨info, hinfo⟩ := Option.isSome_iff_exists.mp (isSome_findSimObjectInfo.mpr ho)
  unfold entryJobs
  rw [hinfo]
  have hsim : info.simObject = o := by
    unfold findSimObjectInfo at hinfo
    simpa using List.find?_some hinfo
  rw [Option.map_some, Option.getD_some, h info (List.mem_of_find?_eq_some hinfo) c, hsim]

/-! ## The pointers after the loops over the entries -/

/-- One pointer is set, if there is an entry. -/
theorem getIntegratedBy_setIntegratedBy (l : ι) (infos : List (SimObjectIntegInfo ι))
    (o o' : SimObject) :
    getIntegratedBy (setIntegratedBy l infos o) o' =
      if o' = o ∧ o ∈ infos.map SimObjectIntegInfo.simObject then some l
      else getIntegratedBy infos o' := by
  unfold getIntegratedBy findSimObjectInfo setIntegratedBy
  induction infos with
  | nil => simp
  | cons info infos ih =>
    by_cases h : info.simObject = o
    · -- the entry is the first one
      by_cases ho : o' = o
      · simp [List.findIdx_cons, h, ho]
      · simp [List.findIdx_cons, h, ho, show o ≠ o' from fun e => ho e.symm]
    · have hne : o ≠ info.simObject := fun e => h e.symm
      by_cases h' : info.simObject = o'
      · have ho : o' ≠ o := fun e => h (h'.trans e)
        simp [List.findIdx_cons, h', ho]
      · simpa [List.findIdx_cons, h, h', hne] using ih

/-- **The loop over a list**: the sim objects in it that have an entry get the loop. -/
theorem getIntegratedBy_foldl (l : ι) (objects : List SimObject) (o : SimObject) :
    ∀ infos : List (SimObjectIntegInfo ι),
      getIntegratedBy (objects.foldl (setIntegratedBy l) infos) o =
        if o ∈ objects ∧ o ∈ infos.map SimObjectIntegInfo.simObject then some l
        else getIntegratedBy infos o := by
  induction objects with
  | nil => intro infos; simp
  | cons a objects ih =>
    intro infos
    rw [List.foldl_cons, ih, (sameJobs_setIntegratedBy l infos a).simObjects,
      getIntegratedBy_setIntegratedBy]
    by_cases h : o ∈ infos.map SimObjectIntegInfo.simObject
    · by_cases ha : o = a
      · subst ha
        simp [h]
      · simp [ha]
    · have ha : ¬ (o = a ∧ a ∈ infos.map SimObjectIntegInfo.simObject) := fun e => h (e.1 ▸ e.2)
      rw [if_neg ha, if_neg (And.right.mt h), if_neg (And.right.mt h)]

theorem getIntegratedBy_clearIntegratedBy [DecidableEq ι] (infos : List (SimObjectIntegInfo ι))
    (l : ι) (o : SimObject) :
    getIntegratedBy (clearIntegratedBy infos l) o =
      if getIntegratedBy infos o = some l then none else getIntegratedBy infos o := by
  unfold getIntegratedBy findSimObjectInfo clearIntegratedBy
  induction infos with
  | nil => simp
  | cons info infos ih =>
    rw [List.map_cons, List.find?_cons, List.find?_cons]
    have hs : (if info.integratedBy = some l then { info with integratedBy := none }
        else info : SimObjectIntegInfo ι).simObject = info.simObject := by split <;> rfl
    rw [hs]
    by_cases h : info.simObject = o
    · simp only [h, decide_true, Option.bind_some]
      by_cases hl : info.integratedBy = some l <;> simp [hl]
    · simpa only [h, decide_false] using ih

end Trick.IntegLoops
