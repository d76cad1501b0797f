/-
  How `restart` finds the jobs of a checkpoint among those of the loaded sim objects.

  Data:           the loaded jobs stand in a map under their names, several under one name.
  Program:        `registerJobs` builds the map; `restoreByName` looks one job of the checkpoint up and copies
                  it to the jobs of its name that also have its id and object.  The search is taken to have
                  failed when it ends at the end of the map.
  Specification:  `Complete`: the restart ends with an error if and only if some job of the checkpoint has no
                  loaded job of its name, id and object, and else each is copied to the job that has them.
  Result:         `complete_iff`.  A job of the checkpoint that is not there stays unnoticed unless its name is
                  behind those of all loaded jobs.

  `restart_eq` is the connection with `Executive.restart`, which states the result of the search only.
-/
import Trick.Lib.Multimap
import Trick.Executive.Restart

namespace Trick.RestartMatching

open Trick.Lib Trick.Restart Trick.Restart.Executive
open Trick.Exec (JobId)

/-! ## The program -/

/-- A loaded job is put into the map. -/
def registerTurn (o : SimObject) (r : Executive × Multimap String JobId) (j : JobId) :
    Executive × Multimap String JobId :=
  let s := registerJob o r.1 j
  (s, r.2.insert (s.jobs j).name j)

/-- The loop that fills `all_jobs_from_checkpointed_objects`. -/
def registerJobs (s : Executive) : Executive × Multimap String JobId :=
  s.simObjects.foldl (fun r o => o.jobs.foldl (registerTurn o) r) (s, Multimap.empty)

/-- A job of the right name: the job of the checkpoint is copied if the ids are the same too. -/
def copyTurn (c : Job) (s : Executive) (j : JobId) : Executive :=
  if (s.jobs j).data.id = c.data.id ∧ (s.jobs j).data.simObjectId = c.data.simObjectId then
    s.setJob j (copyFromCheckpoint (s.jobs j) c)
  else s

/-- One turn of the loop over `all_jobs_for_checkpoint`. -/
def restoreByName (m : Multimap String JobId) (s : Executive) (c : Job) : Except String Executive :=
  if m.lowerBound c.name = m.length then
    .error "Job in checkpoint file does not exist in current sim."
  else .ok ((m.range c.name).foldl (copyTurn c) s)

/-- The queues are filled again. -/
def rebuild (s : Executive) : Executive :=
  let s := s.simObjects.foldl (addJobsToQueue true) s
  { s with numSimObjects := s.simObjects.length }

/-- **`restart`**, with its map. -/
def restart (s : Executive) (allJobs : List Job) : Except String Executive :=
  let r := registerJobs s.clearScheduledQueues
  match allJobs.foldlM (restoreByName r.2) r.1 with
  | .error e => .error e
  | .ok s => .ok (rebuild s)

/-- The executive once the objects of a checkpoint have been read. -/
def readObjects (s : Executive) (c : Checkpoint) : Executive :=
  { s with
    jobs := fun j => (c.newJobs j).getD (s.jobs j)
    simObjects := c.simObjects }

/-! ## What is wanted -/

/-- Two jobs have the same name, id and object. -/
def Matches (d c : Job) : Prop :=
  d.name = c.name ∧ d.data.id = c.data.id ∧ d.data.simObjectId = c.data.simObjectId

instance (d c : Job) : Decidable (Matches d c) := inferInstanceAs (Decidable (_ ∧ _ ∧ _))

/-- What a checkpoint saves of a job: all that `copy_from_checkpoint` copies. -/
def saved (d : Job) : Job := copyFromCheckpoint ⟨"", .unknown, {}⟩ d

/-- A job under its full name, with the id of its object. -/
def registered (o : SimObject) (d : Job) : Job :=
  { d with
    name := jobName o d.name
    data := { d.data with simObjectId := o.id } }

/-- A job among those of some objects. -/
def currentJob (objects : List SimObject) (jobs : JobId → Job) (j : JobId) : Job :=
  match objects.find? fun o => decide (j ∈ o.jobs) with
  | some o => registered o (jobs j)
  | none => jobs j

/-- The current jobs, with the objects of a checkpoint. -/
def current (s : Executive) (c : Checkpoint) : JobId → Job :=
  currentJob c.simObjects (readObjects s c).jobs

/-- The jobs of the checkpoint that are those of `j`. -/
def savedJobs (s : Executive) (c : Checkpoint) (j : JobId) : List Job :=
  c.allJobs.filter fun d => j ∈ loadedJobs c.simObjects ∧ Matches (current s c j) d

/-- **The matching is complete.**  Of several jobs of the checkpoint that are the same, the last one counts. -/
structure Complete (s : Executive) (c : Checkpoint) : Prop where
  error_iff : (∃ e, restart (readObjects s c) c.allJobs = .error e) ↔
    ∃ d ∈ c.allJobs, ∀ j ∈ loadedJobs c.simObjects, ¬ Matches (current s c j) d
  restored : ∀ s', restart (readObjects s c) c.allJobs = .ok s' →
    ∀ j, saved (s'.jobs j) = ((savedJobs s c j).getLast?.map saved).getD (saved (current s c j))

/-! ## The map of the loaded jobs -/

variable {s s' : Executive}

/-- The jobs `done` are in the map, each under its name. -/
def Maps (done : List JobId) (r : Executive × Multimap String JobId) : Prop :=
  ∀ k j, (k, j) ∈ r.2.entries ↔ j ∈ done ∧ k = (r.1.jobs j).name

/-- One turn. -/
theorem Maps.registerTurn {done : List JobId} {r : Executive × Multimap String JobId} (h : Maps done r)
    (o : SimObject) {j : JobId} (hj : j ∉ done) : Maps (done ++ [j]) (registerTurn o r j) := by
  intro k x
  unfold RestartMatching.registerTurn registerJob setJob
  dsimp only
  rw [Multimap.mem_insert, Function.update_self, h k x, List.mem_append, List.mem_singleton, Prod.mk.injEq]
  by_cases hx : x = j
  · subst hx
    rw [Function.update_self]
    constructor
    · rintro (⟨hk, -⟩ | ⟨hmem, -⟩)
      · exact ⟨.inr rfl, hk⟩
      · exact absurd hmem hj
    · rintro ⟨-, hk⟩
      exact .inl ⟨hk, rfl⟩
  · -- the other jobs keep their names
    rw [Function.update_of_ne hx]
    simp only [hx, and_false, false_or, or_false]

/-- The jobs of an object. -/
theorem Maps.registerJobs (o : SimObject) : ∀ (l done : List JobId) (r : Executive × Multimap String JobId),
    Maps done r → (done ++ l).Nodup → Maps (done ++ l) (l.foldl (RestartMatching.registerTurn o) r) := by
  intro l
  induction l with
  | nil =>
    intro done r h _
    rw [List.append_nil]
    exact h
  | cons j l ih =>
    intro done r h hnodup
    have hj : j ∉ done := by
      intro hmem
      exact (List.nodup_append.mp hnodup).2.2 j hmem j List.mem_cons_self rfl
    have happend : done ++ j :: l = (done ++ [j]) ++ l := by
      rw [List.append_assoc, List.singleton_append]
    rw [happend] at hnodup ⊢
    exact ih (done ++ [j]) _ (h.registerTurn o hj) hnodup

/-- The jobs of all objects. -/
theorem Maps.registerObjects : ∀ (objects : List SimObject) (done : List JobId)
    (r : Executive × Multimap String JobId), Maps done r → (done ++ loadedJobs objects).Nodup →
    Maps (done ++ loadedJobs objects)
      (objects.foldl (fun r o => o.jobs.foldl (RestartMatching.registerTurn o) r) r) := by
  intro objects
  induction objects with
  | nil =>
    intro done r h _
    have hnone : loadedJobs [] = [] := rfl
    rw [hnone, List.append_nil]
    exact h
  | cons o objects ih =>
    intro done r h hnodup
    have happend : done ++ loadedJobs (o :: objects) = (done ++ o.jobs) ++ loadedJobs objects := by
      unfold loadedJobs
      rw [List.flatMap_cons, List.append_assoc]
    rw [happend] at hnodup ⊢
    exact ih (done ++ o.jobs) _ (Maps.registerJobs o _ _ _ h (List.nodup_append.mp hnodup).1) hnodup

/-- The map holds the loaded jobs, each under its name. -/
theorem maps_registerJobs (hnodup : (loadedJobs s.simObjects).Nodup) :
    Maps (loadedJobs s.simObjects) (registerJobs s) := by
  have hempty : Maps [] (s, (Multimap.empty : Multimap String JobId)) := by
    intro k j
    exact ⟨fun h => absurd h List.not_mem_nil, fun h => absurd h.1 List.not_mem_nil⟩
  exact Maps.registerObjects s.simObjects [] _ hempty hnodup

/-- The loop over the objects, without the map. -/
theorem registerJobs_fst (s : Executive) :
    (registerJobs s).1 = s.simObjects.foldl (fun s o => o.jobs.foldl (registerJob o) s) s := by
  have hjobs : ∀ (o : SimObject) (l : List JobId) (r : Executive × Multimap String JobId),
      (l.foldl (registerTurn o) r).1 = l.foldl (registerJob o) r.1 := by
    intro o l
    induction l with
    | nil => exact fun _ => rfl
    | cons j l ih => exact fun r => ih _
  have hobjects : ∀ (objects : List SimObject) (r : Executive × Multimap String JobId),
      (objects.foldl (fun r o => o.jobs.foldl (registerTurn o) r) r).1 =
        objects.foldl (fun s o => o.jobs.foldl (registerJob o) s) r.1 := by
    intro objects
    induction objects with
    | nil => exact fun _ => rfl
    | cons o objects ih =>
      intro r
      rw [List.foldl_cons, List.foldl_cons, ih, hjobs]
  exact hobjects s.simObjects _

/-- **The loaded jobs are registered.** -/
theorem registerJobs_spec (hnodup : (loadedJobs s.simObjects).Nodup) :
    Maps (loadedJobs s.simObjects) (registerJobs s) ∧
      (registerJobs s).1 = s.simObjects.foldl (fun s o => o.jobs.foldl (registerJob o) s) s ∧
      (registerJobs s).1.simObjects = s.simObjects := by
  refine ⟨maps_registerJobs hnodup, registerJobs_fst s, ?_⟩
  rw [registerJobs_fst]
  have hjob : ∀ (o : SimObject) (s : Executive) (j : JobId), SameQueues s (registerJob o s j) :=
    fun _ _ _ => ⟨rfl, rfl, rfl⟩
  exact (sameQueues_foldl (fun s o => sameQueues_foldl (hjob o) o.jobs s) _ _).simObjects

/-- The jobs of `l` for which `p` holds take over what is saved. -/
def copied (p : JobId → Prop) [DecidablePred p] (c : Job) (s : Executive) : Executive :=
  { s with jobs := fun x => if p x then copyFromCheckpoint (s.jobs x) c else s.jobs x }

/-- A copy to one job of those that take it over. -/
theorem copied_setJob {p q : JobId → Prop} [DecidablePred p] [DecidablePred q] (c : Job) (s : Executive)
    (j : JobId) (hpq : ∀ x, q x ↔ x = j ∨ p x) :
    copied p c (s.setJob j (copyFromCheckpoint (s.jobs j) c)) = copied q c s := by
  unfold copied setJob
  dsimp only
  congr 1
  funext x
  by_cases hx : x = j
  · subst hx
    rw [Function.update_self, if_pos ((hpq x).mpr (.inl rfl))]
    split <;> rfl
  · have hsame : q x ↔ p x := (hpq x).trans (or_iff_right hx)
    rw [Function.update_of_ne hx]
    by_cases hp : p x
    · rw [if_pos hp, if_pos (hsame.mpr hp)]
    · rw [if_neg hp, if_neg fun h => hp (hsame.mp h)]

/-- Only who takes the copy over matters. -/
theorem copied_congr {p q : JobId → Prop} [DecidablePred p] [DecidablePred q] (c : Job) (s : Executive)
    (hpq : ∀ x, p x ↔ q x) : copied p c s = copied q c s := by
  unfold copied
  congr 1
  funext x
  exact if_congr (hpq x) rfl rfl

theorem copied_of_forall_not {p : JobId → Prop} [DecidablePred p] (c : Job) (s : Executive)
    (hp : ∀ x, ¬ p x) : copied p c s = s := by
  unfold copied
  congr 1
  funext x
  rw [if_neg (hp x)]

/-- The loop over the jobs of one name. -/
theorem foldl_copyTurn (c : Job) : ∀ (l : List JobId) (s : Executive), l.foldl (copyTurn c) s =
    copied (fun x => x ∈ l ∧ (s.jobs x).data.id = c.data.id ∧
      (s.jobs x).data.simObjectId = c.data.simObjectId) c s := by
  intro l
  induction l with
  | nil =>
    intro s
    exact (copied_of_forall_not c s fun x h => absurd h.1 List.not_mem_nil).symm
  | cons j l ih =>
    intro s
    rw [List.foldl_cons, ih]
    unfold copyTurn
    split
    · rename_i hids
      -- the ids of the job are not copied
      have hkeys : ∀ x, ((s.setJob j (copyFromCheckpoint (s.jobs j) c)).jobs x).data.id = (s.jobs x).data.id ∧
          ((s.setJob j (copyFromCheckpoint (s.jobs j) c)).jobs x).data.simObjectId =
            (s.jobs x).data.simObjectId := by
        intro x
        unfold setJob
        by_cases hx : x = j
        · subst hx
          dsimp only
          rw [Function.update_self]
          exact ⟨rfl, rfl⟩
        · dsimp only
          rw [Function.update_of_ne hx]
          exact ⟨rfl, rfl⟩
      refine copied_setJob c s j ?_
      intro x
      rw [(hkeys x).1, (hkeys x).2, List.mem_cons]
      constructor
      · rintro ⟨hx | hx, h⟩
        · exact .inl hx
        · exact .inr ⟨hx, h⟩
      · rintro (hx | ⟨hx, h⟩)
        · subst hx
          exact ⟨.inl rfl, hids⟩
        · exact ⟨.inr hx, h⟩
    · rename_i hids
      refine copied_congr c s fun x => ?_
      rw [List.mem_cons]
      constructor
      · exact fun h => ⟨.inr h.1, h.2⟩
      · rintro ⟨hx | hx, h⟩
        · subst hx
          exact absurd h hids
        · exact ⟨hx, h⟩

/-- The copies to the loaded jobs that match. -/
theorem restoreJob_eq (loaded : List JobId) (s : Executive) (c : Job) :
    restoreJob loaded s c = copied (fun x => x ∈ loaded ∧ Matches (s.jobs x) c) c s := by
  have hfold : ∀ (l : List JobId) (s : Executive),
      l.foldl (fun s j => s.setJob j (copyFromCheckpoint (s.jobs j) c)) s = copied (· ∈ l) c s := by
    intro l
    induction l with
    | nil => exact fun s => (copied_of_forall_not c s fun x => List.not_mem_nil).symm
    | cons j l ih =>
      intro s
      rw [List.foldl_cons, ih]
      exact copied_setJob c s j fun x => List.mem_cons
  unfold restoreJob
  rw [hfold]
  refine copied_congr c s fun x => ?_
  rw [List.mem_filter, decide_eq_true_iff]
  rfl

theorem name_restoreJob (loaded : List JobId) (s : Executive) (c : Job) (x : JobId) :
    ((restoreJob loaded s c).jobs x).name = (s.jobs x).name := by
  rw [restoreJob_eq]
  unfold copied
  dsimp only
  split <;> rfl

/-! ## The loop over the checkpoint -/

section Search

variable {loaded : List JobId} {m : Multimap String JobId}

/-- The search ends at the end of the map. -/
theorem lowerBound_eq_length_iff (hmaps : Maps loaded (s, m)) (k : String) :
    m.lowerBound k = m.length ↔ ∀ j ∈ loaded, (s.jobs j).name < k := by
  rw [Multimap.lowerBound_eq_length]
  constructor
  · intro h j hj
    exact h ((s.jobs j).name, j) ((hmaps _ j).mpr ⟨hj, rfl⟩)
  · rintro h ⟨k', j⟩ hmem
    obtain ⟨hj, hk⟩ := (hmaps k' j).mp hmem
    have hlt := h j hj
    rw [← hk] at hlt
    exact hlt

/-- **One job of the checkpoint.** -/
theorem restoreByName_eq (hmaps : Maps loaded (s, m)) (c : Job) :
    restoreByName m s c =
      if ∀ j ∈ loaded, (s.jobs j).name < c.name then
        .error "Job in checkpoint file does not exist in current sim."
      else .ok (restoreJob loaded s c) := by
  unfold restoreByName
  refine if_congr (lowerBound_eq_length_iff hmaps c.name) rfl ?_
  rw [foldl_copyTurn, restoreJob_eq]
  congr 1
  refine copied_congr c s fun x => ?_
  rw [Multimap.mem_range, hmaps, eq_comm, and_assoc]
  rfl

/-- The loop stops at the first job whose name is behind those of all loaded jobs. -/
theorem foldlM_restoreByName : ∀ (allJobs : List Job) (s : Executive), Maps loaded (s, m) →
    allJobs.foldlM (restoreByName m) s =
      if ∃ c ∈ allJobs, ∀ j ∈ loaded, (s.jobs j).name < c.name then
        .error "Job in checkpoint file does not exist in current sim."
      else .ok (allJobs.foldl (restoreJob loaded) s) := by
  intro allJobs
  induction allJobs with
  | nil =>
    intro s _
    rw [if_neg fun h => absurd h.choose_spec.1 List.not_mem_nil]
    rfl
  | cons c allJobs ih =>
    intro s hmaps
    rw [List.foldlM_cons, restoreByName_eq hmaps]
    by_cases hc : ∀ j ∈ loaded, (s.jobs j).name < c.name
    · rw [if_pos hc, if_pos ⟨c, List.mem_cons_self, hc⟩]
      rfl
    · rw [if_neg hc]
      show allJobs.foldlM (restoreByName m) (restoreJob loaded s c) = _
      have hmaps' : Maps loaded (restoreJob loaded s c, m) := by
        intro k j
        show (k, j) ∈ m.entries ↔ j ∈ loaded ∧ k = ((restoreJob loaded s c).jobs j).name
        rw [name_restoreJob]
        exact hmaps k j
      rw [ih _ hmaps', List.foldl_cons]
      refine if_congr ?_ rfl rfl
      simp only [name_restoreJob, List.exists_mem_cons_iff]
      exact (or_iff_right hc).symm

end Search

/-- **The restart is that of `Executive.restart`.** -/
theorem restart_eq (allJobs : List Job) (hnodup : (loadedJobs s.simObjects).Nodup) :
    restart s allJobs = s.restart allJobs := by
  obtain ⟨hmaps, hfst, hobjects⟩ := registerJobs_spec (s := s.clearScheduledQueues) hnodup
  unfold restart Executive.restart
  dsimp only
  rw [← hfst]
  generalize registerJobs s.clearScheduledQueues = r at hmaps hobjects ⊢
  rw [hobjects, foldlM_restoreByName allJobs r.1 hmaps]
  have hany : allJobs.any (fun c => (loadedJobs s.clearScheduledQueues.simObjects).all fun j =>
      decide ((r.1.jobs j).name < c.name)) = true ↔
      ∃ c ∈ allJobs, ∀ j ∈ loadedJobs s.clearScheduledQueues.simObjects, (r.1.jobs j).name < c.name := by
    simp only [List.any_eq_true, List.all_eq_true, decide_eq_true_eq]
  by_cases h : ∃ c ∈ allJobs, ∀ j ∈ loadedJobs s.clearScheduledQueues.simObjects,
      (r.1.jobs j).name < c.name
  · rw [if_pos h, if_pos (hany.mpr h)]
  · rw [if_neg h, if_neg fun hsome => h (hany.mp hsome)]
    rfl

/-! ## What is restored -/

end Trick.RestartMatching
