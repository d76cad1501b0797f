/-
  Runs in which sim objects are added and deleted.

  Each event keeps `Sound`: objects that are added come in with their jobs placed (`Comes`), a load places all
  jobs again, and the scheduler moves cursors only.  `deletes_right` is then one deletion (`Sound.right`) in a
  state that a run has reached.
-/
import Trick.Executive.DeleteSimObject

namespace Trick.DeleteSimObject

open Trick.Lib Trick.Restart Trick.Restart.Executive
open Trick.Exec (JobId JobHeap JobData Scan ScheduledJobQueue findNextJobLoop)

namespace State

variable {s s' : State}

/-! ## Objects are added -/

theorem jobs_push (e : Executive) (j : JobId) (p : Place) : (e.push j p).jobs = e.jobs := by
  cases p <;> rfl

/-- A job that is added gets the number of its class. -/
theorem numbered_addJobToQueue (e : Executive) (j x : JobId) (hx : x = j ∨ Numbered (e.jobs x)) :
    Numbered ((e.addJobToQueue j).jobs x) := by
  cases hmap : classMap (e.jobs j).className with
  | none =>
    have hsame : e.addJobToQueue j = e := by
      unfold addJobToQueue
      rw [hmap]
    rw [hsame]
    rcases hx with rfl | hx
    · -- the map has no number for the class
      intro c hc
      rw [hmap] at hc
      cases hc
    · exact hx
  | some c =>
    have hjobs : (e.addJobToQueue j).jobs =
        Function.update e.jobs j { e.jobs j with data := { (e.jobs j).data with jobClass := c } } := by
      unfold addJobToQueue
      rw [hmap]
      dsimp only
      split_ifs
      · rw [jobs_push, jobs_push]
        rfl
      · rw [jobs_push]
        rfl
      · rw [jobs_push]
        rfl
      · split
        · rw [jobs_push]
          rfl
        · rfl
      · rw [jobs_push, jobs_push]
        rfl
      · split
        · rw [jobs_push]
          rfl
        · rfl
    rw [hjobs]
    by_cases hxj : x = j
    · subst hxj
      rw [Function.update_self]
      intro c' hc'
      rw [hmap] at hc'
      exact Option.some.inj hc'
    · rw [Function.update_of_ne hxj]
      exact hx.resolve_left hxj

theorem numbered_addJob (o : SimObject) (restartFlag : Bool) (e : Executive) (j x : JobId)
    (hx : x = j ∨ Numbered (e.jobs x)) : Numbered ((Executive.addJob o restartFlag e j).jobs x) := by
  unfold Executive.addJob
  dsimp only
  refine numbered_addJobToQueue _ j x ?_
  by_cases hxj : x = j
  · exact .inl hxj
  · refine .inr ?_
    unfold setJob
    dsimp only
    rw [Function.update_of_ne hxj]
    exact hx.resolve_left hxj

theorem numbered_addJobs (o : SimObject) (restartFlag : Bool) (x : JobId) : ∀ (l : List JobId) (e : Executive),
    x ∈ l ∨ Numbered (e.jobs x) → Numbered ((l.foldl (Executive.addJob o restartFlag) e).jobs x) := by
  intro l
  induction l with
  | nil => exact fun e hx => hx.resolve_left List.not_mem_nil
  | cons j l ih =>
    intro e hx
    rw [List.foldl_cons]
    refine ih _ ?_
    by_cases hxl : x ∈ l
    · exact .inl hxl
    · refine .inr (numbered_addJob o restartFlag e j x ?_)
      rcases hx with hx | hx
      · exact .inl ((List.mem_cons.mp hx).resolve_right hxl)
      · exact .inr hx

/-- The object that the jobs belong to. -/
theorem parent_addJobs (o : SimObject) (restartFlag : Bool) (x : JobId) : ∀ (l : List JobId) (s : State),
    (l.foldl (addJob o restartFlag) s).parentObject x = if x ∈ l then some o else s.parentObject x := by
  intro l
  induction l with
  | nil =>
    intro s
    rw [if_neg List.not_mem_nil]
    rfl
  | cons j l ih =>
    intro s
    rw [List.foldl_cons, ih]
    unfold addJob
    dsimp only
    by_cases hxj : x = j
    · subst hxj
      rw [Function.update_self, if_pos List.mem_cons_self, ite_self]
    · rw [Function.update_of_ne hxj]
      refine if_congr ?_ rfl rfl
      rw [List.mem_cons]
      exact (or_iff_right hxj).symm

/-- **The jobs of `l` have come in**, and no other job has moved. -/
structure Comes (l : List JobId) (s s' : State) : Prop where
  loaded : loadedJobs s'.exec.simObjects = loadedJobs s.exec.simObjects ++ l
  count : ∀ p, ∀ x ∉ l, (s'.exec.queueAt p).list.count x = (s.exec.queueAt p).list.count x

/-- **An object is added.** -/
theorem Sound.addObject (h : Sound s) {o : SimObject} (hok : Executive.Event.Ok s.exec (.addSimObject o)) :
    Sound (s.addObject o) ∧ Comes o.jobs s (s.addObject o) := by
  have hrebuilt : Rebuilt (s.addObject o).exec := by
    rw [exec_addObject]
    exact h.rebuilt.addSimObject hok
  obtain ⟨-, hnew⟩ := hok
  have hadds := adds_addJobsToQueue false
    { s.exec with
      numSimObjects := s.exec.numSimObjects + 1
      simObjects := s.exec.simObjects ++ [{ o with id := s.exec.numSimObjects + 1 }] }
    { o with id := s.exec.numSimObjects + 1 }
  have hexec := exec_addObject s o
  unfold Executive.addSimObject at hexec
  dsimp only at hexec
  rw [← hexec] at hadds
  have hobjects : (s.addObject o).exec.simObjects =
      s.exec.simObjects ++ [{ o with id := s.exec.numSimObjects + 1 }] := hadds.simObjects
  have hloaded : loadedJobs (s.addObject o).exec.simObjects = loadedJobs s.exec.simObjects ++ o.jobs := by
    rw [hobjects]
    unfold loadedJobs
    rw [List.flatMap_append, List.flatMap_singleton]
  have hparent : ∀ x, (s.addObject o).parentObject x =
      if x ∈ o.jobs then some { o with id := s.exec.numSimObjects + 1 } else s.parentObject x := by
    intro x
    exact parent_addJobs { o with id := s.exec.numSimObjects + 1 } false x o.jobs _
  refine ⟨⟨hrebuilt, ?_, ?_⟩, hloaded, ?_⟩
  · intro j hj
    rw [hloaded, List.mem_append] at hj
    rw [hexec]
    refine numbered_addJobs _ false j o.jobs _ ?_
    rcases hj with hj | hj
    · exact .inr (h.numbered j hj)
    · exact .inl hj
  · intro o' ho' j hj
    rw [hobjects, List.mem_append, List.mem_singleton] at ho'
    rw [hparent]
    rcases ho' with ho' | rfl
    · -- the jobs that were there are no jobs of the new object
      have hnot : j ∉ o.jobs := fun hjo => (hnew j hjo).1 (List.mem_flatMap.mpr ⟨o', ho', hj⟩)
      rw [if_neg hnot]
      exact h.parent o' ho' j hj
    · rw [if_pos hj]
  · intro p x hx
    rw [hadds.count, List.count_eq_zero.mpr hx, zero_mul, add_zero]
    cases p <;> rfl

/-- What was added before. -/
theorem Comes.trans {l l' : List JobId} {s'' : State} (h : Comes l s s') (h' : Comes l' s' s'') :
    Comes (l ++ l') s s'' where
  loaded := by rw [h'.loaded, h.loaded, List.append_assoc]
  count p x hx := by
    rw [List.mem_append, not_or] at hx
    rw [h'.count p x hx.2, h.count p x hx.1]

/-- Jobs that are still to come. -/
theorem Comes.fresh {l l' : List JobId} (h : Comes l s s') (hnodup : (l ++ l').Nodup)
    (hl' : ∀ j ∈ l', j ∉ loadedJobs s.exec.simObjects ∧ ∀ p, j ∉ (s.exec.queueAt p).list) :
    ∀ j ∈ l', j ∉ loadedJobs s'.exec.simObjects ∧ ∀ p, j ∉ (s'.exec.queueAt p).list := by
  intro j hj
  have hjl : j ∉ l := fun hmem => (List.nodup_append.mp hnodup).2.2 j hmem j hj rfl
  obtain ⟨hloaded, hqueue⟩ := hl' j hj
  refine ⟨?_, ?_⟩
  · rw [h.loaded, List.mem_append, not_or]
    exact ⟨hloaded, hjl⟩
  · intro p
    rw [← List.count_eq_zero, h.count p j hjl]
    exact List.count_eq_zero.mpr (hqueue p)

theorem jobs_cons (o : SimObject) (pre post rest : SimObjects) :
    (SimObjects.cons o pre post rest).jobs = pre.jobs ++ (o.jobs ++ (post.jobs ++ rest.jobs)) := by
  show loadedJobs (pre.objects ++ o :: (post.objects ++ rest.objects)) = _
  unfold SimObjects.jobs loadedJobs
  rw [List.flatMap_append, List.flatMap_cons, List.flatMap_append]

/-- **Objects are added with their components.** -/
theorem Sound.addSimObjects : ∀ (f : SimObjects) (outer : Option String) (s : State), Sound s → Fresh f s →
    Sound (State.addSimObjects outer f s) ∧ Comes f.jobs s (State.addSimObjects outer f s) := by
  intro f
  induction f with
  | nil =>
    intro outer s h _
    refine ⟨h, ?_, fun _ _ _ => rfl⟩
    show _ = _ ++ []
    rw [List.append_nil]
    rfl
  | cons o pre post rest ihpre ihpost ihrest =>
    intro outer s h hfresh
    obtain ⟨hnodup, hnew⟩ := hfresh
    rw [jobs_cons] at hnodup hnew ⊢
    have ho : (componentName outer o).jobs = o.jobs := by
      unfold componentName
      split <;> rfl
    unfold State.addSimObjects
    dsimp only
    -- the components before the object
    obtain ⟨h₁, hcomes₁⟩ := ihpre (some (componentName outer o).name) s h
      ⟨(List.nodup_append.mp hnodup).1, fun j hj => hnew j (List.mem_append_left _ hj)⟩
    have hnew₁ := hcomes₁.fresh hnodup fun j hj => hnew j (List.mem_append_right _ hj)
    have hnodup₁ := (List.nodup_append.mp hnodup).2.1
    generalize State.addSimObjects (some (componentName outer o).name) pre s = s₁ at h₁ hcomes₁ hnew₁ ⊢
    -- the object
    obtain ⟨h₂, hcomes₂⟩ := h₁.addObject (o := componentName outer o)
      ⟨ho.symm ▸ (List.nodup_append.mp hnodup₁).1, by
        rw [ho]
        exact fun j hj => hnew₁ j (List.mem_append_left _ hj)⟩
    rw [ho] at hcomes₂
    have hnew₂ := hcomes₂.fresh hnodup₁ fun j hj => hnew₁ j (List.mem_append_right _ hj)
    have hnodup₂ := (List.nodup_append.mp hnodup₁).2.1
    generalize s₁.addObject (componentName outer o) = s₂ at h₂ hcomes₂ hnew₂ ⊢
    -- the components behind it
    obtain ⟨h₃, hcomes₃⟩ := ihpost (some (componentName outer o).name) s₂ h₂
      ⟨(List.nodup_append.mp hnodup₂).1, fun j hj => hnew₂ j (List.mem_append_left _ hj)⟩
    have hnew₃ := hcomes₃.fresh hnodup₂ fun j hj => hnew₂ j (List.mem_append_right _ hj)
    -- the other objects
    obtain ⟨h₄, hcomes₄⟩ := ihrest outer _ h₃ ⟨(List.nodup_append.mp hnodup₂).2.1, hnew₃⟩
    exact ⟨h₄, hcomes₁.trans (hcomes₂.trans (hcomes₃.trans hcomes₄))⟩

/-! ## A checkpoint is loaded -/

theorem parent_objects (restartFlag : Bool) (x : JobId) : ∀ (objects : List SimObject) (s : State),
    (∀ o ∈ objects, x ∉ o.jobs) →
    (objects.foldl (addJobsToQueue restartFlag) s).parentObject x = s.parentObject x := by
  intro objects
  induction objects with
  | nil => exact fun _ _ => rfl
  | cons o objects ih =>
    intro s hx
    rw [List.foldl_cons, ih _ fun o' ho' => hx o' (List.mem_cons_of_mem o ho')]
    unfold addJobsToQueue
    rw [parent_addJobs, if_neg (hx o List.mem_cons_self)]

/-- The jobs of each object belong to it. -/
theorem parent_addObjects (restartFlag : Bool) : ∀ (objects : List SimObject) (s : State),
    (loadedJobs objects).Nodup → ∀ o ∈ objects, ∀ j ∈ o.jobs,
      (objects.foldl (addJobsToQueue restartFlag) s).parentObject j = some o := by
  intro objects
  induction objects with
  | nil => exact fun _ _ o ho => absurd ho List.not_mem_nil
  | cons o objects ih =>
    intro s hnodup o' ho' j hj
    unfold loadedJobs at hnodup
    rw [List.flatMap_cons] at hnodup
    obtain ⟨-, hrest, hcross⟩ := List.nodup_append.mp hnodup
    rw [List.foldl_cons]
    rcases List.mem_cons.mp ho' with rfl | ho'
    · rw [parent_objects]
      · unfold addJobsToQueue
        rw [parent_addJobs, if_pos hj]
      · intro o'' ho'' hj''
        exact hcross j hj j (List.mem_flatMap.mpr ⟨o'', ho'', hj''⟩) rfl
    · exact ih _ hrest o' ho' j hj

/-- The jobs of all objects get the numbers of their classes. -/
theorem numbered_objects (restartFlag : Bool) (x : JobId) : ∀ (objects : List SimObject) (e : Executive),
    x ∈ loadedJobs objects ∨ Numbered (e.jobs x) →
    Numbered ((objects.foldl (Executive.addJobsToQueue restartFlag) e).jobs x) := by
  intro objects
  induction objects with
  | nil => exact fun e hx => hx.resolve_left List.not_mem_nil
  | cons o objects ih =>
    intro e hx
    rw [List.foldl_cons]
    refine ih _ ?_
    by_cases hrest : x ∈ loadedJobs objects
    · exact .inl hrest
    · refine .inr (numbered_addJobs o restartFlag x o.jobs e ?_)
      rcases hx with hx | hx
      · unfold loadedJobs at hx hrest
        rw [List.flatMap_cons, List.mem_append] at hx
        exact .inl (hx.resolve_right hrest)
      · exact .inr hx

/-- A change of a queue that is none of its list. -/
theorem list_modifyQueue {g : ScheduledJobQueue → ScheduledJobQueue} (e : Executive) (p p' : Place)
    (hg : (g (e.queueAt p)).list = (e.queueAt p).list) :
    ((e.modifyQueue g p).queueAt p').list = (e.queueAt p').list := by
  by_cases hp : HasPlace e p
  · rw [queueAt_modifyQueue g hp]
    split
    · rename_i heq
      rw [hg, heq]
    · rfl
  · rw [modifyQueue_of_not_hasPlace g hp]

theorem list_setCurrIndex (value : Nat) (q : ScheduledJobQueue) : (setCurrIndex value q).list = q.list := by
  unfold setCurrIndex
  split <;> rfl

theorem exec_registerJobs (objects : List SimObject) (s : State) :
    (objects.foldl (fun s o => o.jobs.foldl (registerJob o) s) s).exec =
      objects.foldl (fun e o => o.jobs.foldl (Executive.registerJob o) e) s.exec := by
  refine (List.foldl_hom State.exec ?_).symm
  intro s o
  exact List.foldl_hom State.exec fun _ _ => rfl

theorem exec_addObjects (restartFlag : Bool) (objects : List SimObject) (s : State) :
    (objects.foldl (addJobsToQueue restartFlag) s).exec =
      objects.foldl (Executive.addJobsToQueue restartFlag) s.exec :=
  (List.foldl_hom State.exec fun s o => (exec_addJobsToQueue restartFlag s o).symm).symm

/-- **The restart**, as `Executive` has it: then the cursor of one queue is set, and nothing else that the
    invariant reads. -/
theorem exec_restart {allJobs : List Job} (h : s.restart allJobs = .ok s') :
    ∃ (e : Executive) (value : Nat) (s₁ : State), s.exec.restart allJobs = .ok e ∧
      s'.exec = e.modifyQueue (setCurrIndex value) (.exec .inputProcessor) ∧
      e.jobs = (s.exec.simObjects.foldl (addJobsToQueue true) s₁).exec.jobs ∧
      s'.parentObject = (s.exec.simObjects.foldl (addJobsToQueue true) s₁).parentObject := by
  unfold restart at h
  dsimp only at h
  have hregister := exec_registerJobs s.exec.clearScheduledQueues.simObjects
    { s with
      exec := s.exec.clearScheduledQueues
      allJobs := Multimap.empty
      allJobsVector := []
      allTaggedJobs := Multimap.empty }
  generalize List.foldl _ _ s.exec.clearScheduledQueues.simObjects = s₂ at h hregister
  have hobjects : s₂.exec.simObjects = s.exec.simObjects := by
    rw [hregister]
    have hjob : ∀ (o : SimObject) (e : Executive) (j : JobId), SameQueues e (Executive.registerJob o e j) :=
      fun _ _ _ => ⟨rfl, rfl, rfl⟩
    exact (sameQueues_foldl (fun e o => sameQueues_foldl (hjob o) o.jobs e) _ _).simObjects
  split at h
  · cases h
  rename_i hfound
  have hs' := Except.ok.inj h
  subst hs'
  have hrestore : (allJobs.foldl (restoreJob (loadedJobs s₂.exec.simObjects)) s₂.exec).simObjects =
      s.exec.simObjects := by
    rw [← hobjects]
    have hset : ∀ (e : Executive) (j : JobId) (d : Job), SameQueues e (e.setJob j d) :=
      fun _ _ _ => ⟨rfl, rfl, rfl⟩
    exact (sameQueues_foldl (fun e c => sameQueues_foldl (fun e j => hset e j _) _ e) _ _).simObjects
  have hadd := exec_addObjects true
    (allJobs.foldl (restoreJob (loadedJobs s₂.exec.simObjects)) s₂.exec).simObjects
    { s₂ with exec := allJobs.foldl (restoreJob (loadedJobs s₂.exec.simObjects)) s₂.exec }
  rw [hrestore] at hadd ⊢
  refine ⟨_, _, { s₂ with exec := allJobs.foldl (restoreJob (loadedJobs s₂.exec.simObjects)) s₂.exec },
    ?_, rfl, rfl, rfl⟩
  unfold Executive.restart
  dsimp only
  rw [← hregister, if_neg hfound, hadd, hrestore]

/-- **A checkpoint is loaded** while none of its jobs waits in the queue that is not cleared. -/
theorem sound_loadCheckpoint {c : Checkpoint} (hload : s.loadCheckpoint c = .ok s') (hclear : Clears s.exec c) :
    Sound s' := by
  unfold State.loadCheckpoint at hload
  obtain ⟨e, value, s₁, hrestart, hexec, hjobs, hparent⟩ := exec_restart hload
  dsimp only at hrestart hjobs hparent
  have hload : s.exec.loadCheckpoint c = .ok e := hrestart
  obtain ⟨hobjects, -⟩ := loadCheckpoint_count hload
  have hplaced := (loadCheckpoint_placed hload).mpr hclear
  have hsame : s'.exec.simObjects = e.simObjects ∧ s'.exec.jobs = e.jobs := by
    rw [hexec]
    exact ⟨rfl, rfl⟩
  have hlist : ∀ p, (s'.exec.queueAt p).list = (e.queueAt p).list := by
    intro p
    rw [hexec]
    exact list_modifyQueue e _ p (list_setCurrIndex value _)
  refine ⟨⟨?_, ?_⟩, ?_, ?_⟩
  · intro j hj p
    rw [hsame.1] at hj
    rw [hlist, hsame.2]
    exact hplaced j hj p
  · rw [hsame.1, hobjects]
    exact c.nodup
  · intro j hj
    rw [hsame.1, hobjects] at hj
    rw [hsame.2, hjobs, exec_addObjects]
    exact numbered_objects true j c.simObjects _ (.inl hj)
  · intro o ho j hj
    rw [hsame.1, hobjects] at ho
    rw [hparent]
    exact parent_addObjects true c.simObjects _ c.nodup o ho j hj

/-! ## The scheduler runs -/

/-- What a scan leaves as it was. -/
theorem scan_next_fields (jobs : JobHeap) (q : ScheduledJobQueue) (scan : Scan) (i : JobId) :
    (scan.next jobs q).2.2.list = q.list ∧
      ((scan.next jobs q).2.1 i).thread = (jobs i).thread ∧
      ((scan.next jobs q).2.1 i).jobClass = (jobs i).jobClass := by
  cases scan with
  | getNextJob =>
    refine ⟨?_, rfl, rfl⟩
    show (q.getNextJob jobs).2.list = q.list
    unfold ScheduledJobQueue.getNextJob
    split <;> rfl
  | findNextJob t =>
    refine ⟨rfl, ?_⟩
    show ((q.findNextJob t jobs).jobs i).thread = _ ∧ ((q.findNextJob t jobs).jobs i).jobClass = _
    unfold ScheduledJobQueue.findNextJob
    generalize q.list.drop q.currIndex = todo
    generalize q.currIndex = k
    generalize q.nextJobTime = time
    induction todo generalizing jobs k time with
    | nil => exact ⟨rfl, rfl⟩
    | cons j todo ih =>
      -- a job that is due may be given its next call time
      have hupdate : ∀ d : JobData, d.thread = (jobs j).thread ∧ d.jobClass = (jobs j).jobClass →
          (Function.update jobs j d i).thread = (jobs i).thread ∧
            (Function.update jobs j d i).jobClass = (jobs i).jobClass := by
        intro d hd
        by_cases hij : i = j
        · subst hij
          rw [Function.update_self]
          exact hd
        · rw [Function.update_of_ne hij]
          exact ⟨rfl, rfl⟩
      have hreschedule := hupdate (jobs j).reschedule ⟨rfl, rfl⟩
      unfold findNextJobLoop
      dsimp only
      split_ifs
      · exact hreschedule
      · exact hreschedule
      · obtain ⟨hthread, hclass⟩ := ih (Function.update jobs j (jobs j).reschedule) (k + 1)
          (jobs j).reschedule.nextTics
        exact ⟨hthread.trans hreschedule.1, hclass.trans hreschedule.2⟩
      · obtain ⟨hthread, hclass⟩ := ih (Function.update jobs j (jobs j).reschedule) (k + 1) time
        exact ⟨hthread.trans hreschedule.1, hclass.trans hreschedule.2⟩
      · exact ⟨rfl, rfl⟩
      · exact ih jobs (k + 1) time
      · exact ih jobs (k + 1) _
      · exact ih jobs (k + 1) _

theorem Sound.next (h : Sound s) (p : Place) (scan : Scan) : Sound (s.next p scan) := by
  have hfields := scan_next_fields (fun i => (s.exec.jobs i).data) (s.exec.queueAt p) scan
  refine h.of_same ?_ rfl ?_ (fun _ => rfl) (fun j => (hfields j).2.1) fun j => (hfields j).2.2
  · unfold State.next
    cases p <;> rfl
  · intro p'
    have hlist := list_modifyQueue (g := fun _ => (scan.next (fun i => (s.exec.jobs i).data)
      (s.exec.queueAt p)).2.2) s.exec p p' (hfields 0).1
    rw [← hlist]
    cases p' <;> rfl

theorem Sound.resetCurrIndex (h : Sound s) (p : Place) : Sound (s.resetCurrIndex p) := by
  refine h.of_same ?_ rfl ?_ ?_ ?_ ?_
  · unfold State.resetCurrIndex
    cases p <;> rfl
  · exact fun p' => list_modifyQueue s.exec p p' rfl
  all_goals
    intro j
    unfold State.resetCurrIndex
    cases p <;> rfl

theorem Sound.addDependsOnJob (h : Sound s) (target : String) (tInstance : Nat) (depend : String)
    (dInstance : Nat) : Sound (s.addDependsOnJob target tInstance depend dInstance) := by
  unfold State.addDependsOnJob
  split
  · split
    · exact h
    · exact h.of_same rfl rfl (fun _ => rfl) (fun _ => rfl) (fun _ => rfl) fun _ => rfl
  · exact h

/-! ## Every run -/

/-- **The step lemma.** -/
theorem Sound.step (h : Sound s) {e : Event} (hok : Event.Ok s e) : Sound (s.step e) := by
  cases e with
  | addSimObject o pre post => exact (Sound.addSimObjects _ none s h hok).1
  | deleteSimObject o pre post => exact (h.deleteSimObjects hok).sound
  | loadCheckpoint c =>
    show Sound ((s.loadCheckpoint c).toOption.getD s)
    cases hload : s.loadCheckpoint c with
    | error _ => exact h
    | ok s' => exact sound_loadCheckpoint hload hok
  | addDependsOnJob target tInstance depend dInstance => exact h.addDependsOnJob target tInstance depend dInstance
  | next p scan => exact h.next p scan
  | resetCurrIndex p => exact h.resetCurrIndex p

theorem sound_construct (jobs : JobId → Job) (tags : JobId → List String) : Sound (construct jobs tags) := by
  refine ⟨⟨?_, List.nodup_nil⟩, ?_, ?_⟩
  · exact fun j hj => absurd hj List.not_mem_nil
  · exact fun j hj => absurd hj List.not_mem_nil
  · exact fun o ho => absurd ho List.not_mem_nil

/-- **A sim object is deleted rightly in every run**: in every state that a run reaches in which each checkpoint
    is loaded while none of its jobs waits in the queue that is not cleared, the deletion of objects leaves
    nothing behind and moves no other job, if no other job depends on a job of theirs and no queue that keeps
    jobs has one of theirs at its cursor. -/
theorem deletes_right (jobs : JobId → Job) (tags : JobId → List String) (events : List Event)
    (hok : Guarded Event.Ok step (construct jobs tags) events) (f : SimObjects) :
    let s := run step (construct jobs tags) events
    Added f s → NoneDepends f s → AwayFromCursors f s → Right f s := by
  intro s hadded hdepends haway
  have hstep : ∀ (s : State) (e : Event), Sound s → Event.Ok s e → Sound (s.step e) :=
    fun _ _ h hok => h.step hok
  have hsound : Sound s := Guarded.invariant hstep events _ (sound_construct jobs tags) hok
  exact hsound.right hadded hdepends haway

/-- The jobs of three objects. -/
def threeObjects : JobId → Job
  | 0 => ⟨"state", .scheduled 7, { id := 1 }⟩
  | 1 => ⟨"measure", .endOfFrame, { id := 1, thread := 1 }⟩
  | _ => ⟨"gravity", .scheduled 2, { id := 1 }⟩

/-- Two objects are added, one of them with a component. -/
def addEvents : List Event :=
  [.addSimObject ⟨"sun", 0, [2]⟩ .nil .nil, .addSimObject ⟨"ball", 0, [0]⟩ (.cons ⟨"imu", 0, [1]⟩ .nil .nil .nil) .nil]

/-- The second object, once it has been added. -/
def ball : SimObjects := .cons ⟨"ball", 3, [0]⟩ (.cons ⟨"ball.imu", 2, [1]⟩ .nil .nil .nil) .nil .nil

/-- The queues of the two threads, and those that do not exist. -/
theorem forall_place {P : Place → Prop} (hexec : ∀ q, P (.exec q)) (hfirst : ∀ q, P (.thread 0 q))
    (hsecond : ∀ q, P (.thread 1 q)) (hother : ∀ n q, P (.thread (n + 2) q)) (p : Place) : P p := by
  rcases p with q | ⟨_ | _ | n, q⟩
  · exact hexec q
  · exact hfirst q
  · exact hsecond q
  · exact hother n q

theorem guarded_addEvents : Guarded Event.Ok step (construct threeObjects fun _ => ["tag"])
    (addEvents ++ [.addDependsOnJob "ball.imu.measure" 1 "sun.gravity" 1,
      .next (.exec .scheduled) .getNextJob, .next (.exec .scheduled) .getNextJob]) := by
  refine ⟨⟨by decide +kernel, ?_⟩, ⟨by decide +kernel, ?_⟩, trivial, trivial, trivial, trivial⟩
  · intro j _
    exact ⟨List.not_mem_nil, forall_place (fun _ => List.not_mem_nil) (fun _ => List.not_mem_nil)
      (fun _ => List.not_mem_nil) fun _ _ => List.not_mem_nil⟩
  · intro j hj
    have hj : j ∈ [1, 0] := hj
    rw [List.mem_cons, List.mem_singleton] at hj
    rcases hj with rfl | rfl
    all_goals
      refine ⟨by decide +kernel, forall_place ?_ ?_ ?_ ?_⟩
      · intro q
        cases q <;> decide +kernel
      · intro q
        cases q <;> decide +kernel
      · intro q
        cases q <;> decide +kernel
      · intro n q
        exact List.not_mem_nil

/-- The second object is deleted when all scheduled jobs have been called. -/
theorem deletes_right_ball :
    let s := run step (construct threeObjects fun _ => ["tag"])
      (addEvents ++ [.addDependsOnJob "ball.imu.measure" 1 "sun.gravity" 1,
        .next (.exec .scheduled) .getNextJob, .next (.exec .scheduled) .getNextJob])
    Right ball s := by
  refine deletes_right threeObjects (fun _ => ["tag"]) _ guarded_addEvents ball
    ⟨by decide +kernel, by decide +kernel⟩ ?_ ?_
  · show ∀ o ∈ _, _
    decide +kernel
  · refine forall_place ?_ ?_ ?_ ?_
    · intro q
      refine .inl ?_
      cases q <;> decide +kernel
    · intro q
      refine .inl ?_
      cases q <;> decide +kernel
    · intro q
      refine .inr ?_
      cases q <;> decide +kernel
    · intro n q
      exact .inl fun _ _ => nofun

/-- **The deletion of the second object is not right** when a job of the first depends on one of its jobs, nor
    when one of its jobs is the next to be called: then the job before that one is called again. -/
theorem not_deletes_right :
    (¬ Right ball (run step (construct threeObjects fun _ => [])
      (addEvents ++ [.addDependsOnJob "sun.gravity" 1 "ball.imu.measure" 1]))) ∧
    ¬ Right ball (run step (construct threeObjects fun _ => [])
      (addEvents ++ [.next (.exec .scheduled) .getNextJob])) := by
  refine ⟨?_, ?_⟩
  · intro h
    exact h.leavesNothing.depends 2 (by decide +kernel) 1 (by decide +kernel) (by decide +kernel)
  · intro h
    have hpassed := (h.keepsOthers (.exec .scheduled)).1
    revert hpassed
    decide +kernel

end State

end Trick.DeleteSimObject
