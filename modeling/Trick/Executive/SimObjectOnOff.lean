/-
  A sim object that is turned off and on again.

  Turning it off saves the flag of every job and disables the job; turning it on gives every job its saved
  flag back, or enables it if nothing is saved, and forgets what was saved.

  1. **Program.**  `setSimObjectOnoff`, with the two loops over the jobs of the object.

  2. **Specification.**  A group of off calls, and the on call behind it: every job should have the flag
     from before the first off call.

  3. **Result.**  `on_restores`: this is so if and only if the group is one call, or every job was disabled
     before it.  A second off call saves the flags that the first one has set.
-/
import Trick.Executive.JobData
import Trick.Lib.Run

namespace Trick.Exec

open Trick.Lib

namespace OnOff

/-! ## Program -/

/-- `SimObject`, with the flags of its jobs. -/
structure SimObject where
  jobs : List JobId
  nodup : jobs.Nodup
  objectDisabled : Bool := false
  /-- `saved_job_states`, a map -/
  savedJobStates : JobId → Option Bool := fun _ => none
  /-- The flags of all jobs. -/
  disabled : JobId → Bool

/-- A saved flag is applied; a job that is not in the map is turned on. -/
def applySaved (s : SimObject) (j : JobId) : SimObject :=
  match s.savedJobStates j with
  | some saved => { s with disabled := Function.update s.disabled j saved }
  | none => { s with disabled := Function.update s.disabled j false }

/-- The flag is saved, and the job turned off. -/
def saveAndDisable (s : SimObject) (j : JobId) : SimObject :=
  { s with
    savedJobStates := Function.update s.savedJobStates j (some (s.disabled j))
    disabled := Function.update s.disabled j true }

/-- `set_sim_object_onoff`, for an object that exists. -/
def setSimObjectOnoff (s : SimObject) (on : Bool) : SimObject :=
  let s := { s with objectDisabled := !on }
  if on then { s.jobs.foldl applySaved s with savedJobStates := fun _ => none }
  else s.jobs.foldl saveAndDisable s

/-- An object as it is constructed, with these jobs and these flags. -/
def create (jobs : List JobId) (nodup : jobs.Nodup) (disabled : JobId → Bool) : SimObject :=
  { jobs := jobs
    nodup := nodup
    disabled := disabled }

/-! ## The two loops -/

/-- Jobs that are not in the list keep their flags, and the others get what is saved. -/
theorem applySaved_foldl (js : List JobId) (s : SimObject) :
    (js.foldl applySaved s).jobs = s.jobs ∧ (js.foldl applySaved s).savedJobStates = s.savedJobStates ∧
      (∀ j ∈ js, (js.foldl applySaved s).disabled j = (s.savedJobStates j).getD false) ∧
      ∀ j ∉ js, (js.foldl applySaved s).disabled j = s.disabled j := by
  induction js generalizing s with
  | nil => exact ⟨rfl, rfl, fun j hj => (nomatch hj), fun _ _ => rfl⟩
  | cons k rest ih =>
    have hone : applySaved s k = { s with disabled := Function.update s.disabled k ((s.savedJobStates k).getD false) } := by
      unfold applySaved
      cases s.savedJobStates k <;> rfl
    rw [List.foldl_cons, hone]
    obtain ⟨hjobs, hsaved, hset, hkeep⟩ := ih
      { s with disabled := Function.update s.disabled k ((s.savedJobStates k).getD false) }
    refine ⟨hjobs, hsaved, ?_, ?_⟩
    · intro j hj
      by_cases hrest : j ∈ rest
      · exact hset j hrest
      · obtain rfl : j = k := (List.mem_cons.mp hj).resolve_right hrest
        rw [hkeep j hrest]
        exact Function.update_self ..
    · intro j hj
      rw [List.mem_cons, not_or] at hj
      rw [hkeep j hj.2]
      exact Function.update_of_ne hj.1 _ _

/-- The jobs in the list are disabled, with their flags saved. -/
theorem saveAndDisable_foldl {js : List JobId} (hnodup : js.Nodup) (s : SimObject) :
    (js.foldl saveAndDisable s).jobs = s.jobs ∧
      (∀ j ∈ js, (js.foldl saveAndDisable s).disabled j = true ∧
        (js.foldl saveAndDisable s).savedJobStates j = some (s.disabled j)) ∧
      ∀ j ∉ js, (js.foldl saveAndDisable s).disabled j = s.disabled j ∧
        (js.foldl saveAndDisable s).savedJobStates j = s.savedJobStates j := by
  induction js generalizing s with
  | nil => exact ⟨rfl, fun j hj => (nomatch hj), fun _ _ => ⟨rfl, rfl⟩⟩
  | cons k rest ih =>
    obtain ⟨hnot, hnodup⟩ := List.nodup_cons.mp hnodup
    rw [List.foldl_cons]
    obtain ⟨hjobs, hset, hkeep⟩ := ih hnodup (saveAndDisable s k)
    refine ⟨hjobs, ?_, ?_⟩
    · intro j hj
      rcases List.mem_cons.mp hj with rfl | hj
      · obtain ⟨hdisabled, hsaved⟩ := hkeep j hnot
        rw [hdisabled, hsaved]
        exact ⟨Function.update_self .., Function.update_self ..⟩
      · have hne : j ≠ k := fun heq => hnot (heq ▸ hj)
        obtain ⟨hdisabled, hsaved⟩ := hset j hj
        refine ⟨hdisabled, hsaved.trans (congrArg some ?_)⟩
        exact Function.update_of_ne hne _ _
    · intro j hj
      rw [List.mem_cons, not_or] at hj
      obtain ⟨hdisabled, hsaved⟩ := hkeep j hj.2
      rw [hdisabled, hsaved]
      exact ⟨Function.update_of_ne hj.1 _ _, Function.update_of_ne hj.1 _ _⟩

/-! ## One call -/

/-- **An on call.** -/
theorem on_spec (s : SimObject) :
    (setSimObjectOnoff s true).jobs = s.jobs ∧ (setSimObjectOnoff s true).savedJobStates = (fun _ => none) ∧
      ∀ j ∈ s.jobs, (setSimObjectOnoff s true).disabled j = (s.savedJobStates j).getD false := by
  obtain ⟨hjobs, -, hset, -⟩ := applySaved_foldl s.jobs { s with objectDisabled := !true }
  exact ⟨hjobs, rfl, hset⟩

/-- **An off call.** -/
theorem off_spec (s : SimObject) :
    (setSimObjectOnoff s false).jobs = s.jobs ∧
      ∀ j ∈ s.jobs, (setSimObjectOnoff s false).disabled j = true ∧
        (setSimObjectOnoff s false).savedJobStates j = some (s.disabled j) := by
  obtain ⟨hjobs, hset, -⟩ := saveAndDisable_foldl s.nodup { s with objectDisabled := !false }
  exact ⟨hjobs, hset⟩

/-! ## Sequences of calls -/

theorem run_jobs (cs : List Bool) (s : SimObject) : (run setSimObjectOnoff s cs).jobs = s.jobs := by
  induction cs generalizing s with
  | nil => rfl
  | cons c rest ih =>
    refine (ih (setSimObjectOnoff s c)).trans ?_
    cases c with
    | true => exact (on_spec s).1
    | false => exact (off_spec s).1

/-- **A group of off calls**: the jobs are disabled, and what is saved is the flag from before the last call. -/
theorem offs_spec (s : SimObject) (k : Nat) {j : JobId} (hj : j ∈ s.jobs) :
    (run setSimObjectOnoff s (List.replicate (k + 1) false)).disabled j = true ∧
      (run setSimObjectOnoff s (List.replicate (k + 1) false)).savedJobStates j =
        some (if k = 0 then s.disabled j else true) := by
  induction k with
  | zero => exact (off_spec s).2 j hj
  | succ k ih =>
    have hj' : j ∈ (run setSimObjectOnoff s (List.replicate (k + 1) false)).jobs := by rwa [run_jobs]
    obtain ⟨hdisabled, hsaved⟩ := (off_spec _).2 j hj'
    rw [List.replicate_succ', run_append]
    refine ⟨hdisabled, hsaved.trans ?_⟩
    rw [ih.1, if_neg (Nat.succ_ne_zero k)]

/-! ## Result -/

/-- **A group of off calls and the on call behind it**, after any calls: every off call disables every job, and
    the on call gives all of them back the flags from before the group, if and only if the group is one call or
    all jobs were disabled before it. -/
theorem on_restores (jobs : List JobId) (nodup : jobs.Nodup) (disabled : JobId → Bool) (before : List Bool) (k : Nat) :
    (∀ j ∈ jobs, (run setSimObjectOnoff (create jobs nodup disabled)
      (before ++ List.replicate (k + 1) false)).disabled j = true) ∧
    ((∀ j ∈ jobs, (run setSimObjectOnoff (create jobs nodup disabled)
      (before ++ List.replicate (k + 1) false ++ [true])).disabled j =
        (run setSimObjectOnoff (create jobs nodup disabled) before).disabled j) ↔
      k = 0 ∨ ∀ j ∈ jobs, (run setSimObjectOnoff (create jobs nodup disabled) before).disabled j = true) := by
  have hjobs : (run setSimObjectOnoff (create jobs nodup disabled) before).jobs = jobs := run_jobs before _
  rw [run_append setSimObjectOnoff _ (before ++ List.replicate (k + 1) false), run_append setSimObjectOnoff _ before]
  generalize run setSimObjectOnoff (create jobs nodup disabled) before = s at hjobs ⊢
  subst hjobs
  refine ⟨fun j hj => (offs_spec s k hj).1, ?_⟩
  have hon : ∀ j ∈ s.jobs, (run setSimObjectOnoff (run setSimObjectOnoff s (List.replicate (k + 1) false)) [true]).disabled j =
      if k = 0 then s.disabled j else true := by
    intro j hj
    refine ((on_spec _).2.2 j (by rwa [run_jobs])).trans ?_
    rw [(offs_spec s k hj).2]
    rfl
  constructor
  · intro h
    by_cases hk : k = 0
    · exact Or.inl hk
    · refine Or.inr fun j hj => ?_
      rw [← h j hj, hon j hj, if_neg hk]
  · intro h j hj
    rw [hon j hj]
    rcases h with hk | hall
    · rw [if_pos hk]
    · rw [hall j hj]
      split <;> rfl

theorem on_restores_twoJobs :
    (∀ j ∈ [4, 5], (run setSimObjectOnoff (create [4, 5] (by decide) fun j => j = 5)
      ([false, true] ++ List.replicate 1 false)).disabled j = true) ∧
    ((∀ j ∈ [4, 5], (run setSimObjectOnoff (create [4, 5] (by decide) fun j => j = 5)
      ([false, true] ++ List.replicate 1 false ++ [true])).disabled j =
        (run setSimObjectOnoff (create [4, 5] (by decide) fun j => j = 5) [false, true]).disabled j) ↔
      0 = 0 ∨ ∀ j ∈ [4, 5], (run setSimObjectOnoff (create [4, 5] (by decide) fun j => j = 5) [false, true]).disabled j = true) :=
  on_restores [4, 5] (by decide) (fun j => j = 5) [false, true] 0

/-- **Not always**: off, off and on leaves a job disabled that was enabled. -/
theorem not_on_restores :
    ¬ ∀ (jobs : List JobId) (nodup : jobs.Nodup) (disabled : JobId → Bool) (k : Nat), ∀ j ∈ jobs,
      (run setSimObjectOnoff (create jobs nodup disabled) (List.replicate (k + 1) false ++ [true])).disabled j = disabled j := by
  intro h
  have hlost := h [4] (by decide) (fun _ => false) 1 4 (by decide)
  exact absurd hlost (by decide)

end OnOff

end Trick.Exec
