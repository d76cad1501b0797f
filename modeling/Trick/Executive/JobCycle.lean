/-
  A cycle that is changed while the simulation runs.

  `set_job_cycle` gives a job a new cycle and a new call time: a job that has come up in this pass is due
  now, and one that has not is moved to the next multiple of the new cycle.

  1. **Program.**  `trySetJobCycle` is `setJobCycle` with the codes it returns, and with the remainder by
     zero, which ends the program: a cycle below half a tic rounds to no tic at all.

  2. **Specification.**  `Retimed`: the new call time, and the calls that follow from it (`callTics`), one
     cycle apart and within the start and the stop of the job.

  3. **Result.**  `set_job_cycle_retimes`: every job is retimed if and only if the new cycle is at least one
     tic and there is a tic to move it to (`Allows`); neither start nor stop is looked at.
-/
import Trick.Executive.NoStrandedJob

namespace Trick.Exec

open Trick.Lib

/-! ## Program -/

/-- What `set_job_cycle` comes to. -/
inductive SetCycleResult where
  | refused (code : Int)
  /-- `time_tics % cycle_tics` with no tics in the cycle. -/
  | divisionByZero
  | done (s : Executive)

namespace Executive

/-- One job, or nothing when the remainder is by zero. -/
def retimeJob? (cycle : ℚ) (s : Executive) (j : JobId) : Option Executive :=
  if (s.jobs j).nextTics > s.timeTics ∧ roundTics s.timeTicValue cycle = 0 then none
  else some (s.retimeJob cycle j)

/-- `set_job_cycle` for the jobs that the name or the tag stands for. -/
def trySetJobCycle (s : Executive) (js : List JobId) (inCycle : ℚ) : SetCycleResult :=
  if inCycle < 0 then .refused (-1)
  else if js = [] then .refused (-2)
  else
    match js.foldlM (retimeJob? inCycle) s with
    | none => .divisionByZero
    | some s' => .done s'

end Executive

/-! ## Specification -/

/-- **The calls of a job** at the tics it asks for, up to a number of them. -/
def callTics : Nat → JobData → List Int
  | 0, _ => []
  | n + 1, j => if j.nextTics = maxLongLong then [] else j.nextTics :: callTics n j.reschedule

/-- **A job with a new cycle**, `j'` in place of `j`, at the tic `t`. -/
structure Retimed (t : Int) (j j' : JobData) : Prop where
  due : j.nextTics ≤ t → j'.nextTics = t
  later : t < j.nextTics →
    j'.cycleTics ∣ j'.nextTics ∧ t < j'.nextTics ∧ j'.nextTics ≤ t + j'.cycleTics ∧
      j'.startTics ≤ j'.nextTics ∧ j'.nextTics ≤ j'.stopTics
  /-- The calls are one cycle apart, and within start and stop. -/
  calls : ∀ (n i : Nat) (tic : Int), (callTics n j')[i]? = some tic →
    tic = j'.nextTics + i * j'.cycleTics ∧ j'.startTics ≤ tic ∧ tic ≤ j'.stopTics
  increasing : ∀ n, (callTics n j').Pairwise (· < ·)

/-- **There is a tic for the job**: now if it has come up, and otherwise the multiple of the cycle `c` behind `t`
    that is within its start and stop. -/
def Allows (t c : Int) (j : JobData) : Prop :=
  1 ≤ c ∧ ∃ n, j.startTics ≤ n ∧ n ≤ j.stopTics ∧
    ((j.nextTics ≤ t ∧ n = t) ∨ (t < j.nextTics ∧ c ∣ n ∧ t < n ∧ n ≤ t + c))

/-! ## The next multiple -/

theorem nextMultiple {t c : Int} (ht : 0 ≤ t) (hc : 1 ≤ c) :
    c ∣ t - Int.tmod t c + c ∧ t < t - Int.tmod t c + c ∧ t - Int.tmod t c + c ≤ t + c := by
  have hlt : Int.tmod t c < c := Int.tmod_lt_of_pos t (by omega)
  have hnonneg : 0 ≤ Int.tmod t c := Int.tmod_nonneg c ht
  refine ⟨Int.dvd_add ?_ (Int.dvd_refl c), by omega, by omega⟩
  exact Int.dvd_self_sub_tmod

/-- There is one multiple only within one cycle. -/
theorem multiple_unique {t c m n : Int} (hm : c ∣ m) (hn : c ∣ n) (hm₀ : t < m) (hm₁ : m ≤ t + c) (hn₀ : t < n)
    (hn₁ : n ≤ t + c) : m = n := by
  have hdvd : c ∣ m - n := Int.dvd_sub hm hn
  have hzero : m - n = 0 := Int.eq_zero_of_abs_lt_dvd hdvd (abs_lt.mpr ⟨by omega, by omega⟩)
  omega

/-! ## The calls that follow -/

/-- From a call time within start and stop on, the calls are one cycle apart. -/
theorem callTics_spec {j : JobData} (hc : 1 ≤ j.cycleTics)
    (hnext : j.nextTics = maxLongLong ∨ j.startTics ≤ j.nextTics ∧ j.nextTics ≤ j.stopTics) (n : Nat) :
    (∀ (i : Nat) (tic : Int), (callTics n j)[i]? = some tic →
      tic = j.nextTics + i * j.cycleTics ∧ j.startTics ≤ tic ∧ tic ≤ j.stopTics) ∧
      (callTics n j).Pairwise (· < ·) := by
  induction n generalizing j with
  | zero =>
    refine ⟨fun i tic h => ?_, List.Pairwise.nil⟩
    cases h
  | succ n ih =>
    unfold callTics
    by_cases hnever : j.nextTics = maxLongLong
    · rw [if_pos hnever]
      refine ⟨fun i tic h => ?_, List.Pairwise.nil⟩
      cases h
    · rw [if_neg hnever]
      have hin := hnext.resolve_left hnever
      -- the job as it is after its call
      have hafter : j.reschedule.nextTics = maxLongLong ∨
          j.reschedule.nextTics = j.nextTics + j.cycleTics ∧ j.reschedule.nextTics ≤ j.stopTics := by
        unfold JobData.reschedule
        simp only
        split
        · exact Or.inl rfl
        · exact Or.inr ⟨rfl, by omega⟩
      have hwithin : j.reschedule.nextTics = maxLongLong ∨
          j.reschedule.startTics ≤ j.reschedule.nextTics ∧ j.reschedule.nextTics ≤ j.reschedule.stopTics := by
        refine hafter.imp_right fun ⟨heq, hle⟩ => ⟨?_, hle⟩
        rw [heq]
        show j.startTics ≤ _
        omega
      obtain ⟨hcalls, hincreasing⟩ := ih (j := j.reschedule) hc hwithin
      have hlater : ∀ (i : Nat) (tic : Int), (callTics n j.reschedule)[i]? = some tic →
          tic = j.nextTics + (i + 1) * j.cycleTics ∧ j.startTics ≤ tic ∧ tic ≤ j.stopTics := by
        intro i tic h
        obtain ⟨heq, hstart, hstop⟩ := hcalls i tic h
        refine ⟨?_, hstart, hstop⟩
        rcases hafter with hmax | ⟨hmove, -⟩
        · -- there is no call any more
          exfalso
          cases n with
          | zero => cases h
          | succ n =>
            unfold callTics at h
            rw [if_pos hmax] at h
            cases h
        · rw [heq, hmove]
          show _ + (i : Int) * j.cycleTics = _
          ring
      refine ⟨?_, List.pairwise_cons.mpr ⟨?_, hincreasing⟩⟩
      · intro i tic h
        cases i with
        | zero =>
          obtain rfl : j.nextTics = tic := Option.some.inj h
          exact ⟨by simp, hin⟩
        | succ i =>
          obtain ⟨heq, hle⟩ := hlater i tic h
          refine ⟨?_, hle⟩
          rw [heq]
          push_cast
          rfl
      · intro tic hmem
        obtain ⟨i, hi⟩ := List.mem_iff_getElem?.mp hmem
        obtain ⟨heq, -⟩ := hlater i tic hi
        have hpos : 0 ≤ (i : Int) * j.cycleTics := Int.mul_nonneg (by omega) (by omega)
        have hsum : ((i : Int) + 1) * j.cycleTics = i * j.cycleTics + j.cycleTics := by ring
        omega

/-! ## One job -/

/-- The job with the new cycle, if the remainder is not by zero. -/
theorem retimed_iff {t v : Int} {cycle : ℚ} {j : JobData} (ht : 0 ≤ t) (hmax : t < maxLongLong)
    (hdefined : ¬ (j.nextTics > t ∧ roundTics v cycle = 0)) :
    Retimed t j ((j.setCycle v cycle).setNextCallTime t) ↔ Allows t (roundTics v cycle) j := by
  have hcycle : ((j.setCycle v cycle).setNextCallTime t).cycleTics = roundTics v cycle := rfl
  have hstart : ((j.setCycle v cycle).setNextCallTime t).startTics = j.startTics := rfl
  have hstop : ((j.setCycle v cycle).setNextCallTime t).stopTics = j.stopTics := rfl
  have hnext : ((j.setCycle v cycle).setNextCallTime t).nextTics =
      if j.nextTics > t then t - Int.tmod t (roundTics v cycle) + roundTics v cycle else t := rfl
  generalize hc : roundTics v cycle = c at hcycle hnext hdefined ⊢
  generalize (j.setCycle v cycle).setNextCallTime t = j' at hcycle hstart hstop hnext ⊢
  constructor
  · intro h
    by_cases hdue : j.nextTics ≤ t
    · have hnow := h.due hdue
      -- the first two calls
      have hne : j'.nextTics ≠ maxLongLong := by omega
      have hfirst : (callTics 2 j')[0]? = some t := by
        unfold callTics
        rw [if_neg hne, hnow]
        rfl
      obtain ⟨-, hs, he⟩ := h.calls 2 0 t hfirst
      refine ⟨?_, t, by omega, by omega, Or.inl ⟨hdue, rfl⟩⟩
      by_contra hsmall
      have hsecond : callTics 2 j' = [t, t + c] := by
        have hmove : j'.reschedule.nextTics = t + c := by
          unfold JobData.reschedule
          simp only
          rw [if_neg (by omega), hnow, hcycle]
        have hne' : j'.reschedule.nextTics ≠ maxLongLong := by omega
        unfold callTics
        rw [if_neg hne, hnow]
        unfold callTics
        rw [if_neg hne', hmove]
        rfl
      have hlt := h.increasing 2
      rw [hsecond] at hlt
      have hlt' : t < t + c := (List.pairwise_cons.mp hlt).1 _ (List.mem_singleton_self _)
      omega
    · obtain ⟨hdvd, hgt, hle, hs, he⟩ := h.later (by omega)
      rw [hcycle] at hdvd hle
      exact ⟨by omega, j'.nextTics, by omega, by omega, Or.inr ⟨by omega, hdvd, hgt, hle⟩⟩
  · rintro ⟨hpos, n, hs, he, hcases⟩
    have hn : j'.nextTics = n := by
      rcases hcases with ⟨hdue, rfl⟩ | ⟨hlater, hdvd, hgt, hle⟩
      · rw [hnext, if_neg (by omega)]
      · obtain ⟨hdvd', hgt', hle'⟩ := nextMultiple ht hpos
        rw [hnext, if_pos hlater]
        exact multiple_unique hdvd' hdvd hgt' hle' hgt hle
    have hcalls := callTics_spec (j := j') (by omega) (Or.inr ⟨by omega, by omega⟩)
    refine ⟨?_, ?_, fun k i tic => (hcalls k).1 i tic, fun k => (hcalls k).2⟩
    · intro hdue
      rcases hcases with ⟨-, rfl⟩ | ⟨hlater, -⟩
      · exact hn
      · omega
    · intro hlater
      rcases hcases with ⟨hdue, -⟩ | ⟨-, hdvd, hgt, hle⟩
      · omega
      · rw [hn, hcycle]
        exact ⟨hdvd, hgt, hle, by omega, by omega⟩

/-! ## All jobs of a name or a tag -/

namespace Executive

theorem retimeJob_self (cycle : ℚ) (s : Executive) (j : JobId) :
    (s.retimeJob cycle j).jobs j = ((s.jobs j).setCycle s.timeTicValue cycle).setNextCallTime s.timeTics :=
  Function.update_self ..

theorem retimeJob_of_ne (cycle : ℚ) (s : Executive) {i j : JobId} (h : i ≠ j) :
    (s.retimeJob cycle j).jobs i = s.jobs i :=
  Function.update_of_ne h _ _

/-- A job for which the remainder is not by zero. -/
def Defined (cycle : ℚ) (s : Executive) (j : JobId) : Prop :=
  ¬ ((s.jobs j).nextTics > s.timeTics ∧ roundTics s.timeTicValue cycle = 0)

/-- **The loop over the jobs.** -/
theorem foldlM_retimeJob {cycle : ℚ} {s : Executive} {js : List JobId} (hnodup : js.Nodup) :
    ((∃ j ∈ js, ¬ Defined cycle s j) ∧ js.foldlM (retimeJob? cycle) s = none) ∨
      (∀ j ∈ js, Defined cycle s j) ∧ ∃ s', js.foldlM (retimeJob? cycle) s = some s' ∧
        s' = js.foldl (retimeJob cycle) s ∧
        (∀ j ∈ js, s'.jobs j = ((s.jobs j).setCycle s.timeTicValue cycle).setNextCallTime s.timeTics) ∧
        ∀ j ∉ js, s'.jobs j = s.jobs j := by
  induction js generalizing s with
  | nil => exact Or.inr ⟨fun j hj => (nomatch hj), s, rfl, rfl, fun j hj => (nomatch hj), fun _ _ => rfl⟩
  | cons k rest ih =>
    obtain ⟨hnot, hnodup⟩ := List.nodup_cons.mp hnodup
    by_cases hk : Defined cycle s k
    · have hone : retimeJob? cycle s k = some (s.retimeJob cycle k) := if_neg hk
      have hsame : ∀ j ∈ rest, (Defined cycle (s.retimeJob cycle k) j ↔ Defined cycle s j) := by
        intro j hj
        have hne : j ≠ k := fun heq => hnot (heq ▸ hj)
        unfold Defined
        rw [retimeJob_of_ne cycle s hne]
        rfl
      rw [List.foldlM_cons, hone]
      show _ ∨ _ ∧ ∃ s', rest.foldlM (retimeJob? cycle) (s.retimeJob cycle k) = some s' ∧ _
      rcases ih (s := s.retimeJob cycle k) hnodup with ⟨⟨j, hj, hbad⟩, hnone⟩ | ⟨hall, s', hsome, hfold, hset, hkeep⟩
      · exact Or.inl ⟨⟨j, List.mem_cons_of_mem _ hj, fun h => hbad ((hsame j hj).mpr h)⟩, hnone⟩
      · refine Or.inr ⟨?_, s', hsome, hfold, ?_, ?_⟩
        · intro j hj
          rcases List.mem_cons.mp hj with rfl | hj
          · exact hk
          · exact (hsame j hj).mp (hall j hj)
        · intro j hj
          rcases List.mem_cons.mp hj with rfl | hj
          · rw [hkeep j hnot, retimeJob_self]
          · have hne : j ≠ k := fun heq => hnot (heq ▸ hj)
            rw [hset j hj, retimeJob_of_ne cycle s hne]
            rfl
        · intro j hj
          rw [List.mem_cons, not_or] at hj
          rw [hkeep j hj.2, retimeJob_of_ne cycle s hj.1]
    · have hone : retimeJob? cycle s k = none := if_pos (not_not.mp hk)
      refine Or.inl ⟨⟨k, List.mem_cons_self, hk⟩, ?_⟩
      rw [List.foldlM_cons, hone]
      rfl

/-- What is done is what `setJobCycle` does. -/
theorem trySetJobCycle_done {s s' : Executive} {js : List JobId} {inCycle : ℚ} (hnodup : js.Nodup)
    (h : s.trySetJobCycle js inCycle = .done s') : s' = s.setJobCycle js inCycle := by
  unfold trySetJobCycle at h
  unfold setJobCycle
  by_cases hneg : inCycle < 0
  · rw [if_pos hneg] at h
    cases h
  · rw [if_neg hneg] at h ⊢
    by_cases hnil : js = []
    · rw [if_pos hnil] at h
      cases h
    · rw [if_neg hnil] at h
      rcases @foldlM_retimeJob inCycle s _ hnodup with ⟨-, hnone⟩ | ⟨-, s'', hsome, hfold, -⟩
      · rw [hnone] at h
        cases h
      · rw [hsome] at h
        obtain rfl := SetCycleResult.done.inj h
        exact hfold

/-! ## Result -/

/-- **A cycle that is not refused**: the program goes on and every job is retimed, if and only if the cycle allows
    it for every job. -/
theorem set_job_cycle_retimes {s : Executive} {js : List JobId} {inCycle : ℚ} (htime : 0 ≤ s.timeTics)
    (hmax : s.timeTics < maxLongLong) (hnodup : js.Nodup) (hcycle : 0 ≤ inCycle) (hfound : js ≠ []) :
    (∃ s', s.trySetJobCycle js inCycle = .done s' ∧ ∀ j ∈ js, Retimed s.timeTics (s.jobs j) (s'.jobs j)) ↔
      ∀ j ∈ js, Allows s.timeTics (roundTics s.timeTicValue inCycle) (s.jobs j) := by
  have hrun : s.trySetJobCycle js inCycle = match js.foldlM (retimeJob? inCycle) s with
      | none => .divisionByZero
      | some s' => .done s' := by
    unfold trySetJobCycle
    rw [if_neg (not_lt.mpr hcycle), if_neg hfound]
  rw [hrun]
  rcases @foldlM_retimeJob inCycle s _ hnodup with ⟨⟨j, hj, hbad⟩, hnone⟩ | ⟨hall, s', hsome, -, hset, -⟩
  · rw [hnone]
    constructor
    · rintro ⟨s', hdone, -⟩
      cases hdone
    · intro h
      obtain ⟨hlater, hzero⟩ := not_not.mp hbad
      have hpos := (h j hj).1
      omega
  · rw [hsome]
    constructor
    · rintro ⟨s'', hdone, hretimed⟩ j hj
      obtain rfl := SetCycleResult.done.inj hdone
      have hj' := hretimed j hj
      rw [hset j hj] at hj'
      exact (retimed_iff htime hmax (hall j hj)).mp hj'
    · intro h
      refine ⟨s', rfl, fun j hj => ?_⟩
      rw [hset j hj]
      exact (retimed_iff htime hmax (hall j hj)).mpr (h j hj)

/-- A simulation with one tic per second and one job, every five tics from the tic `start_` on, at its first tic. -/
def firstTic (start_ : ℚ) (steps : Nat) : Executive :=
  run step (start 1 10 20 [.mk [{ jobClassName := .scheduled, id := 1, cycle := 5, start := start_ }] [] []])
    (List.replicate steps idle)

/-- The job has been called, and its cycle is set to two tics. -/
theorem set_job_cycle_retimes_twoTics :
    (∃ s', (firstTic 0 7).trySetJobCycle [4] 2 = .done s' ∧
      ∀ j ∈ [4], Retimed (firstTic 0 7).timeTics ((firstTic 0 7).jobs j) (s'.jobs j)) ↔
      ∀ j ∈ [4], Allows (firstTic 0 7).timeTics (roundTics (firstTic 0 7).timeTicValue 2) ((firstTic 0 7).jobs j) :=
  set_job_cycle_retimes (by decide +kernel) (by decide +kernel) (by decide) (by norm_num) (by decide)

/-- **Not always**: a cycle of a quarter of a tic for a job that has been called divides by zero, and a job that is
    to start at tic 8 is moved to tic 2. -/
theorem not_set_job_cycle_retimes :
    (¬ ∃ s', (firstTic 0 7).trySetJobCycle [4] (1 / 4) = .done s' ∧
      ∀ j ∈ [4], Retimed (firstTic 0 7).timeTics ((firstTic 0 7).jobs j) (s'.jobs j)) ∧
    ¬ ∃ s', (firstTic 8 3).trySetJobCycle [4] 2 = .done s' ∧
      ∀ j ∈ [4], Retimed (firstTic 8 3).timeTics ((firstTic 8 3).jobs j) (s'.jobs j) := by
  have hfirst : (firstTic 0 7).timeTics = 0 ∧ (firstTic 0 7).timeTicValue = 1 ∧ ((firstTic 0 7).jobs 4).nextTics = 5 := by
    decide +kernel
  have hlater : (firstTic 8 3).timeTics = 0 ∧ (firstTic 8 3).timeTicValue = 1 ∧ ((firstTic 8 3).jobs 4).nextTics = 8 ∧
      ((firstTic 8 3).jobs 4).startTics = 8 := by decide +kernel
  refine ⟨?_, ?_⟩
  · rintro ⟨s', hdone, -⟩
    have hround : roundTics 1 (1 / 4) = 0 := by
      unfold roundTics
      norm_num
    have hzero : (firstTic 0 7).trySetJobCycle [4] (1 / 4) = .divisionByZero := by
      have hone : retimeJob? (1 / 4) (firstTic 0 7) 4 = none := if_pos (by rw [hfirst.1, hfirst.2.1, hfirst.2.2, hround]; decide)
      unfold trySetJobCycle
      rw [if_neg (by norm_num), if_neg (by decide), List.foldlM_cons, hone]
      rfl
    rw [hzero] at hdone
    cases hdone
  · rintro ⟨s', hdone, hretimed⟩
    have hround : roundTics 1 2 = 2 := by
      unfold roundTics
      norm_num
    have hset := trySetJobCycle_done (by decide) hdone
    have hjob : s'.jobs 4 = (((firstTic 8 3).jobs 4).setCycle 1 2).setNextCallTime 0 := by
      rw [hset, setJobCycle, if_neg (by norm_num), ← hlater.1, ← hlater.2.1]
      exact retimeJob_self ..
    obtain ⟨-, -, -, hstart, -⟩ := (hretimed 4 (by decide)).later (by rw [hlater.1, hlater.2.2.1]; decide)
    have hnext : (s'.jobs 4).nextTics = 2 := by
      rw [hjob]
      show (if ((firstTic 8 3).jobs 4).nextTics > 0 then 0 - Int.tmod 0 (roundTics 1 2) + roundTics 1 2 else 0) = 2
      rw [hlater.2.2.1, hround]
      decide
    have hstart' : (s'.jobs 4).startTics = 8 := by
      rw [hjob]
      exact hlater.2.2.2
    omega

end Executive

end Trick.Exec
