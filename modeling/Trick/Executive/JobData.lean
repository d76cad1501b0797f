/-
  The jobs that the executive schedules.

  `JobData` keeps the fields of the source's class that the scheduler reads: the four sort keys of
  `compare_job_data`, the tics, the two flags, and the start/stop/cycle times in seconds from which
  `Executive::add_jobs_to_queue` computes the tics.  Tics are `Int`: the source's `long long` sums
  are undefined when they overflow, so no run that the model describes does.  Seconds are
  rationals in place of doubles; the two conversions of the source (a cast, which cuts off the
  fraction, and `round`) are `toTics` and `roundTics`.

  A job pointer is a `JobId`, and the store of jobs is a function from ids: two queues that hold
  one job see one `next_tics`.
-/
import Trick.Lib.UpperBound

namespace Trick.Exec

/-! ## Times -/

/-- `TRICK_MAX_LONG_LONG`, the tic that is never reached. -/
def maxLongLong : Int := 2 ^ 63 - 1

/-- `(long long)(seconds * time_tic_value)`: the fraction of a tic is cut off. -/
def toTics (timeTicValue : Int) (seconds : ℚ) : Int :=
  if 0 ≤ seconds * timeTicValue then ⌊seconds * timeTicValue⌋ else -⌊-(seconds * timeTicValue)⌋

/-- `(long long)round(seconds * time_tic_value)`: half a tic is rounded away from zero. -/
def roundTics (timeTicValue : Int) (seconds : ℚ) : Int :=
  if 0 ≤ seconds * timeTicValue then ⌊seconds * timeTicValue + 1 / 2⌋
  else -⌊-(seconds * timeTicValue) + 1 / 2⌋

theorem roundTics_zero (v : Int) : roundTics v 0 = 0 := by
  unfold roundTics
  simp only [zero_mul, le_refl, if_true, zero_add]
  norm_num

theorem toTics_nonneg {v : Int} {q : ℚ} (hv : 0 ≤ v) (hq : 0 ≤ q) : 0 ≤ toTics v q := by
  have h : (0 : ℚ) ≤ q * v := mul_nonneg hq (by exact_mod_cast hv)
  unfold toTics
  rw [if_pos h]
  exact Int.floor_nonneg.mpr h

/-! ## Job classes -/

/-- The job classes that reach a queue of the run loop: four with queues of their own, then the
    scheduled classes in the order in which the S_define parser registers them. -/
inductive JobClassName where
  | inputProcessorRun | systemThreadSync | topOfFrame | endOfFrame
  | automatic | random | environment | sensor | sensorEmitter | sensorReflector | sensorReceiver
  | scheduled | effector | effectorEmitter | effectorReceiver | automaticLast | logging
  | dataRecord | systemCheckpoint | systemAdvanceSimTime | systemModing | integLoop
deriving DecidableEq, Repr

/-- `scheduled_start_index`: class ids from here on go to a scheduled queue. -/
def scheduledStartIndex : Int := 1000

/-- `class_map` as the constructor of the executive and the default S_define order fill it. -/
def defaultClassMap : JobClassName → Option Int
  | .inputProcessorRun => some 3
  | .systemThreadSync => some 4
  | .topOfFrame => some 5
  | .endOfFrame => some 6
  | .automatic => some 1000
  | .random => some 1001
  | .environment => some 1002
  | .sensor => some 1003
  | .sensorEmitter => some 1004
  | .sensorReflector => some 1005
  | .sensorReceiver => some 1006
  | .scheduled => some 1007
  | .effector => some 1008
  | .effectorEmitter => some 1009
  | .effectorReceiver => some 1010
  | .automaticLast => some 1011
  | .logging => some 1012
  | .dataRecord => some 1013
  | .systemCheckpoint => some 1014
  | .systemAdvanceSimTime => some 1015
  | .systemModing => some 1016
  | .integLoop => some 1017

/-- The classes named `system_*`, `automatic*` and `input_processor_run`: their jobs reschedule
    themselves. -/
def JobClassName.isSystemJobClass : JobClassName → Bool
  | .inputProcessorRun | .systemThreadSync | .automatic | .automaticLast | .systemCheckpoint
  | .systemAdvanceSimTime | .systemModing => true
  | _ => false

/-! ## Jobs -/

/-- What the call of a job runs: code of the user's model, or one of the executive's own jobs. -/
inductive JobCode where
  | user
  | advanceSimTime
  | schedFreezeToExecCommand (endOfFrame : Bool)
  | asyncFreezeToExecCommand
deriving DecidableEq, Repr

/-- A job, as the scheduler sees it. -/
structure JobData where
  code : JobCode := .user
  jobClassName : JobClassName := .scheduled
  /-- Class id, assigned by `add_job_to_queue`. -/
  jobClass : Int := -1
  phase : Nat := 60000
  simObjectId : Int := -1
  id : Int := 0
  /-- Thread number of the S_define file, 0 for the main thread. -/
  thread : Nat := 0
  disabled : Bool := false
  systemJobClass : Bool := false
  /-- Seconds. -/
  cycle : ℚ := 0
  start : ℚ := 0
  stop : ℚ := 10 ^ 37
  cycleTics : Int := 0
  startTics : Int := 0
  stopTics : Int := 0
  nextTics : Int := 0

/-- A job pointer. -/
abbrev JobId := Nat

/-- The jobs behind the pointers. -/
abbrev JobHeap := JobId → JobData

/-- The sort key of the scheduler queues. -/
abbrev SortKey := Int ×ₗ Nat ×ₗ Int ×ₗ Int

/-- Job class, then phase, then sim object id, then job id. -/
def JobData.sortKey (a : JobData) : SortKey :=
  toLex (a.jobClass, toLex (a.phase, toLex (a.simObjectId, a.id)))

/-- `compare_job_data` -/
def compareJobData (a b : JobData) : Bool :=
  if a.jobClass < b.jobClass then true
  else if a.jobClass > b.jobClass then false
  else if a.phase < b.phase then true
  else if a.phase > b.phase then false
  else if a.simObjectId < b.simObjectId then true
  else if a.simObjectId > b.simObjectId then false
  else decide (a.id < b.id)

/-- **`compare_job_data` is the strict order of the sort keys.** -/
theorem compareJobData_iff (a b : JobData) :
    compareJobData a b = true ↔ a.sortKey < b.sortKey := by
  unfold compareJobData JobData.sortKey
  simp only [Prod.Lex.toLex_lt_toLex]
  split_ifs <;> simp <;> omega

/-! ## The operations of a job on its own times -/

/-- `calc_cycle_tics` -/
def JobData.calcCycleTics (timeTicValue : Int) (j : JobData) : JobData :=
  { j with cycleTics := roundTics timeTicValue j.cycle }

/-- `set_cycle` -/
def JobData.setCycle (timeTicValue : Int) (inCycle : ℚ) (j : JobData) : JobData :=
  JobData.calcCycleTics timeTicValue { j with cycle := inCycle }

/-- `set_next_call_time`: a job that is due later is moved to the next multiple of its cycle. -/
def JobData.setNextCallTime (timeTics : Int) (j : JobData) : JobData :=
  { j with nextTics :=
      if j.nextTics > timeTics then timeTics - Int.tmod timeTics j.cycleTics + j.cycleTics
      else timeTics }

/-- The rescheduling in `find_next_job`: one cycle later, or never again once that is past the
    stop time. -/
def JobData.reschedule (j : JobData) : JobData :=
  { j with nextTics :=
      if j.nextTics + j.cycleTics > j.stopTics then maxLongLong else j.nextTics + j.cycleTics }

/-- A job moved by `set_next_call_time` is not due before the current tic. -/
theorem JobData.setNextCallTime_ge {t : Int} {j : JobData} (hc : 1 ≤ j.cycleTics) :
    t ≤ (j.setNextCallTime t).nextTics := by
  have h : Int.tmod t j.cycleTics < j.cycleTics := Int.tmod_lt_of_pos t (by omega)
  unfold setNextCallTime
  simp only
  split <;> omega

/-- A job that was due later is still due later. -/
theorem JobData.setNextCallTime_gt {t : Int} {j : JobData} (hc : 1 ≤ j.cycleTics)
    (hn : t < j.nextTics) : t < (j.setNextCallTime t).nextTics := by
  have h : Int.tmod t j.cycleTics < j.cycleTics := Int.tmod_lt_of_pos t (by omega)
  unfold setNextCallTime
  simp only
  rw [if_pos hn]
  omega

/-- A job that is not due later is due now. -/
theorem JobData.setNextCallTime_of_le {t : Int} {j : JobData} (hn : j.nextTics ≤ t) :
    (j.setNextCallTime t).nextTics = t := by
  unfold setNextCallTime
  simp only
  rw [if_neg (by omega)]

end Trick.Exec
