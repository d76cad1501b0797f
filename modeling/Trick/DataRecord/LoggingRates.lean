/-
  `DataRecordGroup`: the tics at which a group with several logging rates records.

  Every rate keeps the tic of its next cycle.  The record job reschedules itself: a call advances the rates
  that have been reached, and asks for the least of the next cycles.

  1. **Data.**  `LoggingCycle`, one rate; `State`, the group, its job, and where the scheduler is: in a pass it
     looks at the job once, calls it if it is due, and then the clock is advanced, at most to the next call
     time that the scheduler has from this look.

  2. **Program.**  `setRate`, `calculateNextLoggingTic`, `advanceLogTics`, `init`, `dataRecord`, and a step for
     each event (`step`).  `none` stands for a loop that does not end.

  3. **Specification.**  `CallsRight`: the calls are, in order and each once, the start tic and the later
     multiples of the rates.

  4. **Result.**  `calls_right_iff`: this holds in every run exactly if no multiple is jumped over by
     `set_rate` (`NoneJumped`), whose division rounds towards zero: a start tic before 0 is rounded up, and
     then the rate is added once more.
-/
import Trick.Executive.JobData
import Trick.Lib.Earliest
import Trick.Lib.Forall2
import Trick.Lib.Run

namespace Trick.LoggingRates

open Trick.Lib Trick.Exec

/-! ## Program -/

/-- `LoggingCycle` -/
structure LoggingCycle where
  rateInSeconds : ℚ
  rateInTics : Int
  nextCycleInTics : Int

/-- `set_rate`, at the tic `currTic`. -/
def setRate (timeTicValue currTic : Int) (rateIn : ℚ) : LoggingCycle :=
  let cycleTics := roundTics timeTicValue rateIn
  { rateInSeconds := rateIn
    rateInTics := cycleTics
    nextCycleInTics :=
      if currTic.tmod cycleTics ≠ 0 then currTic.tdiv cycleTics * cycleTics + cycleTics
      else currTic }

/-- `calculate_next_logging_tic` -/
def calculateNextLoggingTic (rates : List LoggingCycle) (minTic : Int) : Int :=
  earliest maxLongLong (rates.map fun r =>
    if r.nextCycleInTics = minTic then r.nextCycleInTics + r.rateInTics else r.nextCycleInTics)

/-- The `while` loop of `advance_log_tics_given_curr_tic` for one rate, if it ends within so many tests. -/
def LoggingCycle.advance (currTic : Int) : Nat → LoggingCycle → Option LoggingCycle
  | 0, _ => none
  | tests + 1, r =>
    if r.nextCycleInTics ≤ currTic then
      advance currTic tests { r with nextCycleInTics := r.nextCycleInTics + r.rateInTics }
    else some r

/-- `advance_log_tics_given_curr_tic`: every turn of a loop brings the rate a tic nearer, or it never ends. -/
def advanceLogTics (currTic : Int) (rates : List LoggingCycle) : Option (List LoggingCycle) :=
  rates.mapM fun r => r.advance currTic ((currTic + 1 - r.nextCycleInTics).toNat + 1)

/-- **The group** with its record job, and what the scheduler has of it. -/
structure State where
  timeTicValue : Int
  timeTics : Int
  loggingRates : List LoggingCycle
  /-- `write_job->next_tics` -/
  nextTics : Int
  /-- `write_job->cycle_tics` -/
  cycleTics : Int
  /-- `write_job->cycle` -/
  cycle : ℚ
  /-- The scheduler has looked at the job in this pass. -/
  looked : Bool := false
  /-- The next call time that the scheduler has from this look. -/
  nextJobTime : Int := maxLongLong
  /-- The tics at which the job has been called. -/
  calls : List Int := []

/-- `init`, at the start tic: the rates are set again, and the job is to be called at once. -/
def init (timeTicValue currTics : Int) (rates : List ℚ) : State :=
  let loggingRates := rates.map (setRate timeTicValue currTics)
  let cycleTics := calculateNextLoggingTic loggingRates currTics - currTics
  { timeTicValue := timeTicValue
    timeTics := currTics
    loggingRates := loggingRates
    nextTics := currTics
    cycleTics := cycleTics
    cycle := cycleTics / timeTicValue }

/-- `data_record`: what it does to the rates and to its job. -/
def dataRecord (s : State) (inTime : ℚ) : Option State :=
  let currTics := roundTics s.timeTicValue inTime
  (advanceLogTics currTics s.loggingRates).map fun rates =>
    let nextTics := calculateNextLoggingTic rates currTics
    { s with
      loggingRates := rates
      nextTics := nextTics
      cycleTics := nextTics - currTics
      cycle := ((nextTics - currTics : Int) : ℚ) / s.timeTicValue }

/-- The job is called with the time of the simulation. -/
def call (s : State) : Option State :=
  (dataRecord s (s.timeTics / s.timeTicValue)).map fun s' => { s' with calls := s.calls ++ [s.timeTics] }

/-- The scheduler comes to the job and calls it if it is due; then `test_next_job_call_time`. -/
def look (s : State) : Option State :=
  (if s.nextTics = s.timeTics then call s else some s).map fun s =>
    { s with
      looked := true
      nextJobTime := if s.nextTics > s.timeTics then s.nextTics else maxLongLong }

/-- The clock is advanced, and the next pass begins. -/
def advance (s : State) (timeTics : Int) : State :=
  { s with
    timeTics := timeTics
    looked := false }

inductive Event where
  | look
  | advance (timeTics : Int)
deriving DecidableEq

def step (s : Option State) : Event → Option State
  | .look => s.bind look
  | .advance timeTics => s.map (advance · timeTics)

/-! ## Specification -/

/-- What the scheduler does: it comes to the job once in a pass, and then advances the clock to a later tic,
    which is at most the next call time it has from this look. -/
def Scheduled (s : State) : Event → Prop
  | .look => s.looked = false
  | .advance timeTics =>
    s.looked = true ∧ s.timeTics < timeTics ∧ timeTics ≤ s.nextJobTime ∧ timeTics < maxLongLong

instance (s : State) : (e : Event) → Decidable (Scheduled s e)
  | .look => inferInstanceAs (Decidable (s.looked = false))
  | .advance timeTics =>
    inferInstanceAs (Decidable (s.looked = true ∧ s.timeTics < timeTics ∧ timeTics ≤ s.nextJobTime ∧
      timeTics < maxLongLong))

/-- A step of the scheduler, as long as every call has ended. -/
def Legal (s : Option State) (e : Event) : Prop := ∀ s' ∈ s, Scheduled s' e

instance (s : Option State) (e : Event) : Decidable (Legal s e) :=
  inferInstanceAs (Decidable (∀ s' ∈ s, Scheduled s' e))

/-- The first tic that the scheduler has not been through. -/
def State.bound (s : State) : Int := if s.looked = true then s.timeTics + 1 else s.timeTics

/-- **The tics that the rates ask for**: the start tic, and the later multiples of a rate. -/
def Requested (timeTicValue start : Int) (rates : List ℚ) (x : Int) : Prop :=
  x = start ∨ (start < x ∧ ∃ rate ∈ rates, roundTics timeTicValue rate ∣ x)

/-- **The calls as they should be**: every call has ended, and the job has been called at the requested tics that
    are passed, in increasing order and each once. -/
def CallsRight (timeTicValue start : Int) (rates : List ℚ) (s : Option State) : Prop :=
  ∃ s', s = some s' ∧ s'.calls.Pairwise (· < ·) ∧
    ∀ x, x ∈ s'.calls ↔ Requested timeTicValue start rates x ∧ x < s'.bound

/-- The multiple that `set_rate` comes to by its division. -/
def rounded (timeTicValue start : Int) (rate : ℚ) : Int :=
  start.tdiv (roundTics timeTicValue rate) * roundTics timeTicValue rate

/-- **No multiple is jumped over**: the start tic is not before 0, or it is a multiple of each rate, or another
    rate makes up for the multiple that this one jumps over. -/
def NoneJumped (timeTicValue start : Int) (rates : List ℚ) : Prop :=
  start < 0 → ∀ rate ∈ rates, roundTics timeTicValue rate ∣ start ∨
    ∃ other ∈ rates, roundTics timeTicValue other ∣ rounded timeTicValue start rate ∧
      (roundTics timeTicValue other ∣ start ∨
        rounded timeTicValue start other ≠ rounded timeTicValue start rate)

instance (timeTicValue start : Int) (rates : List ℚ) : Decidable (NoneJumped timeTicValue start rates) :=
  inferInstanceAs (Decidable (start < 0 → ∀ rate ∈ rates, _))

/-! ## Tics and rates -/

/-- The time of a tic is rounded to this tic. -/
theorem roundTics_time {v : Int} (hv : 0 < v) (t : Int) : roundTics v (t / v) = t := by
  have hv' : (v : ℚ) ≠ 0 := by exact_mod_cast hv.ne'
  have hfloor : ∀ n : Int, ⌊(n : ℚ) + 1 / 2⌋ = n := by
    intro n
    rw [Int.floor_intCast_add]
    norm_num
  unfold roundTics
  rw [div_mul_cancel₀ _ hv']
  split
  · exact hfloor t
  · have hneg := hfloor (-t)
    push_cast at hneg
    rw [hneg]
    omega

/-- A rate of a tic or more is a tic or more when it is rounded. -/
theorem one_le_roundTics {v : Int} {rate : ℚ} (h : 1 ≤ rate * v) : 1 ≤ roundTics v rate := by
  unfold roundTics
  rw [if_pos (le_trans zero_le_one h)]
  exact Int.le_floor.mpr (by push_cast; linarith)

/-- The tic that `set_rate` gives a rate at the start. -/
def firstCycle (timeTicValue start : Int) (rate : ℚ) : Int :=
  (setRate timeTicValue start rate).nextCycleInTics

section Rate

variable {v start : Int} {rate : ℚ}

/-- **What `set_rate` comes to**: a multiple of the rate from the start tic on, and the later multiples are all from
    there on except for the one that is jumped over. -/
theorem firstCycle_spec (hr : 1 ≤ roundTics v rate) :
    roundTics v rate ∣ firstCycle v start rate ∧ start ≤ firstCycle v start rate ∧
      ∀ x, roundTics v rate ∣ x → start < x →
        (firstCycle v start rate ≤ x ↔
          ¬ (start < 0 ∧ ¬ roundTics v rate ∣ start ∧ x = rounded v start rate)) := by
  unfold firstCycle setRate rounded
  simp only
  generalize roundTics v rate = r at hr ⊢
  have hparts := Int.mul_tdiv_add_tmod start r
  rw [Int.mul_comm] at hparts
  by_cases hdvd : r ∣ start
  · have hzero : start.tmod r = 0 := Int.tmod_eq_zero_of_dvd hdvd
    rw [if_neg (not_not.mpr hzero)]
    refine ⟨hdvd, le_refl _, fun x _ hlt => ⟨fun _ hjumped => hjumped.2.1 hdvd, fun _ => hlt.le⟩⟩
  · have hne : start.tmod r ≠ 0 := fun h => hdvd (Int.dvd_of_tmod_eq_zero h)
    rw [if_pos hne]
    have hlt := Int.tmod_lt_of_pos start (show 0 < r by omega)
    have hgt := Int.lt_tmod_of_pos start (show 0 < r by omega)
    refine ⟨⟨start.tdiv r + 1, by ring⟩, by omega, ?_⟩
    rintro x ⟨k, rfl⟩ hstart
    generalize start.tdiv r = q at hparts ⊢
    -- the multiples by their number
    have hnumber : q * r + r ≤ r * k ↔ q + 1 ≤ k := by
      have hmul : q * r + r = r * (q + 1) := by ring
      rw [hmul]
      exact mul_le_mul_iff_of_pos_left (by omega)
    have hsame : r * k = q * r ↔ k = q := by
      rw [Int.mul_comm q r]
      exact mul_right_inj' (by omega)
    have hatLeast : q ≤ k := by
      by_contra hless
      have hmul : r * k ≤ r * (q - 1) := Int.mul_le_mul_of_nonneg_left (by omega) (by omega)
      have hring : r * (q - 1) = q * r - r := by ring
      omega
    rw [hnumber, hsame]
    by_cases hneg : start < 0
    · simp only [hneg, hdvd, not_false_eq_true, true_and]
      omega
    · -- the remainder is positive, so that the number is greater
      have hpos : 0 ≤ start.tmod r := Int.tmod_nonneg r (by omega)
      have hgreater : k ≠ q := by
        rintro rfl
        rw [Int.mul_comm] at hstart
        omega
      simp only [hneg, false_and, not_false_eq_true, iff_true]
      omega

/-- The tics of a rate from a bound on. -/
def DueFrom (v start : Int) (rate : ℚ) (bound : Int) : Set Int :=
  {x | roundTics v rate ∣ x ∧ firstCycle v start rate ≤ x ∧ bound ≤ x}

/-- What a rate of the group is: the rate that was asked for, with its least tic from the bound on. -/
def CycleAt (v start bound : Int) (rate : ℚ) (r : LoggingCycle) : Prop :=
  r.rateInTics = roundTics v rate ∧ IsLeast (DueFrom v start rate bound) r.nextCycleInTics

theorem CycleAt.first (hr : 1 ≤ roundTics v rate) : CycleAt v start start rate (setRate v start rate) := by
  obtain ⟨hdvd, hle, -⟩ := @firstCycle_spec _ start _ hr
  exact ⟨rfl, ⟨hdvd, le_refl _, hle⟩, fun x hx => hx.2.1⟩

/-- The bound may go up to the tic. -/
theorem CycleAt.mono {bound bound' : Int} {r : LoggingCycle} (h : CycleAt v start bound rate r) (hle : bound ≤ bound')
    (hnext : bound' ≤ r.nextCycleInTics) : CycleAt v start bound' rate r :=
  ⟨h.1, ⟨h.2.1.1, h.2.1.2.1, hnext⟩, fun _ hx => h.2.2 ⟨hx.1, hx.2.1, le_trans hle hx.2.2⟩⟩

/-- **The loop for one rate ends** when the rate is at least a tic, at the least tic after the current one. -/
theorem CycleAt.advance (hr : 1 ≤ roundTics v rate) {t : Int} {r : LoggingCycle} (h : CycleAt v start t rate r) :
    ∃ r', r.advance t ((t + 1 - r.nextCycleInTics).toNat + 1) = some r' ∧ CycleAt v start (t + 1) rate r' := by
  have hle : t ≤ r.nextCycleInTics := h.2.1.2.2
  by_cases hnow : r.nextCycleInTics = t
  · -- two tests: the rate is due now, and after one turn it is later
    let r' : LoggingCycle := { r with nextCycleInTics := r.nextCycleInTics + r.rateInTics }
    have hrate := h.1
    have htests : (t + 1 - r.nextCycleInTics).toNat + 1 = 2 := by omega
    refine ⟨r', ?_, h.1, ⟨?_, ?_, ?_⟩, ?_⟩
    · rw [htests]
      show (if r.nextCycleInTics ≤ t then if r'.nextCycleInTics ≤ t then none else some r' else some r) = some r'
      have hlater : ¬ r'.nextCycleInTics ≤ t := by
        show ¬ r.nextCycleInTics + r.rateInTics ≤ t
        omega
      rw [if_pos hnow.le, if_neg hlater]
    · show roundTics v rate ∣ r.nextCycleInTics + r.rateInTics
      rw [hrate]
      exact Int.dvd_add h.2.1.1 (Int.dvd_refl _)
    · show firstCycle v start rate ≤ r.nextCycleInTics + r.rateInTics
      have hfirst := h.2.1.2.1
      omega
    · show t + 1 ≤ r.nextCycleInTics + r.rateInTics
      omega
    · rintro x ⟨hdvd, -, hx⟩
      show r.nextCycleInTics + r.rateInTics ≤ x
      have hdiff : roundTics v rate ∣ x - r.nextCycleInTics := Int.dvd_sub hdvd h.2.1.1
      have hge := Int.le_of_dvd (by omega) hdiff
      omega
  · refine ⟨r, ?_, h.mono (by omega) (by omega)⟩
    have htests : (t + 1 - r.nextCycleInTics).toNat + 1 = 1 := by omega
    rw [htests]
    show (if r.nextCycleInTics ≤ t then none else some r) = some r
    rw [if_neg (by omega)]

end Rate

/-- **`advance_log_tics` ends**, and every rate has come to its least tic after the current one. -/
theorem advanceLogTics_spec {v start t : Int} {rates : List ℚ} (hrates : ∀ rate ∈ rates, 1 ≤ roundTics v rate)
    {cycles : List LoggingCycle} (h : List.Forall₂ (CycleAt v start t) rates cycles) :
    ∃ cycles', advanceLogTics t cycles = some cycles' ∧ List.Forall₂ (CycleAt v start (t + 1)) rates cycles' := by
  induction h with
  | nil => exact ⟨[], rfl, List.Forall₂.nil⟩
  | @cons rate r rates cycles hr _ ih =>
    obtain ⟨r', hadvance, hr'⟩ := hr.advance (hrates rate List.mem_cons_self)
    obtain ⟨cycles', hrest, hcycles'⟩ := ih fun rate hrate => hrates rate (List.mem_cons_of_mem _ hrate)
    refine ⟨r' :: cycles', ?_, List.Forall₂.cons hr' hcycles'⟩
    unfold advanceLogTics at hrest ⊢
    rw [List.mapM_cons, hadvance, hrest]
    rfl

/-- When all rates are later than the tic, the next one is the least of them. -/
theorem calculateNextLoggingTic_of_lt {cycles : List LoggingCycle} {t : Int}
    (h : ∀ r ∈ cycles, t < r.nextCycleInTics) :
    calculateNextLoggingTic cycles t = earliest maxLongLong (cycles.map LoggingCycle.nextCycleInTics) := by
  unfold calculateNextLoggingTic
  congr 1
  refine List.map_congr_left fun r hr => ?_
  have hlt := h r hr
  rw [if_neg (by omega)]

/-! ## The invariant -/

/-- The tics at which the group records: the start tic, and the tics of the rates. -/
def Recorded (v start : Int) (rates : List ℚ) (x : Int) : Prop :=
  x = start ∨ (start < x ∧ ∃ rate ∈ rates, roundTics v rate ∣ x ∧ firstCycle v start rate ≤ x)

/-- **The group between two steps of the scheduler.** -/
structure Right (v start : Int) (rates : List ℚ) (s : State) : Prop where
  ticValue : s.timeTicValue = v
  time : s.timeTics < maxLongLong
  sorted : s.calls.Pairwise (· < ·)
  calls : ∀ x, x ∈ s.calls ↔ Recorded v start rates x ∧ x < s.bound
  rates : List.Forall₂ (CycleAt v start s.bound) rates s.loggingRates
  /-- The job is due now, for the first time, or is to be called at the least tic of the rates. -/
  next : (s.bound = start ∧ s.nextTics = start) ∨
    (start < s.bound ∧ s.nextTics = earliest maxLongLong (s.loggingRates.map LoggingCycle.nextCycleInTics))
  ahead : s.bound ≤ s.nextTics
  /-- Behind the look the scheduler knows of the next call. -/
  known : s.looked = true → start < s.bound ∧ s.nextJobTime = s.nextTics

variable {v start : Int} {rates : List ℚ}

/-- The least of the next cycles is not after any of them. -/
theorem least_le {cycles : List LoggingCycle} {r : LoggingCycle} (hr : r ∈ cycles) :
    earliest maxLongLong (cycles.map LoggingCycle.nextCycleInTics) ≤ r.nextCycleInTics :=
  earliest_le_of_mem (List.mem_map_of_mem hr)

/-- The least tic of the rates is not after any tic that is recorded. -/
theorem Right.next_le {s : State} (h : Right v start rates s) (hstarted : start < s.bound) {x : Int}
    (hx : Recorded v start rates x) (hbound : s.bound ≤ x) : s.nextTics ≤ x := by
  rcases h.next with ⟨heq, -⟩ | ⟨-, hnext⟩
  · omega
  rcases hx with rfl | ⟨-, rate, hrate, hdvd, hfirst⟩
  · omega
  obtain ⟨r, hr, hcycle⟩ := exists_of_forall₂ (List.Forall₂.flip h.rates) hrate
  have hle : r.nextCycleInTics ≤ x := hcycle.2.2 ⟨hdvd, hfirst, hbound⟩
  have hleast : s.nextTics ≤ r.nextCycleInTics := by
    rw [hnext]
    exact least_le hr
  exact le_trans hleast hle

/-- **The group starts right.** -/
theorem init_right (hrates : ∀ rate ∈ rates, 1 ≤ roundTics v rate) (hstart : start < maxLongLong) :
    Right v start rates (init v start rates) := by
  refine ⟨rfl, hstart, List.Pairwise.nil, ?_, ?_, Or.inl ⟨rfl, rfl⟩, le_refl _, fun hlooked => nomatch hlooked⟩
  · intro x
    constructor
    · intro hx
      cases hx
    rintro ⟨hx, hlt⟩
    have hlt : x < start := hlt
    rcases hx with rfl | ⟨hgt, -⟩ <;> omega
  · show List.Forall₂ (CycleAt v start start) rates (rates.map (setRate v start))
    rw [List.forall₂_map_right_iff]
    exact List.forall₂_same.mpr fun rate hrate => CycleAt.first (hrates rate hrate)

/-- A member of the list of next cycles is the tic of a rate. -/
theorem Right.of_rate {s : State} (h : Right v start rates s) {r : LoggingCycle} (hr : r ∈ s.loggingRates) :
    ∃ rate ∈ rates, CycleAt v start s.bound rate r :=
  exists_of_forall₂ h.rates hr

/-- **The call of the job** when it is due: the tic is recorded, and all rates are later then. -/
theorem Right.call {s : State} (h : Right v start rates s) (hv : 0 < v)
    (hrates : ∀ rate ∈ rates, 1 ≤ roundTics v rate) (hfirst : s.looked = false) (hdue : s.nextTics = s.timeTics) :
    Recorded v start rates s.timeTics ∧ start ≤ s.timeTics ∧
      ∃ cycles', List.Forall₂ (CycleAt v start (s.timeTics + 1)) rates cycles' ∧
        ∃ cycleTics cycle, LoggingRates.call s = some
          { s with
            loggingRates := cycles'
            nextTics := earliest maxLongLong (cycles'.map LoggingCycle.nextCycleInTics)
            cycleTics := cycleTics
            cycle := cycle
            calls := s.calls ++ [s.timeTics] } := by
  have hbound : s.bound = s.timeTics := by
    unfold State.bound
    rw [hfirst]
    rfl
  have hcycles := h.rates
  rw [hbound] at hcycles
  obtain ⟨cycles', hadvance, hcycles'⟩ := advanceLogTics_spec hrates hcycles
  refine ⟨?_, ?_, cycles', hcycles', ?_⟩
  · -- the job is due for the first time, or for one of the rates
    rcases h.next with ⟨-, hstart⟩ | ⟨hstarted, hnext⟩
    · exact Or.inl (by omega)
    have hsome : earliest maxLongLong (s.loggingRates.map LoggingCycle.nextCycleInTics) ≠ maxLongLong := by
      have htime := h.time
      omega
    have hmem := earliest_mem hsome
    obtain ⟨r, hr, heq⟩ := List.mem_map.mp hmem
    obtain ⟨rate, hrate, -, ⟨hdvd, hfrom, -⟩, -⟩ := h.of_rate hr
    rw [heq, ← hnext, hdue] at hdvd hfrom
    exact Or.inr ⟨by omega, rate, hrate, hdvd, hfrom⟩
  · rcases h.next with ⟨hb, -⟩ | ⟨hb, -⟩ <;> omega
  · have hlater : ∀ r ∈ cycles', s.timeTics < r.nextCycleInTics := by
      intro r hr
      obtain ⟨rate, -, -, hleast⟩ := exists_of_forall₂ hcycles' hr
      have hge := hleast.1.2.2
      omega
    unfold LoggingRates.call dataRecord
    simp only
    rw [h.ticValue, roundTics_time hv, hadvance, Option.map_some, Option.map_some,
      calculateNextLoggingTic_of_lt hlater]
    exact ⟨_, _, rfl⟩

/-- **The look at the job.** -/
theorem Right.look {s : State} (h : Right v start rates s) (hv : 0 < v)
    (hrates : ∀ rate ∈ rates, 1 ≤ roundTics v rate) (hfirst : s.looked = false) :
    ∃ s', look s = some s' ∧ Right v start rates s' ∧ s'.timeTics = s.timeTics ∧ s'.looked = true := by
  have hbound : s.bound = s.timeTics := by
    unfold State.bound
    rw [hfirst]
    rfl
  unfold LoggingRates.look
  by_cases hdue : s.nextTics = s.timeTics
  · rw [if_pos hdue]
    obtain ⟨hrecorded, hstart, cycles', hcycles', cycleTics, cycle, hcall⟩ := h.call hv hrates hfirst hdue
    rw [hcall, Option.map_some]
    have hleast : s.timeTics + 1 ≤ earliest maxLongLong (cycles'.map LoggingCycle.nextCycleInTics) := by
      refine lt_earliest_iff.mpr ⟨h.time, fun x hx => ?_⟩
      obtain ⟨r, hr, rfl⟩ := List.mem_map.mp hx
      obtain ⟨rate, -, -, hleast⟩ := exists_of_forall₂ hcycles' hr
      exact hleast.1.2.2
    refine ⟨_, rfl, ⟨h.ticValue, h.time, ?_, ?_, hcycles', Or.inr ⟨?_, rfl⟩, hleast, fun _ => ⟨?_, ?_⟩⟩, rfl, rfl⟩
    · show (s.calls ++ [s.timeTics]).Pairwise (· < ·)
      refine List.pairwise_append.mpr ⟨h.sorted, List.pairwise_singleton _ _, ?_⟩
      intro x hx y hy
      rw [List.mem_singleton.mp hy, ← hbound]
      exact ((h.calls x).mp hx).2
    · intro x
      show x ∈ s.calls ++ [s.timeTics] ↔ Recorded v start rates x ∧ x < s.timeTics + 1
      rw [List.mem_append, h.calls x, List.mem_singleton, hbound]
      constructor
      · rintro (⟨hx, hlt⟩ | rfl)
        · exact ⟨hx, by omega⟩
        · exact ⟨hrecorded, by omega⟩
      · rintro ⟨hx, hlt⟩
        by_cases heq : x = s.timeTics
        · exact Or.inr heq
        · exact Or.inl ⟨hx, by omega⟩
    · show start < s.timeTics + 1
      omega
    · show start < s.timeTics + 1
      omega
    · exact if_pos hleast
  · rw [if_neg hdue, Option.map_some]
    -- the job has been called before, and nothing is recorded at this tic
    have hahead := h.ahead
    have hstarted : start < s.bound ∧ s.nextTics = earliest maxLongLong
        (s.loggingRates.map LoggingCycle.nextCycleInTics) := by
      rcases h.next with ⟨hb, hn⟩ | hlater
      · exact absurd (hn.trans (hb.symm.trans hbound)) hdue
      · exact hlater
    refine ⟨_, rfl, ⟨h.ticValue, h.time, h.sorted, ?_, ?_, Or.inr ⟨?_, hstarted.2⟩, ?_, fun _ => ⟨?_, ?_⟩⟩, rfl, rfl⟩
    · intro x
      show x ∈ s.calls ↔ Recorded v start rates x ∧ x < s.timeTics + 1
      rw [h.calls x, hbound]
      refine and_congr_right fun hx => ?_
      have hnot : x ≠ s.timeTics := by
        rintro rfl
        have hle := h.next_le hstarted.1 hx hbound.le
        omega
      omega
    · refine forall₂_imp_mem h.rates fun rate _ r hr hcycle => hcycle.mono ?_ ?_
      · show s.bound ≤ s.timeTics + 1
        omega
      · show s.timeTics + 1 ≤ r.nextCycleInTics
        have hr : r ∈ s.loggingRates := hr
        have hle := least_le hr
        omega
    · show start < s.timeTics + 1
      omega
    · show s.timeTics + 1 ≤ s.nextTics
      omega
    · show start < s.timeTics + 1
      omega
    · show (if s.nextTics > s.timeTics then s.nextTics else maxLongLong) = s.nextTics
      rw [if_pos (by omega)]

/-- **The clock is advanced.** -/
theorem Right.advance {s : State} (h : Right v start rates s) {timeTics : Int}
    (hstep : Scheduled s (.advance timeTics)) : Right v start rates (advance s timeTics) := by
  obtain ⟨hlooked, hlater, hknown, hmax⟩ := hstep
  obtain ⟨hstarted, hjob⟩ := h.known hlooked
  rw [hjob] at hknown
  have hbound : s.bound = s.timeTics + 1 := by
    unfold State.bound
    rw [if_pos hlooked]
  have hnext : s.nextTics = earliest maxLongLong (s.loggingRates.map LoggingCycle.nextCycleInTics) := by
    rcases h.next with ⟨hb, -⟩ | ⟨-, hnext⟩
    · omega
    · exact hnext
  refine ⟨h.ticValue, hmax, h.sorted, ?_, ?_, Or.inr ⟨?_, hnext⟩, hknown, fun hlooked => nomatch hlooked⟩
  · intro x
    show x ∈ s.calls ↔ Recorded v start rates x ∧ x < timeTics
    rw [h.calls x]
    refine and_congr_right fun hx => ⟨fun hlt => by omega, fun hlt => ?_⟩
    by_contra hge
    have hle := h.next_le hstarted hx (by omega)
    omega
  · refine forall₂_imp_mem h.rates fun rate _ r hr hcycle => hcycle.mono ?_ ?_
    · show s.bound ≤ timeTics
      omega
    · show timeTics ≤ r.nextCycleInTics
      have hr : r ∈ s.loggingRates := hr
      have hle := least_le hr
      omega
  · show start < timeTics
    omega

/-- **Every call ends**, and the group stays right. -/
theorem Right.kept (hv : 0 < v) (hrates : ∀ rate ∈ rates, 1 ≤ roundTics v rate) {s : State}
    (h : Right v start rates s) (events : List Event) (hok : Guarded Legal step (some s) events) :
    ∃ s', run step (some s) events = some s' ∧ Right v start rates s' := by
  have hstep : ∀ o e, (∃ s', o = some s' ∧ Right v start rates s') → Legal o e →
      ∃ s', step o e = some s' ∧ Right v start rates s' := by
    rintro _ e ⟨s, rfl, h⟩ hlegal
    have hscheduled := hlegal s rfl
    cases e with
    | look =>
      obtain ⟨s', hlook, hright, -⟩ := h.look hv hrates hscheduled
      exact ⟨s', hlook, hright⟩
    | advance timeTics => exact ⟨_, rfl, h.advance hscheduled⟩
  exact Guarded.invariant hstep events _ ⟨s, rfl, h⟩ hok

/-- **The clock can be brought to any later tic**, a tic at a time. -/
theorem Right.reaches (hv : 0 < v) (hrates : ∀ rate ∈ rates, 1 ≤ roundTics v rate) (n : Nat) :
    ∀ {s : State}, Right v start rates s → s.looked = false → s.timeTics + n < maxLongLong →
      ∃ events s', Guarded Legal step (some s) events ∧ run step (some s) events = some s' ∧
        s'.timeTics = s.timeTics + n ∧ s'.looked = false := by
  induction n with
  | zero =>
    intro s _ hfirst _
    refine ⟨[], s, trivial, rfl, ?_, hfirst⟩
    omega
  | succ n ih =>
    intro s h hfirst hmax
    obtain ⟨s₁, hlook, h₁, htime, hlooked⟩ := h.look hv hrates hfirst
    have hscheduled : Scheduled s₁ (.advance (s.timeTics + 1)) := by
      have hahead := h₁.ahead
      obtain ⟨-, hjob⟩ := h₁.known hlooked
      unfold State.bound at hahead
      rw [if_pos hlooked] at hahead
      refine ⟨hlooked, ?_, ?_, ?_⟩ <;> omega
    obtain ⟨events, s₂, hok, hrun, htime₂, hfirst₂⟩ := ih (h₁.advance hscheduled) rfl (by
      show s.timeTics + 1 + n < maxLongLong
      push_cast at hmax
      omega)
    have hlookStep : step (some s) .look = some s₁ := hlook
    refine ⟨.look :: .advance (s.timeTics + 1) :: events, s₂, ⟨?_, ?_, ?_⟩, ?_, ?_, hfirst₂⟩
    · rintro _ ⟨⟩
      exact hfirst
    · rw [hlookStep]
      rintro _ ⟨⟩
      exact hscheduled
    · rw [hlookStep]
      exact hok
    · rw [run_cons, hlookStep]
      exact hrun
    · rw [htime₂]
      show s.timeTics + 1 + n = s.timeTics + (n + 1 : Nat)
      omega

/-! ## Result -/

/-- A tic that is recorded is one that is asked for. -/
theorem Recorded.requested {x : Int} (h : Recorded v start rates x) : Requested v start rates x := by
  rcases h with rfl | ⟨hlt, rate, hrate, hdvd, -⟩
  · exact Or.inl rfl
  · exact Or.inr ⟨hlt, rate, hrate, hdvd⟩

/-- **What is asked for and not recorded** is a multiple that is jumped over for all rates that it belongs to. -/
theorem Requested.recorded_iff (hrates : ∀ rate ∈ rates, 1 ≤ roundTics v rate) {x : Int}
    (h : Requested v start rates x) :
    Recorded v start rates x ↔ x = start ∨ ∃ rate ∈ rates, roundTics v rate ∣ x ∧
      ¬ (start < 0 ∧ ¬ roundTics v rate ∣ start ∧ x = rounded v start rate) := by
  rcases h with rfl | ⟨hlt, -⟩
  · exact ⟨fun _ => Or.inl rfl, fun _ => Or.inl rfl⟩
  refine or_congr_right ⟨?_, ?_⟩
  · rintro ⟨-, rate, hrate, hdvd, hfirst⟩
    exact ⟨rate, hrate, hdvd, ((firstCycle_spec (hrates rate hrate)).2.2 x hdvd hlt).mp hfirst⟩
  · rintro ⟨rate, hrate, hdvd, hnot⟩
    exact ⟨hlt, rate, hrate, hdvd, ((firstCycle_spec (hrates rate hrate)).2.2 x hdvd hlt).mpr hnot⟩

/-- The multiple that is jumped over is between the start tic and 0. -/
theorem lt_rounded {rate : ℚ} (hr : 1 ≤ roundTics v rate) (hneg : start < 0) (hdvd : ¬ roundTics v rate ∣ start) :
    start < rounded v start rate ∧ rounded v start rate ≤ 0 := by
  unfold rounded
  generalize roundTics v rate = r at hr hdvd ⊢
  have hparts := Int.mul_tdiv_add_tmod start r
  rw [Int.mul_comm] at hparts
  have hne : start.tmod r ≠ 0 := fun h => hdvd (Int.dvd_of_tmod_eq_zero h)
  have hsign : 0 ≤ (-start).tmod r := Int.tmod_nonneg r (by omega)
  have hquot : 0 ≤ (-start).tdiv r := Int.tdiv_nonneg (by omega) (by omega)
  rw [Int.neg_tmod] at hsign
  rw [Int.neg_tdiv] at hquot
  refine ⟨by omega, Int.mul_nonpos_of_nonpos_of_nonneg (by omega) (by omega)⟩

/-- **The calls of a group with any logging rates**: in every run the record job is called at the start tic and the
    later multiples of the rates, in order and each once, exactly if no multiple is jumped over. -/
theorem calls_right_iff (hv : 0 < v) (hrates : ∀ rate ∈ rates, 1 ≤ rate * v) (hstart : start < maxLongLong) :
    (∀ events, Guarded Legal step (some (init v start rates)) events →
      CallsRight v start rates (run step (some (init v start rates)) events)) ↔ NoneJumped v start rates := by
  have hrates : ∀ rate ∈ rates, 1 ≤ roundTics v rate := fun rate hrate => one_le_roundTics (hrates rate hrate)
  have hinit := init_right hrates hstart
  constructor
  · intro hall hneg rate hrate
    by_contra hjumped
    push Not at hjumped
    obtain ⟨hdvd, hothers⟩ := hjumped
    -- a run that passes the multiple that is jumped over
    obtain ⟨hlt, hnonpos⟩ := lt_rounded (hrates rate hrate) hneg hdvd
    obtain ⟨events, s, hok, hrun, htime, hfirst⟩ := Right.reaches hv hrates
      (rounded v start rate - start + 1).toNat hinit rfl (by
        show start + _ < maxLongLong
        unfold maxLongLong
        omega)
    obtain ⟨s', hs', -, hcalls⟩ := hall events hok
    obtain ⟨s'', hs'', hright⟩ := Right.kept hv hrates hinit events hok
    rw [hrun] at hs' hs''
    cases hs'
    cases hs''
    have hbound : rounded v start rate < s.bound := by
      unfold State.bound
      rw [hfirst, if_neg Bool.false_ne_true, htime]
      show _ < start + _
      omega
    have hasked : Requested v start rates (rounded v start rate) :=
      Or.inr ⟨hlt, rate, hrate, Int.dvd_mul_left _ _⟩
    have hrecorded := ((hright.calls _).mp ((hcalls _).mpr ⟨hasked, hbound⟩)).1
    rcases (hasked.recorded_iff hrates).mp hrecorded with heq | ⟨other, hother, hdvdOther, hnot⟩
    · omega
    · obtain ⟨hnotDvd, hsame⟩ := hothers other hother hdvdOther
      exact hnot ⟨hneg, hnotDvd, hsame.symm⟩
  · intro hnone events hok
    obtain ⟨s, hs, hright⟩ := Right.kept hv hrates hinit events hok
    refine ⟨s, hs, hright.sorted, fun x => ?_⟩
    rw [hright.calls x]
    refine and_congr_left fun _ => ⟨Recorded.requested, fun hasked => ?_⟩
    refine (hasked.recorded_iff hrates).mpr ?_
    rcases hasked with rfl | ⟨-, rate, hrate, hdvd⟩
    · exact Or.inl rfl
    right
    by_cases hjumped : start < 0 ∧ ¬ roundTics v rate ∣ start ∧ x = rounded v start rate
    · -- another rate makes up for it
      obtain ⟨hneg, hnot, rfl⟩ := hjumped
      rcases hnone hneg rate hrate with hmultiple | ⟨other, hother, hdvdOther, hmakesUp⟩
      · exact absurd hmultiple hnot
      · refine ⟨other, hother, hdvdOther, ?_⟩
        rintro ⟨-, hnotOther, hsame⟩
        rcases hmakesUp with hmultiple | hne
        · exact hnotOther hmultiple
        · exact hne hsame.symm
    · exact ⟨rate, hrate, hdvd, hjumped⟩

/-- Two rates from the tic 1 on. -/
theorem calls_right_iff_twoRates :
    (∀ events, Guarded Legal step (some (init 1 1 [2, 3])) events →
      CallsRight 1 1 [2, 3] (run step (some (init 1 1 [2, 3])) events)) ↔ NoneJumped 1 1 [2, 3] :=
  calls_right_iff (by decide) (by decide +kernel) (by decide)

/-- **Not always**: from the tic -10 on, a rate of 3 tics leaves out the tic -9. -/
theorem not_calls_right :
    ¬ ∀ events, Guarded Legal step (some (init 1 (-10) [3])) events →
      CallsRight 1 (-10) [3] (run step (some (init 1 (-10) [3])) events) := by
  intro h
  obtain ⟨s, hs, -, hcalls⟩ := h [.look, .advance (-9), .look] (by decide +kernel)
  have hrun : (run step (some (init 1 (-10) [3])) [.look, .advance (-9), .look]).map
      (fun s => (s.calls, s.bound)) = some ([-10], -8) := by decide +kernel
  rw [hs] at hrun
  have hpair := Option.some.inj hrun
  have hasked : Requested 1 (-10) [3] (-9) := Or.inr ⟨by decide, 3, by decide +kernel, by decide +kernel⟩
  have hbound : s.bound = -8 := congrArg Prod.snd hpair
  have hmem := (hcalls (-9)).mpr ⟨hasked, by rw [hbound]; decide⟩
  have hcalled : s.calls = [-10] := congrArg Prod.fst hpair
  rw [hcalled] at hmem
  revert hmem
  decide

end Trick.LoggingRates
