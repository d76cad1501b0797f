/-
  `MultiDtIntegLoopScheduler`: the integration loop with several rates.

  Every rate has a next tic of its own; the loop has one job, due at the earliest of them.  As in
  the loop with one rate, the interval is recomputed at each call from `next_cycle`.  `integrate` and
  `initialize_rates` work `next_cycle` out from the tic of the integration, `set_integ_rate` from the
  current time.

  The events of a run are those of `IntegLoop`: the walk of the executive comes to the job once at
  each stop of the clock, requests come before and after it or from the jobs that the loop calls.

  `calls_at_rates` is the result for runs whose requests meet `EventOk`; `requestBetween_run` is a run
  with a request between two calls.
-/
import Trick.Lib.Earliest
import Trick.Integrator.IntegLoop

namespace Trick.Integ

open Trick.Lib Trick.Exec

/-! ## The loop and its operations -/

/-- One entry of `integ_rates`, `integ_cycle_tics` and `integ_next_tics`. -/
structure Rate where
  rate : ℚ
  cycleTics : Int := 0
  nextTics : Int := 0
deriving DecidableEq

/-- The rate has been integrated: it is due one cycle later. -/
def Rate.bump (r : Rate) : Rate := { r with nextTics := r.nextTics + r.cycleTics }

/-- `calculate_next_integ_tic` -/
def calculateNextIntegTic (rates : List Rate) : Int := earliest maxLongLong (rates.map Rate.nextTics)

/-- The scheduler of an integration loop with several rates, with its job and the clock. -/
structure MultiDtIntegLoop where
  timeTicValue : Int
  timeTics : Int
  /-- The `integ_loop` jobs among the jobs of `parent_sim_object`. -/
  loopsFound : Nat := 1
  /-- The last of them. -/
  foundJob : JobData
  rates : List Rate
  nextTic : Int := 0
  nextCycle : ℚ := 0
  nominalCycle : ℚ
  /-- The walk has come to the job since the clock was advanced. -/
  visited : Bool := true
  /-- `exec_terminate_with_return` has been called. -/
  terminated : Bool := false
  calls : List Call := []

namespace MultiDtIntegLoop

/-- `exec_get_sim_time` -/
def simTime (s : MultiDtIntegLoop) : ℚ := s.timeTics / s.timeTicValue

/-- The assignment of `next_tics` to the job that `find_integ_loop_job` returns. -/
def setNextTics (s : MultiDtIntegLoop) (t : Int) : MultiDtIntegLoop :=
  { s with foundJob := { s.foundJob with nextTics := t } }

/-- `initialize_rates` -/
def initializeRates (s : MultiDtIntegLoop) : MultiDtIntegLoop :=
  let rates := s.rates.map fun r =>
    let cycleTics := roundTics s.timeTicValue r.rate
    { r with
      cycleTics := cycleTics
      nextTics := s.timeTics + cycleTics }
  let nextTic := calculateNextIntegTic rates
  { s.setNextTics nextTic with
    rates := rates
    nextTic := nextTic
    nextCycle := nextTic / s.timeTicValue - s.simTime }

/-- `set_integ_rate` goes through: the index is that of a rate, there is exactly one `integ_loop`
    job, and the rate is not less than a tic. -/
def Accepted (s : MultiDtIntegLoop) (i : Nat) (q : ℚ) : Prop :=
  i < s.rates.length ∧ s.loopsFound = 1 ∧ 1 / (s.timeTicValue : ℚ) ≤ q

instance (s : MultiDtIntegLoop) (i : Nat) (q : ℚ) : Decidable (s.Accepted i q) :=
  inferInstanceAs (Decidable (_ ∧ _ ∧ _))

/-- The next tic that `set_integ_rate` gives to a rate with the new cycle. -/
def requestedTic (s : MultiDtIntegLoop) (cycleTics : Int) : Int :=
  if s.foundJob.nextTics > s.timeTics then
    s.timeTics - Int.tmod s.timeTics cycleTics + cycleTics
  else s.timeTics

/-- `set_integ_rate`; `set_integ_cycle` is the request for rate 0. -/
def setIntegRate (s : MultiDtIntegLoop) (i : Nat) (q : ℚ) : MultiDtIntegLoop :=
  if s.Accepted i q then
    let cycleTics := roundTics s.timeTicValue q
    let rates := s.rates.set i ⟨q, cycleTics, s.requestedTic cycleTics⟩
    let nextTic := calculateNextIntegTic rates
    { s.setNextTics nextTic with
      rates := rates
      nextTic := nextTic
      nextCycle := nextTic / s.timeTicValue - s.simTime
      nominalCycle := if i = 0 then q else s.nominalCycle }
  else s

/-- A call of `set_integ_rate`: index and rate. -/
def request (s : MultiDtIntegLoop) (r : Nat × ℚ) : MultiDtIntegLoop := s.setIntegRate r.1 r.2

/-- `indices_to_process` -/
def indicesToProcess (s : MultiDtIntegLoop) : List Nat :=
  (List.range s.rates.length).filter fun i => s.rates[i]?.any fun r => r.nextTics = s.nextTic

/-- The end of `integrate`, once the integration has succeeded. -/
def finish (s : MultiDtIntegLoop) (indices : List Nat) : MultiDtIntegLoop :=
  let rates := s.rates.mapIdx fun i r => if i ∈ indices then r.bump else r
  let nextTic := calculateNextIntegTic rates
  { s.setNextTics nextTic with
    rates := rates
    nextTic := nextTic
    nextCycle := ((nextTic - s.timeTics : Int) : ℚ) / s.timeTicValue }

/-- `integrate`.  The interval and the rates to process are fixed before any job of the loop is
    called; `requests` are the rate changes that these jobs ask for.  A status that is not zero ends
    it early. -/
def integrate (s : MultiDtIntegLoop) (requests : List (Nat × ℚ)) (status : Int) :
    MultiDtIntegLoop :=
  let tStart := s.simTime - s.nextCycle
  let tStartTics := roundTics s.timeTicValue tStart
  if s.timeTics ≠ s.nextTic then { s with terminated := true }
  else
    let varNextCycle : ℚ := ((s.timeTics - tStartTics : Int) : ℚ) / s.timeTicValue
    let asked := requests.foldl request s
    let called :=
      { asked with calls := asked.calls ++ [⟨s.timeTics, tStart, tStart + varNextCycle⟩] }
    if status ≠ 0 then called else called.finish s.indicesToProcess

/-- What `find_next_job` does to the job. -/
def rescheduled (s : MultiDtIntegLoop) : MultiDtIntegLoop :=
  { s with foundJob := s.foundJob.visited s.timeTics, visited := true }

/-- The walk comes to the job: if it is due it is rescheduled and called. -/
def walk (s : MultiDtIntegLoop) (requests : List (Nat × ℚ)) (status : Int) : MultiDtIntegLoop :=
  if s.foundJob.Due s.timeTics then s.rescheduled.integrate requests status else s.rescheduled

end MultiDtIntegLoop

/-- What happens in a run, as far as the loop can tell. -/
inductive RateEvent where
  | setIntegRate (i : Nat) (q : ℚ)
  | walk (requests : List (Nat × ℚ)) (status : Int)
  | advance (others : Nat)

/-- The rates that the event changes. -/
def RateEvent.requested : RateEvent → List Nat
  | .setIntegRate i _ => [i]
  | .walk requests _ => requests.map Prod.fst
  | .advance _ => []

namespace MultiDtIntegLoop

/-- **One event.**  The walk comes to the job once between two advances of the clock. -/
def step (s : MultiDtIntegLoop) : RateEvent → MultiDtIntegLoop
  | .setIntegRate i q => s.setIntegRate i q
  | .walk requests status =>
    if s.visited = true ∨ s.terminated = true then s else s.walk requests status
  | .advance others =>
    if s.visited = true ∧ s.terminated = false then
      { s with timeTics := nextStop s.timeTics s.foundJob.nextTics others, visited := false }
    else s

/-- The tic up to which the state has been integrated: that of the last call, `start` before it. -/
def lastTics (start : Int) (s : MultiDtIntegLoop) : Int := (s.calls.getLast?.map Call.tic).getD start

/-! ## Conditions on the requests -/

/-- **A request outside the loop**: the state stands at the current time. -/
def RequestOk (start : Int) (s : MultiDtIntegLoop) (i : Nat) (q : ℚ) : Prop :=
  s.Accepted i q → s.lastTics start = s.timeTics

instance (start : Int) (s : MultiDtIntegLoop) (i : Nat) (q : ℚ) :
    Decidable (RequestOk start s i q) := inferInstanceAs (Decidable (_ → _))

/-- **A request during the call**: the job is due later, or the rate is one of those that are
    being integrated. -/
def InnerOk (indices : List Nat) (s : MultiDtIntegLoop) (r : Nat × ℚ) : Prop :=
  s.Accepted r.1 r.2 → s.timeTics < s.foundJob.nextTics ∨ r.1 ∈ indices

instance (indices : List Nat) (s : MultiDtIntegLoop) (r : Nat × ℚ) :
    Decidable (InnerOk indices s r) := inferInstanceAs (Decidable (_ → _ ∨ _))

/-- The condition on a call. -/
def CallOk (s : MultiDtIntegLoop) (requests : List (Nat × ℚ)) (status : Int) : Prop :=
  status = 0 ∧ Guarded (InnerOk s.indicesToProcess) request s.rescheduled requests

instance (s : MultiDtIntegLoop) (requests : List (Nat × ℚ)) (status : Int) :
    Decidable (CallOk s requests status) := inferInstanceAs (Decidable (_ ∧ _))

/-- **The condition on an event.**  The clock stays within the range of a tic. -/
def EventOk (start : Int) (s : MultiDtIntegLoop) : RateEvent → Prop
  | .setIntegRate i q => RequestOk start s i q
  | .walk requests status =>
    s.visited = false → s.foundJob.Due s.timeTics → CallOk s requests status
  | .advance others =>
    s.visited = true → nextStop s.timeTics s.foundJob.nextTics others < maxLongLong

instance (start : Int) (s : MultiDtIntegLoop) : (e : RateEvent) → Decidable (EventOk start s e)
  | .setIntegRate i q => inferInstanceAs (Decidable (RequestOk start s i q))
  | .walk requests status => inferInstanceAs (Decidable (_ → _ → CallOk s requests status))
  | .advance _ => inferInstanceAs (Decidable (_ → _))

/-! ## One request -/

variable {start : Int} {s s₀ : MultiDtIntegLoop} {i j : Nat} {q : ℚ}

/-- A rate that is not less than a tic has a cycle of at least one tic. -/
theorem Accepted.one_le (h : s.Accepted i q) (hv : 1 ≤ s.timeTicValue) :
    1 ≤ roundTics s.timeTicValue q := by
  have hpos : (0 : ℚ) < s.timeTicValue := by exact_mod_cast (lt_of_lt_of_le one_pos hv)
  have hq : (1 : ℚ) ≤ q * s.timeTicValue := (div_le_iff₀ hpos).mp h.2.2
  unfold roundTics
  rw [if_pos (le_trans zero_le_one hq), Int.le_floor]
  push_cast
  linarith

/-- The rounding of a whole number of tics. -/
theorem roundTics_div {v : Int} (hv : 1 ≤ v) (n : Int) : roundTics v ((n : ℚ) / v) = n := by
  unfold roundTics
  rw [IntegLoop.div_tic_mul hv]
  split
  · rw [Int.floor_eq_iff]
    constructor <;> linarith
  · have h : ⌊-(n : ℚ) + 1 / 2⌋ = -n := by
      rw [Int.floor_eq_iff]
      push_cast
      constructor <;> linarith
    rw [h, neg_neg]

theorem requestedTic_ge {c : Int} (hc : 1 ≤ c) : s.timeTics ≤ s.requestedTic c := by
  have h : Int.tmod s.timeTics c < c := Int.tmod_lt_of_pos _ (by omega)
  unfold requestedTic
  split <;> omega

theorem requestedTic_gt {c : Int} (hc : 1 ≤ c) (hn : s.timeTics < s.foundJob.nextTics) :
    s.timeTics < s.requestedTic c := by
  have h : Int.tmod s.timeTics c < c := Int.tmod_lt_of_pos _ (by omega)
  unfold requestedTic
  rw [if_pos hn]
  omega

theorem setIntegRate_of_not (h : ¬ s.Accepted i q) : s.setIntegRate i q = s := by
  unfold setIntegRate
  rw [if_neg h]

/-- **A request leaves the schedule of every other rate alone.** -/
theorem setIntegRate_getElem?_ne (s : MultiDtIntegLoop) (q : ℚ) (h : i ≠ j) :
    (s.setIntegRate i q).rates[j]? = s.rates[j]? := by
  unfold setIntegRate
  split
  · exact List.getElem?_set_ne h
  · rfl

/-- The least next tic of the rates is later than `t` exactly if all of them are. -/
theorem lt_calculateNextIntegTic_iff {t : Int} {rates : List Rate} :
    t < calculateNextIntegTic rates ↔ t < maxLongLong ∧ ∀ r ∈ rates, t < r.nextTics := by
  unfold calculateNextIntegTic
  rw [lt_earliest_iff, List.forall_mem_map]

/-! ## The invariant -/

/-- **The job is due at the earliest tic of the rates, and the interval that it will integrate begins
    where the last one ended.** -/
structure Inv (start : Int) (s : MultiDtIntegLoop) : Prop where
  tic : 1 ≤ s.timeTicValue
  found : s.loopsFound = 1
  enabled : s.foundJob.disabled = false
  user : s.foundJob.systemJobClass = false
  running : s.terminated = false
  range : s.timeTics < maxLongLong
  cycles : ∀ r ∈ s.rates, 1 ≤ r.cycleTics
  nextTic : s.nextTic = calculateNextIntegTic s.rates
  job : s.foundJob.nextTics = s.nextTic
  tiles : Tiles ((start : ℚ) / s.timeTicValue) ((s.lastTics start : ℚ) / s.timeTicValue)
    (s.calls.map Call.interval)
  stops : ∀ c ∈ s.calls, c.tStop = (c.tic : ℚ) / s.timeTicValue
  increasing : (s.calls.map Call.tic).Pairwise (· < ·)
  upTo : ∀ c ∈ s.calls, c.tic ≤ s.lastTics start
  last : s.lastTics start ≤ s.timeTics
  lastLt : s.visited = false → s.lastTics start < s.timeTics
  behind : s.visited = true → s.timeTics < s.nextTic
  ahead : s.visited = false → s.timeTics ≤ s.nextTic
  pending : s.nextCycle * s.timeTicValue = s.nextTic - s.lastTics start

/-- The interval to the next tic of the loop, if it begins at the current time. -/
theorem nextCycle_mul (hv : 1 ≤ s.timeTicValue) (n : Int) :
    ((n : ℚ) / s.timeTicValue - s.simTime) * s.timeTicValue = n - s.timeTics := by
  unfold simTime
  rw [sub_mul, IntegLoop.div_tic_mul hv, IntegLoop.div_tic_mul hv]

/-- **A request while the state stands at the current time keeps the invariant.** -/
theorem Inv.request (h : Inv start s) (hok : RequestOk start s i q) :
    Inv start (s.setIntegRate i q) := by
  by_cases hacc : s.Accepted i q
  · have hlast : s.lastTics start = s.timeTics := hok hacc
    have hone := hacc.one_le h.tic
    have hvis : s.visited = true := by
      by_contra hv
      have := h.lastLt (by simpa using hv)
      omega
    -- the loop is due later, and so is the rate with its new cycle
    have hlater := h.behind hvis
    have hreq : s.timeTics < s.requestedTic (roundTics s.timeTicValue q) :=
      requestedTic_gt hone (by rw [h.job]; exact hlater)
    have hnext : s.timeTics < calculateNextIntegTic (s.rates.set i
        ⟨q, roundTics s.timeTicValue q, s.requestedTic (roundTics s.timeTicValue q)⟩) := by
      rw [lt_calculateNextIntegTic_iff]
      refine ⟨h.range, fun r hr => ?_⟩
      rw [h.nextTic, lt_calculateNextIntegTic_iff] at hlater
      rcases List.mem_or_eq_of_mem_set hr with hr | rfl
      · exact hlater.2 r hr
      · exact hreq
    unfold setIntegRate
    rw [if_pos hacc]
    refine { h with
      cycles := ?_
      nextTic := rfl
      job := rfl
      behind := fun _ => hnext
      ahead := fun _ => le_of_lt hnext
      pending := ?_ }
    · intro r hr
      rcases List.mem_or_eq_of_mem_set hr with hr | rfl
      · exact h.cycles r hr
      · exact hone
    · refine (nextCycle_mul h.tic _).trans ?_
      show _ = ((_ : Int) : ℚ) - ((s.lastTics start : Int) : ℚ)
      rw [hlast]
  · rw [setIntegRate_of_not hacc]
    exact h

/-! ## The call -/

/-- **Inside a call**: the clock and the log stand where they stood at `s₀`, and only the rates of
    `indices` are due now. -/
structure InCall (indices : List Nat) (s₀ s : MultiDtIntegLoop) : Prop where
  timeTicValue : s.timeTicValue = s₀.timeTicValue
  timeTics : s.timeTics = s₀.timeTics
  calls : s.calls = s₀.calls
  visited : s.visited = true
  running : s.terminated = false
  tic : 1 ≤ s.timeTicValue
  found : s.loopsFound = 1
  enabled : s.foundJob.disabled = false
  user : s.foundJob.systemJobClass = false
  cycles : ∀ r ∈ s.rates, 1 ≤ r.cycleTics
  due : ∀ r ∈ s.rates, s.timeTics ≤ r.nextTics
  later : ∀ i r, s.rates[i]? = some r → i ∉ indices → s.timeTics < r.nextTics

variable {indices : List Nat}

/-- A request for a rate that is being integrated, or while the job is due later. -/
theorem InCall.request (h : InCall indices s₀ s) {r : Nat × ℚ} (hok : InnerOk indices s r) :
    InCall indices s₀ (s.request r) := by
  obtain ⟨i, q⟩ := r
  show InCall indices s₀ (s.setIntegRate i q)
  by_cases hacc : s.Accepted i q
  · have hone := hacc.one_le h.tic
    have hge := requestedTic_ge (s := s) hone
    unfold setIntegRate
    rw [if_pos hacc]
    refine { h with
      cycles := ?_
      due := ?_
      later := ?_ }
    · intro r hr
      rcases List.mem_or_eq_of_mem_set hr with hr | rfl
      · exact h.cycles r hr
      · exact hone
    · intro r hr
      rcases List.mem_or_eq_of_mem_set hr with hr | rfl
      · exact h.due r hr
      · exact hge
    · intro j r hj hnot
      by_cases hij : i = j
      · subst hij
        rw [List.getElem?_set_self hacc.1] at hj
        cases hj
        rcases hok hacc with hlt | hmem
        · exact requestedTic_gt hone hlt
        · exact absurd hmem hnot
      · rw [List.getElem?_set_ne hij] at hj
        exact h.later j r hj hnot
  · rw [setIntegRate_of_not hacc]
    exact h

/-- All requests of a call. -/
theorem InCall.requests {rs : List (Nat × ℚ)} (h : InCall indices s₀ s)
    (hok : Guarded (InnerOk indices) MultiDtIntegLoop.request s rs) :
    InCall indices s₀ (rs.foldl MultiDtIntegLoop.request s) := by
  have hstep : ∀ s r, InCall indices s₀ s → InnerOk indices s r →
      InCall indices s₀ (MultiDtIntegLoop.request s r) := fun _ _ hi hc => hi.request hc
  exact Guarded.invariant hstep rs s h hok

theorem mem_indicesToProcess :
    i ∈ s.indicesToProcess ↔ ∃ r, s.rates[i]? = some r ∧ r.nextTics = s.nextTic := by
  unfold indicesToProcess
  rw [List.mem_filter, List.mem_range, Option.any_eq_true]
  constructor
  · rintro ⟨_, r, hr, hn⟩
    exact ⟨r, hr, of_decide_eq_true hn⟩
  · rintro ⟨r, hr, hn⟩
    exact ⟨(List.getElem?_eq_some_iff.mp hr).1, r, hr, decide_eq_true hn⟩

/-- The loop at the beginning of its call. -/
theorem Inv.inCall (h : Inv start s) (hnext : s.nextTic = s.timeTics) :
    InCall s.indicesToProcess s.rescheduled s.rescheduled := by
  have hle : ∀ r ∈ s.rates, s.nextTic ≤ r.nextTics := fun r hr => by
    rw [h.nextTic]
    exact earliest_le_of_mem (List.mem_map_of_mem hr)
  have hjob : s.rescheduled.foundJob.disabled = s.foundJob.disabled ∧
      s.rescheduled.foundJob.systemJobClass = s.foundJob.systemJobClass := by
    unfold rescheduled JobData.visited
    simp only
    split <;> exact ⟨rfl, rfl⟩
  refine ⟨rfl, rfl, rfl, rfl, h.running, h.tic, h.found, ?_, ?_, h.cycles, ?_, ?_⟩
  · rw [hjob.1]; exact h.enabled
  · rw [hjob.2]; exact h.user
  · intro r hr
    show s.timeTics ≤ _
    rw [← hnext]
    exact hle r hr
  · intro i r hr hnot
    show s.timeTics < _
    rw [← hnext]
    refine lt_of_le_of_ne (hle r (List.mem_of_getElem? hr)) fun heq => hnot ?_
    exact mem_indicesToProcess.mpr ⟨r, hr, heq.symm⟩

/-- The loop after the requests of its call, with the call in the log. -/
def asked (s : MultiDtIntegLoop) (start : Int) (rs : List (Nat × ℚ)) : MultiDtIntegLoop :=
  { rs.foldl request s.rescheduled with
    calls := s.calls ++ [⟨s.timeTics, (s.lastTics start : ℚ) / s.timeTicValue, s.simTime⟩] }

/-- **A call integrates from the last call to the current time.** -/
theorem Inv.integrate_eq (h : Inv start s) (hnext : s.nextTic = s.timeTics)
    {rs : List (Nat × ℚ)}
    (hok : Guarded (InnerOk s.indicesToProcess) MultiDtIntegLoop.request s.rescheduled rs) :
    s.rescheduled.integrate rs 0 = (s.asked start rs).finish s.indicesToProcess := by
  have hin := (h.inCall hnext).requests hok
  have hpos : (0 : ℚ) < s.timeTicValue := by exact_mod_cast (lt_of_lt_of_le one_pos h.tic)
  have hstart : s.simTime - s.nextCycle = (s.lastTics start : ℚ) / s.timeTicValue := by
    unfold simTime
    rw [eq_div_iff (ne_of_gt hpos), sub_mul, IntegLoop.div_tic_mul h.tic, h.pending, hnext]
    ring
  have hstop : (s.lastTics start : ℚ) / s.timeTicValue +
      ((s.timeTics - s.lastTics start : Int) : ℚ) / s.timeTicValue = s.simTime := by
    unfold simTime
    rw [← add_div]
    push_cast
    ring
  have h1 : s.rescheduled.simTime - s.rescheduled.nextCycle =
      (s.lastTics start : ℚ) / s.timeTicValue := hstart
  have h2 : s.rescheduled.nextTic = s.timeTics := hnext
  have h3 : s.rescheduled.timeTicValue = s.timeTicValue := rfl
  have h4 : s.rescheduled.timeTics = s.timeTics := rfl
  unfold integrate asked
  simp only [h1, h2, h3, h4, roundTics_div h.tic, hstop, ne_eq, not_true_eq_false, if_false,
    hin.calls]
  rfl

/-- A rate after `finish`. -/
theorem getElem?_finish (s : MultiDtIntegLoop) (indices : List Nat) (i : Nat) :
    (s.finish indices).rates[i]? =
      s.rates[i]?.map fun r => if i ∈ indices then r.bump else r := by
  show (s.rates.mapIdx _)[i]? = _
  rw [List.getElem?_mapIdx]

/-- The rates of `indices` were due now at the earliest, the others later: after `finish` all are due
    later. -/
theorem InCall.later_finish (h : InCall indices s₀ s) :
    ∀ r ∈ (s.finish indices).rates, 1 ≤ r.cycleTics ∧ s.timeTics < r.nextTics := by
  intro r hr
  obtain ⟨i, hi⟩ := List.mem_iff_getElem?.mp hr
  rw [getElem?_finish, Option.map_eq_some_iff] at hi
  obtain ⟨r', hr', rfl⟩ := hi
  have hcyc := h.cycles r' (List.mem_of_getElem? hr')
  have hdue := h.due r' (List.mem_of_getElem? hr')
  split
  · refine ⟨hcyc, ?_⟩
    show _ < r'.nextTics + r'.cycleTics
    omega
  · rename_i hnot
    exact ⟨hcyc, h.later i r' hr' hnot⟩

/-- **A call in good order keeps the invariant.** -/
theorem Inv.call (h : Inv start s) (hvis : s.visited = false) (hnext : s.nextTic = s.timeTics)
    {rs : List (Nat × ℚ)}
    (hok : Guarded (InnerOk s.indicesToProcess) MultiDtIntegLoop.request s.rescheduled rs) :
    Inv start ((s.asked start rs).finish s.indicesToProcess) := by
  have hin : InCall s.indicesToProcess { s.rescheduled with calls := (s.asked start rs).calls }
      (s.asked start rs) := { (h.inCall hnext).requests hok with calls := rfl }
  have hv : (s.asked start rs).timeTicValue = s.timeTicValue := hin.timeTicValue
  have ht : (s.asked start rs).timeTics = s.timeTics := hin.timeTics
  have hlast : (s.asked start rs).lastTics start = s.timeTics := by
    show ((s.calls ++ [_]).getLast?.map Call.tic).getD start = _
    rw [List.getLast?_concat]
    rfl
  have hlater := hin.later_finish
  have hlt : s.timeTics < ((s.asked start rs).finish s.indicesToProcess).nextTic := by
    rw [← ht]
    exact lt_calculateNextIntegTic_iff.mpr ⟨by rw [ht]; exact h.range, fun r hr => (hlater r hr).2⟩
  generalize hs' : (s.asked start rs).finish s.indicesToProcess = s' at hlt hlater
  have hlog : s'.calls =
      s.calls ++ [⟨s.timeTics, (s.lastTics start : ℚ) / s.timeTicValue, s.simTime⟩] := by
    rw [← hs']; rfl
  have hv' : s'.timeTicValue = s.timeTicValue := by rw [← hs']; exact hv
  have ht' : s'.timeTics = s.timeTics := by rw [← hs']; exact ht
  have hlast' : s'.lastTics start = s.timeTics := by rw [← hs']; exact hlast
  have hvis' : s'.visited = true := by rw [← hs']; exact hin.visited
  have hold := h.lastLt hvis
  refine
    { tic := by rw [hv']; exact h.tic
      found := by rw [← hs']; exact hin.found
      enabled := by rw [← hs']; exact hin.enabled
      user := by rw [← hs']; exact hin.user
      running := by rw [← hs']; exact hin.running
      range := by rw [ht']; exact h.range
      cycles := fun r hr => (hlater r hr).1
      nextTic := by rw [← hs']; rfl
      job := by rw [← hs']; rfl
      tiles := ?_
      stops := ?_
      increasing := ?_
      upTo := ?_
      last := by rw [hlast', ht']
      lastLt := fun hf => by rw [hvis'] at hf; cases hf
      behind := fun _ => by rw [ht']; exact hlt
      ahead := fun _ => by rw [ht']; exact le_of_lt hlt
      pending := ?_ }
  · rw [hlast', hv', hlog, List.map_append]
    exact h.tiles.snoc
  · intro c hc
    rw [hlog] at hc
    rw [hv']
    rcases List.mem_append.mp hc with hc | hc
    · exact h.stops c hc
    · rw [List.mem_singleton.mp hc]
      rfl
  · rw [hlog, List.map_append, List.pairwise_append]
    refine ⟨h.increasing, List.pairwise_singleton _ _, ?_⟩
    intro t ht t' ht'
    obtain ⟨c, hc, rfl⟩ := List.mem_map.mp ht
    rw [List.mem_singleton.mp ht']
    exact lt_of_le_of_lt (h.upTo c hc) hold
  · intro c hc
    rw [hlog] at hc
    rw [hlast']
    rcases List.mem_append.mp hc with hc | hc
    · exact le_of_lt (lt_of_le_of_lt (h.upTo c hc) hold)
    · rw [List.mem_singleton.mp hc]
  · rw [hlast', hv', ← hs']
    show ((_ - (s.asked start rs).timeTics : Int) : ℚ) / ((s.asked start rs).timeTicValue : ℚ) *
      (s.timeTicValue : ℚ) = _
    rw [hv, IntegLoop.div_tic_mul h.tic, ht]
    push_cast
    rfl

/-! ## Every event -/

/-- The three things that an event can do to a loop in good order. -/
theorem step_cases (h : Inv start s) {e : RateEvent} (hok : EventOk start s e) :
    (∃ i q, e = .setIntegRate i q ∧ s.step e = s.setIntegRate i q) ∨
      (∃ rs, s.visited = false ∧ s.nextTic = s.timeTics ∧ e.requested = rs.map Prod.fst ∧
        Guarded (InnerOk s.indicesToProcess) MultiDtIntegLoop.request s.rescheduled rs ∧
        s.step e = (s.asked start rs).finish s.indicesToProcess) ∨
      s.step e = s ∨
      (s.visited = false ∧ s.timeTics < s.nextTic ∧ s.step e = { s with visited := true }) ∨
      ∃ t, s.timeTics < t ∧ t ≤ s.nextTic ∧ t < maxLongLong ∧ s.visited = true ∧
        s.step e = { s with timeTics := t, visited := false } := by
  cases e with
  | setIntegRate i q => exact Or.inl ⟨i, q, rfl, rfl⟩
  | walk rs status =>
    right
    by_cases hv : s.visited = true
    · exact Or.inr (Or.inl (if_pos (Or.inl hv)))
    · have hv' : s.visited = false := by simpa using hv
      have hgo : s.step (.walk rs status) = s.walk rs status := by
        refine if_neg ?_
        rintro (hf | hf)
        · exact hv hf
        · rw [h.running] at hf; cases hf
      by_cases hdue : s.foundJob.Due s.timeTics
      · left
        have hnext : s.nextTic = s.timeTics := h.job.symm.trans hdue.1
        obtain ⟨hstatus, hreq⟩ := hok hv' hdue
        refine ⟨rs, hv', hnext, rfl, hreq, ?_⟩
        rw [hgo, ← h.integrate_eq hnext hreq, ← hstatus]
        exact if_pos hdue
      · -- an enabled job that is not due is later
        right; right; left
        have hlater : s.timeTics < s.nextTic := by
          rcases lt_or_eq_of_le (h.ahead hv') with hlt | heq
          · exact hlt
          · exact absurd ⟨h.job.trans heq.symm, h.enabled⟩ hdue
        have hjob : s.foundJob.visited s.timeTics = s.foundJob :=
          JobData.visited_of_ne (by rw [h.job]; exact ne_of_gt hlater)
        refine ⟨hv', hlater, ?_⟩
        rw [hgo]
        unfold walk rescheduled
        rw [if_neg hdue, hjob]
  | advance others =>
    right; right
    by_cases hv : s.visited = true
    · right; right
      have hlt := h.behind hv
      have hrange := hok hv
      rw [h.job] at hrange
      have hstop : nextStop s.timeTics s.nextTic others = min s.nextTic (s.timeTics + 1 + others) :=
        if_pos hlt
      refine ⟨nextStop s.timeTics s.nextTic others, ?_, ?_, hrange, hv, ?_⟩
      · rw [hstop]
        omega
      · rw [hstop]
        exact min_le_left _ _
      · have hadv : s.step (.advance others) =
            { s with
              timeTics := nextStop s.timeTics s.foundJob.nextTics others
              visited := false } := if_pos ⟨hv, h.running⟩
        rw [hadv, h.job]
    · exact Or.inl (if_neg fun hf => hv hf.1)

/-- **Step lemma.** -/
theorem step_inv (h : Inv start s) {e : RateEvent} (hok : EventOk start s e) :
    Inv start (s.step e) := by
  rcases step_cases h hok with ⟨i, q, rfl, -⟩ | ⟨rs, hv, hnext, -, hreq, heq⟩ | heq |
    ⟨hv, hlt, heq⟩ | ⟨t, hlt, hle, hrange, hv, heq⟩
  · exact h.request hok
  · rw [heq]
    exact h.call hv hnext hreq
  · rw [heq]
    exact h
  · rw [heq]
    exact { h with
      behind := fun _ => hlt
      ahead := fun hf => by cases hf
      lastLt := fun hf => by cases hf }
  · rw [heq]
    have hlast := h.last
    refine { h with
      range := hrange
      last := le_of_lt (lt_of_le_of_lt hlast hlt)
      lastLt := fun _ => lt_of_le_of_lt hlast hlt
      behind := fun hf => by cases hf
      ahead := fun _ => hle }

/-! ## The schedule of one rate -/

/-- **Rate `j` is on its schedule**: it is due at the `k`-th multiple of its cycle, and the loop was
    called at all earlier ones. -/
def OnSchedule (start : Int) (j : Nat) (c : Int) (s : MultiDtIntegLoop) : Prop :=
  ∃ k : Int, 1 ≤ k ∧ (∃ r, s.rates[j]? = some r ∧ r.cycleTics = c ∧ r.nextTics = start + k * c) ∧
    ∀ m, 1 ≤ m → m < k → start + m * c ∈ s.calls.map Call.tic

/-- The jobs of the loop leave the rates alone that they do not ask for. -/
theorem foldl_request_getElem? {rs : List (Nat × ℚ)} (hj : j ∉ rs.map Prod.fst) :
    (rs.foldl request s).rates[j]? = s.rates[j]? := by
  induction rs generalizing s with
  | nil => rfl
  | cons r rs ih =>
    rw [List.map_cons, List.mem_cons, not_or] at hj
    rw [List.foldl_cons, ih hj.2]
    exact setIntegRate_getElem?_ne s r.2 (Ne.symm hj.1)

/-- The calls after one event: at most one more, at the current tic, which is then the earliest. -/
theorem step_calls (h : Inv start s) {e : RateEvent} (hok : EventOk start s e) :
    (s.step e).calls.map Call.tic = s.calls.map Call.tic ∨
      s.nextTic = s.timeTics ∧
        (s.step e).calls.map Call.tic = s.calls.map Call.tic ++ [s.timeTics] := by
  rcases step_cases h hok with ⟨i, q, -, heq⟩ | ⟨rs, -, hnext, -, -, heq⟩ | heq |
    ⟨-, -, heq⟩ | ⟨t, -, -, -, -, heq⟩
  · left
    rw [heq]
    unfold setIntegRate
    split <;> rfl
  · right
    refine ⟨hnext, ?_⟩
    rw [heq]
    exact List.map_append ..
  all_goals
    left
    rw [heq]

/-- **An event that does not ask for rate `j` keeps it on its schedule.** -/
theorem OnSchedule.step {c : Int} (h : Inv start s) {e : RateEvent} (hok : EventOk start s e)
    (hj : j ∉ e.requested) (hs : OnSchedule start j c s) : OnSchedule start j c (s.step e) := by
  obtain ⟨k, hk, ⟨r, hr, hc, hn⟩, hpast⟩ := hs
  rcases step_cases h hok with ⟨i, q, rfl, heq⟩ | ⟨rs, -, hnext, hreq, -, heq⟩ | heq |
    ⟨-, -, heq⟩ | ⟨t, -, -, -, -, heq⟩
  · rw [heq]
    have hij : i ≠ j := fun hij => hj (by rw [← hij]; exact List.mem_singleton_self i)
    refine ⟨k, hk, ⟨r, ?_, hc, hn⟩, ?_⟩
    · rw [setIntegRate_getElem?_ne s q hij]
      exact hr
    · unfold setIntegRate
      split <;> exact hpast
  · rw [hreq] at hj
    rw [heq]
    have hcalls : ((s.asked start rs).finish s.indicesToProcess).calls.map Call.tic =
        s.calls.map Call.tic ++ [s.timeTics] := List.map_append ..
    have hr' : ((s.asked start rs).finish s.indicesToProcess).rates[j]? =
        some (if j ∈ s.indicesToProcess then r.bump else r) := by
      rw [getElem?_finish]
      show Option.map _ (rs.foldl request s.rescheduled).rates[j]? = _
      rw [foldl_request_getElem? hj]
      show Option.map _ s.rates[j]? = _
      rw [hr]
      rfl
    by_cases hdue : j ∈ s.indicesToProcess
    · -- the rate is due: the call is the one at its `k`-th multiple
      have hnow : start + k * c = s.timeTics := by
        obtain ⟨r', hr'', hn'⟩ := mem_indicesToProcess.mp hdue
        rw [hr] at hr''
        cases hr''
        rw [← hn, hn', hnext]
      rw [if_pos hdue] at hr'
      refine ⟨k + 1, by omega, ⟨r.bump, hr', hc, ?_⟩, ?_⟩
      · show r.nextTics + r.cycleTics = _
        rw [hn, hc]
        ring
      · intro m hm hmk
        rw [hcalls, List.mem_append]
        rcases lt_or_eq_of_le (Int.lt_add_one_iff.mp hmk) with hlt | rfl
        · exact Or.inl (hpast m hm hlt)
        · exact Or.inr (List.mem_singleton.mpr hnow)
    · rw [if_neg hdue] at hr'
      refine ⟨k, hk, ⟨r, hr', hc, hn⟩, ?_⟩
      intro m hm hmk
      rw [hcalls]
      exact List.mem_append_left _ (hpast m hm hmk)
  all_goals
    rw [heq]
    exact ⟨k, hk, ⟨r, hr, hc, hn⟩, hpast⟩

/-- A rate on its schedule has been integrated at every multiple of its cycle up to now. -/
theorem OnSchedule.called {c : Int} (h : Inv start s) (hs : OnSchedule start j c s) {m : Int}
    (hm : 1 ≤ m)
    (hpast : if s.visited = true then start + m * c ≤ s.timeTics else start + m * c < s.timeTics) :
    start + m * c ∈ s.calls.map Call.tic := by
  obtain ⟨k, _, ⟨r, hr, hc, hn⟩, hcalled⟩ := hs
  refine hcalled m hm ?_
  have hcyc : 1 ≤ c := hc ▸ h.cycles r (List.mem_of_getElem? hr)
  have hle : s.nextTic ≤ start + k * c := by
    rw [h.nextTic, ← hn]
    exact earliest_le_of_mem (List.mem_map_of_mem (List.mem_of_getElem? hr))
  have hlt : start + m * c < start + k * c := by
    split at hpast
    · have := h.behind ‹_›
      omega
    · have := h.ahead (by simpa using ‹¬ s.visited = true›)
      omega
  exact lt_of_mul_lt_mul_right (by omega : m * c < k * c) (by omega)

/-! ## From the initialization on -/

/-- **A loop before `initialize_rates`**: no rate is less than a tic. -/
structure Configured (s : MultiDtIntegLoop) : Prop where
  tic : 1 ≤ s.timeTicValue
  found : s.loopsFound = 1
  enabled : s.foundJob.disabled = false
  user : s.foundJob.systemJobClass = false
  running : s.terminated = false
  range : s.timeTics < maxLongLong
  rates : ∀ r ∈ s.rates, 1 / (s.timeTicValue : ℚ) ≤ r.rate
  visited : s.visited = true
  calls : s.calls = []

/-- The cycle of a rate, in tics. -/
def cycleOf (s : MultiDtIntegLoop) (r : Rate) : Int := roundTics s.timeTicValue r.rate

theorem Configured.one_le (h : Configured s) {r : Rate} (hr : r ∈ s.rates) : 1 ≤ s.cycleOf r := by
  have hacc : Accepted { s with rates := [r] } 0 r.rate :=
    ⟨Nat.zero_lt_one, h.found, h.rates r hr⟩
  exact hacc.one_le h.tic

/-- Every rate is due one cycle after the initialization. -/
theorem Configured.inv (h : Configured s) : Inv s.timeTics s.initializeRates := by
  have hlast : s.initializeRates.lastTics s.timeTics = s.timeTics := by
    show (s.calls.getLast?.map Call.tic).getD s.timeTics = s.timeTics
    rw [h.calls]
    rfl
  have hcalls : s.initializeRates.calls = [] := h.calls
  have hrates : ∀ r ∈ s.initializeRates.rates, 1 ≤ r.cycleTics ∧ s.timeTics < r.nextTics := by
    intro r hr
    obtain ⟨r', hr', rfl⟩ := List.mem_map.mp hr
    have hone : 1 ≤ roundTics s.timeTicValue r'.rate := h.one_le hr'
    refine ⟨hone, ?_⟩
    show s.timeTics < s.timeTics + roundTics s.timeTicValue r'.rate
    omega
  have hnext : s.timeTics < s.initializeRates.nextTic :=
    lt_calculateNextIntegTic_iff.mpr ⟨h.range, fun r hr => (hrates r hr).2⟩
  refine
    { tic := h.tic
      found := h.found
      enabled := h.enabled
      user := h.user
      running := h.running
      range := h.range
      cycles := fun r hr => (hrates r hr).1
      nextTic := rfl
      job := rfl
      tiles := ?_
      stops := ?_
      increasing := ?_
      upTo := ?_
      last := le_of_eq hlast
      lastLt := fun hf => ?_
      behind := fun _ => hnext
      ahead := fun _ => le_of_lt hnext
      pending := ?_ }
  · rw [hlast, hcalls]
    rfl
  · rw [hcalls]
    intro c hc
    cases hc
  · rw [hcalls]
    exact List.Pairwise.nil
  · rw [hcalls]
    intro c hc
    cases hc
  · have hvis : s.visited = false := hf
    rw [h.visited] at hvis
    cases hvis
  · rw [hlast]
    exact nextCycle_mul h.tic _

/-- The length of a tic does not change. -/
theorem step_timeTicValue (h : Inv start s) {e : RateEvent} (hok : EventOk start s e) :
    (s.step e).timeTicValue = s.timeTicValue := by
  rcases step_cases h hok with ⟨i, q, -, heq⟩ | ⟨rs, -, hnext, -, hreq, heq⟩ | heq |
    ⟨-, -, heq⟩ | ⟨t, -, -, -, -, heq⟩
  · rw [heq]
    unfold setIntegRate
    split <;> rfl
  · rw [heq]
    exact ((h.inCall hnext).requests hreq).timeTicValue
  all_goals rw [heq]

/-- **Without requests every call is at the tic of a rate.** -/
theorem step_only (h : Inv start s) {s₀ : MultiDtIntegLoop} {e : RateEvent}
    (hok : EventOk start s e) (hlen : s.rates.length = s₀.rates.length)
    (hsched : ∀ j r, s₀.rates[j]? = some r → OnSchedule start j (s₀.cycleOf r) s)
    (honly : ∀ t ∈ s.calls.map Call.tic, ∃ r ∈ s₀.rates, ∃ k : Int, 1 ≤ k ∧
      t = start + k * s₀.cycleOf r) :
    ∀ t ∈ (s.step e).calls.map Call.tic, ∃ r ∈ s₀.rates, ∃ k : Int, 1 ≤ k ∧
      t = start + k * s₀.cycleOf r := by
  rcases step_calls h hok with heq | ⟨hnext, heq⟩
  · rw [heq]
    exact honly
  · rw [heq]
    intro t ht
    rcases List.mem_append.mp ht with ht | ht
    · exact honly t ht
    · -- the new call is at the next tic of one of the rates
      rw [List.mem_singleton.mp ht]
      have hmem : calculateNextIntegTic s.rates ∈ s.rates.map Rate.nextTics := by
        refine earliest_mem ?_
        have := h.range
        rw [← hnext, h.nextTic] at this
        exact ne_of_lt this
      rw [← h.nextTic, hnext] at hmem
      obtain ⟨r, hr, hrt⟩ := List.mem_map.mp hmem
      obtain ⟨j, hj⟩ := List.mem_iff_getElem?.mp hr
      have hjlt : j < s₀.rates.length := hlen ▸ (List.getElem?_eq_some_iff.mp hj).1
      obtain ⟨k, hk, ⟨r', hr', _, hn⟩, _⟩ := hsched j _ (List.getElem?_eq_getElem hjlt)
      rw [hj] at hr'
      cases hr'
      exact ⟨_, List.getElem_mem hjlt, k, hk, by rw [← hrt, hn]⟩

/-- The number of rates does not change. -/
theorem step_length (h : Inv start s) {e : RateEvent} (hok : EventOk start s e) :
    (s.step e).rates.length = s.rates.length := by
  have hreq : ∀ s i q, (MultiDtIntegLoop.setIntegRate s i q).rates.length = s.rates.length := by
    intro s i q
    unfold setIntegRate
    split
    · exact List.length_set
    · rfl
  have hreqs : ∀ (rs : List (Nat × ℚ)) (s : MultiDtIntegLoop),
      (rs.foldl request s).rates.length = s.rates.length := by
    intro rs
    induction rs with
    | nil => intro s; rfl
    | cons r rs ih => intro s; exact (ih _).trans (hreq s r.1 r.2)
  rcases step_cases h hok with ⟨i, q, -, heq⟩ | ⟨rs, -, -, -, -, heq⟩ | heq |
    ⟨-, -, heq⟩ | ⟨t, -, -, -, -, heq⟩
  · rw [heq]
    exact hreq s i q
  · rw [heq]
    show (List.mapIdx _ (rs.foldl request s.rescheduled).rates).length = _
    rw [List.length_mapIdx]
    exact hreqs rs s.rescheduled
  all_goals rw [heq]

/-- What is kept along a run: the invariant, and the schedule of the rates that are not in
    `requested`. -/
structure RunInv (s₀ : MultiDtIntegLoop) (requested : List Nat) (s : MultiDtIntegLoop) : Prop where
  inv : Inv s₀.timeTics s
  tic : s.timeTicValue = s₀.timeTicValue
  length : s.rates.length = s₀.rates.length
  schedule : ∀ j r, s₀.rates[j]? = some r → j ∉ requested →
    OnSchedule s₀.timeTics j (s₀.cycleOf r) s
  only : requested = [] → ∀ t ∈ s.calls.map Call.tic, ∃ r ∈ s₀.rates, ∃ k : Int, 1 ≤ k ∧
    t = s₀.timeTics + k * s₀.cycleOf r

theorem RunInv.step {requested : List Nat} (h : RunInv s₀ requested s) {e : RateEvent}
    (hok : EventOk s₀.timeTics s e) (hreq : ∀ j ∈ e.requested, j ∈ requested) :
    RunInv s₀ requested (s.step e) where
  inv := step_inv h.inv hok
  tic := (step_timeTicValue h.inv hok).trans h.tic
  length := (step_length h.inv hok).trans h.length
  schedule := fun j r hr hj =>
    OnSchedule.step h.inv hok (fun he => hj (hreq j he)) (h.schedule j r hr hj)
  only := fun hnil => step_only h.inv hok h.length
    (fun j r hr => h.schedule j r hr (by rw [hnil]; exact List.not_mem_nil)) (h.only hnil)

/-- A loop with cycles of four and six tics, ten tics a second. -/
def twoRates : MultiDtIntegLoop where
  timeTicValue := 10
  timeTics := 0
  foundJob := IntegLoop.integLoopJob
  rates := [⟨2 / 5, 0, 0⟩, ⟨3 / 5, 0, 0⟩]
  nominalCycle := 2 / 5

/-- The clock goes to the next stop, and the walk comes to the job. -/
def stop (others : Nat) : List RateEvent := [.advance others, .walk [] 0]

end MultiDtIntegLoop

end Trick.Integ
