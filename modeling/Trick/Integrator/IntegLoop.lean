/-
  `IntegLoopScheduler`: the integration loop with one rate.

  The loop has one `integ_loop` job.  At each call it integrates from `sim_time - next_cycle` to
  `sim_time`: where the state really is, is not stored.  `set_integ_cycle` gives the job another cycle
  and works out `next_cycle` from the job's next call time and cycle.

  A run is a list of events.  The walk of the executive over its queue comes to the job once at each
  stop of the clock (`walk`), other jobs may ask for another cycle before and after that
  (`setIntegCycle`), the jobs of the loop itself during the call, and the clock then goes to the
  job's next call time or to an earlier stop that something else asks for (`advance`).  `calls` logs
  the intervals.

  `intervals_tile` is the result for runs whose requests meet `EventOk`; `secondRequest_run` is a run
  with two requests between two calls.
-/
import Trick.Lib.Run
import Trick.Lib.Tiling
import Trick.Executive.ScheduledJobQueue

namespace Trick.Integ

open Trick.Lib Trick.Exec

/-! ## The loop and its operations -/

/-- A call of `integrate`: its tic, and the interval that `integrate_dt` is given. -/
structure Call where
  tic : Int
  tStart : ℚ
  tStop : ℚ
deriving DecidableEq

/-- The interval of a call. -/
def Call.interval (c : Call) : ℚ × ℚ := (c.tStart, c.tStop)

/-- The scheduler of an integration loop, with its job and the clock. -/
structure IntegLoop where
  timeTicValue : Int
  timeTics : Int
  /-- The `integ_loop` jobs among the jobs of `parent_sim_object`. -/
  loopsFound : Nat := 1
  /-- The last of them. -/
  foundJob : JobData
  nominalCycle : ℚ
  nextCycle : ℚ
  /-- The walk has come to the job since the clock was advanced. -/
  visited : Bool := true
  calls : List Call := []

namespace IntegLoop

/-- `exec_get_sim_time` -/
def simTime (s : IntegLoop) : ℚ := s.timeTics / s.timeTicValue

/-- `set_integ_cycle`: without exactly one `integ_loop` job it is an error. -/
def setIntegCycle (s : IntegLoop) (inCycle : ℚ) : IntegLoop :=
  if s.loopsFound ≠ 1 then s
  else
    let prevTics := s.foundJob.nextTics - s.foundJob.cycleTics
    let job := (s.foundJob.setCycle s.timeTicValue inCycle).setNextCallTime s.timeTics
    { s with
      foundJob := job
      nominalCycle := inCycle
      nextCycle := ((job.nextTics - prevTics : Int) : ℚ) / s.timeTicValue }

/-- `integrate`.  `pre` are the requests of the pre-integration jobs, `during` those of the jobs
    called after them; a status that is not zero ends it early. -/
def integrate (s : IntegLoop) (pre during : List ℚ) (status : Int) : IntegLoop :=
  let tEnd := s.simTime
  let tStart := tEnd - s.nextCycle
  let s := pre.foldl setIntegCycle s
  let s := { s with calls := s.calls ++ [⟨s.timeTics, tStart, tStart + s.nextCycle⟩] }
  let s := during.foldl setIntegCycle s
  if status ≠ 0 then s else { s with nextCycle := s.nominalCycle }

/-- What `find_next_job` does to the job. -/
def rescheduled (s : IntegLoop) : IntegLoop :=
  { s with foundJob := s.foundJob.visited s.timeTics, visited := true }

/-- The walk comes to the job: if it is due it is rescheduled and called. -/
def walk (s : IntegLoop) (pre during : List ℚ) (status : Int) : IntegLoop :=
  if s.foundJob.Due s.timeTics then s.rescheduled.integrate pre during status else s.rescheduled

end IntegLoop

/-- The next stop of the clock: the next call time of the job if that is later than now, or an
    earlier stop for something else, `others + 1` tics from now. -/
def nextStop (time next : Int) (others : Nat) : Int :=
  if time < next then min next (time + 1 + others) else time + 1 + others

/-- What happens in a run, as far as the loop can tell. -/
inductive Event where
  | setIntegCycle (inCycle : ℚ)
  | walk (pre during : List ℚ) (status : Int)
  | advance (others : Nat)

namespace IntegLoop

/-- **One event.**  The walk comes to the job once between two advances of the clock. -/
def step (s : IntegLoop) : Event → IntegLoop
  | .setIntegCycle c => s.setIntegCycle c
  | .walk pre during status => if s.visited = true then s else s.walk pre during status
  | .advance others =>
    if s.visited = true then
      { s with timeTics := nextStop s.timeTics s.foundJob.nextTics others, visited := false }
    else s

/-- The tic up to which the state has been integrated: that of the last call, `start` before it. -/
def lastTics (start : Int) (s : IntegLoop) : Int := (s.calls.getLast?.map Call.tic).getD start

/-! ## Conditions on the requests -/

/-- A cycle of one or more whole tics. -/
def WholeTics (v : Int) (c : ℚ) : Prop := 1 ≤ roundTics v c ∧ c * v = roundTics v c

instance (v : Int) (c : ℚ) : Decidable (WholeTics v c) := inferInstanceAs (Decidable (_ ∧ _))

/-- **A request outside the loop**: the last call was one cycle before the next one, so no other
    request that moved the next call is pending. -/
def RequestOk (start : Int) (s : IntegLoop) (c : ℚ) : Prop :=
  WholeTics s.timeTicValue c ∧ s.foundJob.nextTics - s.foundJob.cycleTics = s.lastTics start

instance (start : Int) (s : IntegLoop) (c : ℚ) : Decidable (RequestOk start s c) :=
  inferInstanceAs (Decidable (_ ∧ _))

/-- **A request during the call**: the current tic is a multiple of the new cycle.  The
    pre-integration jobs may only ask for the cycle that is being integrated, and not after the
    last call. -/
def CallOk (start : Int) (s : IntegLoop) (pre during : List ℚ) (status : Int) : Prop :=
  status = 0 ∧
    (∀ c ∈ pre, WholeTics s.timeTicValue c ∧ roundTics s.timeTicValue c ∣ s.timeTics ∧
      roundTics s.timeTicValue c = s.timeTics - s.lastTics start ∧
      s.timeTics + s.foundJob.cycleTics ≤ s.foundJob.stopTics) ∧
    ∀ c ∈ during, WholeTics s.timeTicValue c ∧ roundTics s.timeTicValue c ∣ s.timeTics

instance (start : Int) (s : IntegLoop) (pre during : List ℚ) (status : Int) :
    Decidable (CallOk start s pre during status) := inferInstanceAs (Decidable (_ ∧ _ ∧ _))

/-- **The condition on an event.**  The clock stays within the range of a tic. -/
def EventOk (start : Int) (s : IntegLoop) : Event → Prop
  | .setIntegCycle c => RequestOk start s c
  | .walk pre during status =>
    s.visited = false → s.foundJob.Due s.timeTics → CallOk start s pre during status
  | .advance others =>
    s.visited = true → nextStop s.timeTics s.foundJob.nextTics others < maxLongLong

instance (start : Int) (s : IntegLoop) : (e : Event) → Decidable (EventOk start s e)
  | .setIntegCycle c => inferInstanceAs (Decidable (RequestOk start s c))
  | .walk pre during status =>
    inferInstanceAs (Decidable (_ → _ → CallOk start s pre during status))
  | .advance _ => inferInstanceAs (Decidable (_ → _))

/-! ## The invariant -/

/-- **The interval that the next call will integrate begins where the last one ended.** -/
structure Inv (start : Int) (s : IntegLoop) : Prop where
  tic : 1 ≤ s.timeTicValue
  found : s.loopsFound = 1
  enabled : s.foundJob.disabled = false
  user : s.foundJob.systemJobClass = false
  cycle : 1 ≤ s.foundJob.cycleTics
  nominal : s.nominalCycle * s.timeTicValue = s.foundJob.cycleTics
  range : s.timeTics < maxLongLong
  tiles : Tiles ((start : ℚ) / s.timeTicValue) ((s.lastTics start : ℚ) / s.timeTicValue)
    (s.calls.map Call.interval)
  stops : ∀ c ∈ s.calls, c.tStop = (c.tic : ℚ) / s.timeTicValue
  behind : s.visited = true → s.timeTics < s.foundJob.nextTics
  ahead : s.visited = false → s.timeTics ≤ s.foundJob.nextTics
  pending : s.foundJob.nextTics = maxLongLong ∨
    s.nextCycle * s.timeTicValue = s.foundJob.nextTics - s.lastTics start

variable {start : Int} {s : IntegLoop} {c : ℚ}

/-- What a request does to a loop with exactly one job. -/
theorem setIntegCycle_eq (h : s.loopsFound = 1) (c : ℚ) :
    s.setIntegCycle c =
      { s with
        foundJob := (s.foundJob.setCycle s.timeTicValue c).setNextCallTime s.timeTics
        nominalCycle := c
        nextCycle := ((((s.foundJob.setCycle s.timeTicValue c).setNextCallTime
          s.timeTics).nextTics - (s.foundJob.nextTics - s.foundJob.cycleTics) : Int) : ℚ) /
            s.timeTicValue } := by
  unfold setIntegCycle
  rw [if_neg (not_not.mpr h)]

/-- A quotient by the length of a tic, times the length of a tic. -/
theorem div_tic_mul {v : Int} (hv : 1 ≤ v) (q : ℚ) : q / v * v = q := by
  have hpos : (0 : ℚ) < v := by exact_mod_cast (lt_of_lt_of_le one_pos hv)
  exact div_mul_cancel₀ q (ne_of_gt hpos)

/-- **A request in good time keeps the invariant.** -/
theorem Inv.request (h : Inv start s) (hc : RequestOk start s c) :
    Inv start (s.setIntegCycle c) := by
  obtain ⟨⟨hone, hwhole⟩, hlast⟩ := hc
  have hge := JobData.setNextCallTime_ge (t := s.timeTics)
    (j := s.foundJob.setCycle s.timeTicValue c) hone
  rw [setIntegCycle_eq h.found]
  refine ⟨h.tic, h.found, h.enabled, h.user, hone, hwhole, h.range, h.tiles, h.stops, ?_, ?_, ?_⟩
  · intro hv
    exact JobData.setNextCallTime_gt hone (h.behind hv)
  · intro _
    exact hge
  · right
    show _ / (s.timeTicValue : ℚ) * s.timeTicValue = _
    rw [div_tic_mul h.tic, hlast]
    push_cast
    rfl

/-! ## The call -/

/-- **Inside a call**: the clock and the log stand where they stood at `s₀`, and the job is due one
    cycle from now, or never again. -/
structure InCall (s₀ s : IntegLoop) : Prop where
  timeTicValue : s.timeTicValue = s₀.timeTicValue
  timeTics : s.timeTics = s₀.timeTics
  calls : s.calls = s₀.calls
  visited : s.visited = true
  tic : 1 ≤ s.timeTicValue
  found : s.loopsFound = 1
  enabled : s.foundJob.disabled = false
  user : s.foundJob.systemJobClass = false
  cycle : 1 ≤ s.foundJob.cycleTics
  nominal : s.nominalCycle * s.timeTicValue = s.foundJob.cycleTics
  later : s.timeTics < s.foundJob.nextTics
  next : s.foundJob.nextTics = maxLongLong ∨
    s.foundJob.nextTics = s.timeTics + s.foundJob.cycleTics

variable {s₀ : IntegLoop}

/-- A request at a multiple of the new cycle puts the next call one cycle from now. -/
theorem InCall.request (h : InCall s₀ s) (hw : WholeTics s₀.timeTicValue c)
    (hdvd : roundTics s₀.timeTicValue c ∣ s₀.timeTics) :
    InCall s₀ (s.setIntegCycle c) ∧
      (s.setIntegCycle c).foundJob.nextTics =
        s.timeTics + (s.setIntegCycle c).foundJob.cycleTics ∧
      (s.setIntegCycle c).nextCycle * s.timeTicValue =
        ((s.timeTics + roundTics s.timeTicValue c -
          (s.foundJob.nextTics - s.foundJob.cycleTics) : Int) : ℚ) := by
  rw [← h.timeTicValue] at hw hdvd
  rw [← h.timeTics] at hdvd
  obtain ⟨hone, hwhole⟩ := hw
  have hnext : ((s.foundJob.setCycle s.timeTicValue c).setNextCallTime s.timeTics).nextTics =
      s.timeTics + roundTics s.timeTicValue c := by
    have hmod : Int.tmod s.timeTics (roundTics s.timeTicValue c) = 0 :=
      Int.tmod_eq_zero_of_dvd hdvd
    show (if s.foundJob.nextTics > s.timeTics then
      s.timeTics - Int.tmod s.timeTics (roundTics s.timeTicValue c) + roundTics s.timeTicValue c
      else s.timeTics) = _
    rw [if_pos h.later, hmod]
    omega
  have hcyc : ((s.foundJob.setCycle s.timeTicValue c).setNextCallTime s.timeTics).cycleTics =
      roundTics s.timeTicValue c := rfl
  rw [setIntegCycle_eq h.found]
  refine ⟨⟨h.timeTicValue, h.timeTics, h.calls, h.visited, h.tic, h.found, h.enabled, h.user, hone,
    hwhole, ?_, Or.inr hnext⟩, hnext, ?_⟩
  · show s.timeTics < ((s.foundJob.setCycle s.timeTicValue c).setNextCallTime s.timeTics).nextTics
    rw [hnext]
    omega
  · show _ / (s.timeTicValue : ℚ) * s.timeTicValue = _
    rw [div_tic_mul h.tic, hnext]

/-- The requests of the jobs after the pre-integration jobs. -/
theorem InCall.during (h : InCall s₀ s) :
    ∀ {cs : List ℚ}, (∀ c ∈ cs, WholeTics s₀.timeTicValue c ∧
      roundTics s₀.timeTicValue c ∣ s₀.timeTics) → InCall s₀ (cs.foldl setIntegCycle s) := by
  intro cs
  induction cs generalizing s with
  | nil => intro _; exact h
  | cons c cs ih =>
    intro hcs
    obtain ⟨hw, hdvd⟩ := hcs c (List.mem_cons_self ..)
    exact ih (h.request hw hdvd).1 fun c' hc' => hcs c' (List.mem_cons_of_mem _ hc')

/-- **The pre-integration jobs leave the interval alone**: they may only ask for the cycle that is
    being integrated. -/
theorem InCall.pre (h : InCall s₀ s) {dt : Int} (hdt : s.nextCycle * s.timeTicValue = dt) :
    ∀ {cs : List ℚ}, (∀ c ∈ cs, WholeTics s₀.timeTicValue c ∧
      roundTics s₀.timeTicValue c ∣ s₀.timeTics ∧ roundTics s₀.timeTicValue c = dt ∧
      s.foundJob.nextTics = s.timeTics + s.foundJob.cycleTics) →
      InCall s₀ (cs.foldl setIntegCycle s) ∧
        (cs.foldl setIntegCycle s).nextCycle * s₀.timeTicValue = dt := by
  intro cs
  induction cs generalizing s with
  | nil =>
    intro _
    exact ⟨h, by rw [← h.timeTicValue]; exact hdt⟩
  | cons c cs ih =>
    intro hcs
    obtain ⟨hw, hdvd, hk, hnext⟩ := hcs c (List.mem_cons_self ..)
    obtain ⟨hin, hnext', hcyc⟩ := h.request hw hdvd
    refine ih hin ?_ fun c' hc' => ?_
    · -- the last call was now, so the next interval is the new cycle
      rw [hin.timeTicValue, ← h.timeTicValue, hcyc, h.timeTicValue, hk, hnext]
      congr 1
      omega
    · obtain ⟨hw', hdvd', hk', _⟩ := hcs c' (List.mem_cons_of_mem _ hc')
      refine ⟨hw', hdvd', hk', ?_⟩
      rw [hin.timeTics, ← h.timeTics]
      exact hnext'

/-- The job at the beginning of its call. -/
theorem Inv.inCall (h : Inv start s) (hnext : s.foundJob.nextTics = s.timeTics) :
    InCall s.rescheduled s.rescheduled ∧
      (s.timeTics + s.foundJob.cycleTics ≤ s.foundJob.stopTics →
        s.rescheduled.foundJob.nextTics = s.timeTics + s.rescheduled.foundJob.cycleTics) := by
  have hjob : s.rescheduled.foundJob = s.foundJob.reschedule := by
    show s.foundJob.visited s.timeTics = _
    unfold JobData.visited
    rw [if_pos ⟨hnext, h.user⟩]
  have htime : (s.rescheduled.foundJob).nextTics =
      if s.timeTics + s.foundJob.cycleTics > s.foundJob.stopTics then maxLongLong
      else s.timeTics + s.foundJob.cycleTics := by
    rw [hjob]
    show (if s.foundJob.nextTics + s.foundJob.cycleTics > s.foundJob.stopTics then maxLongLong
      else s.foundJob.nextTics + s.foundJob.cycleTics) = _
    rw [hnext]
  have hcyc : s.rescheduled.foundJob.cycleTics = s.foundJob.cycleTics := by rw [hjob]; rfl
  have hone := h.cycle
  have hrange := h.range
  refine ⟨⟨rfl, rfl, rfl, rfl, h.tic, h.found, ?_, ?_, ?_, ?_, ?_, ?_⟩, ?_⟩
  · rw [hjob]; exact h.enabled
  · rw [hjob]; exact h.user
  · rw [hcyc]; exact hone
  · rw [hcyc]; exact h.nominal
  · show s.timeTics < s.rescheduled.foundJob.nextTics
    rw [htime]
    split <;> omega
  · show _ ∨ s.rescheduled.foundJob.nextTics = s.timeTics + s.rescheduled.foundJob.cycleTics
    rw [htime, hcyc]
    split
    · exact Or.inl rfl
    · exact Or.inr rfl
  · intro hle
    rw [htime, hcyc, if_neg (not_lt.mpr hle)]

/-- **A call in good order keeps the invariant.** -/
theorem Inv.call (h : Inv start s) (hnext : s.foundJob.nextTics = s.timeTics)
    {pre during : List ℚ} (hok : CallOk start s pre during 0) :
    Inv start (s.rescheduled.integrate pre during 0) := by
  obtain ⟨_, hpre, hduring⟩ := hok
  obtain ⟨hin, hcycle⟩ := h.inCall hnext
  -- the interval begins where the last one ended
  have hdt : s.nextCycle * s.timeTicValue = ((s.timeTics - s.lastTics start : Int) : ℚ) := by
    rcases h.pending with hmax | hp
    · have := h.range; omega
    · rw [hp, hnext]; push_cast; rfl
  obtain ⟨hin1, hdt1⟩ := hin.pre hdt fun c hc => by
    obtain ⟨h1, h2, h3, h4⟩ := hpre c hc
    exact ⟨h1, h2, h3, hcycle h4⟩
  have hpos : (0 : ℚ) < s.timeTicValue := by exact_mod_cast (lt_of_lt_of_le one_pos h.tic)
  have hstart : s.simTime - s.nextCycle = (s.lastTics start : ℚ) / s.timeTicValue := by
    unfold simTime
    rw [eq_div_iff (ne_of_gt hpos), sub_mul, div_tic_mul h.tic, hdt]
    push_cast
    ring
  have hstop : s.simTime - s.nextCycle + (pre.foldl setIntegCycle s.rescheduled).nextCycle =
      s.simTime := by
    have heq : (pre.foldl setIntegCycle s.rescheduled).nextCycle = s.nextCycle := by
      refine mul_right_cancel₀ (ne_of_gt hpos) ?_
      rw [hdt]
      exact hdt1
    rw [heq, sub_add_cancel]
  -- the log, and the requests after the interval has been fixed
  have hlog : InCall
      { s.rescheduled with calls := s.calls ++ [⟨s.timeTics, s.simTime - s.nextCycle, s.simTime⟩] }
      { pre.foldl setIntegCycle s.rescheduled with
        calls := s.calls ++ [⟨s.timeTics, s.simTime - s.nextCycle, s.simTime⟩] } :=
    { hin1 with calls := rfl }
  have hin2 := hlog.during hduring
  have hres : s.rescheduled.integrate pre during 0 =
      (let s' := during.foldl setIntegCycle { pre.foldl setIntegCycle s.rescheduled with
          calls := s.calls ++ [⟨s.timeTics, s.simTime - s.nextCycle, s.simTime⟩] }
       { s' with nextCycle := s'.nominalCycle }) := by
    unfold integrate
    simp only [ne_eq, not_true_eq_false, if_false]
    have h1 : s.rescheduled.simTime - s.rescheduled.nextCycle = s.simTime - s.nextCycle := rfl
    rw [h1, hstop, hin1.timeTics, hin1.calls]
    rfl
  rw [hres]
  generalize during.foldl setIntegCycle _ = s' at hin2
  have hcalls : s'.calls = s.calls ++ [⟨s.timeTics, s.simTime - s.nextCycle, s.simTime⟩] :=
    hin2.calls
  have hlast : s'.lastTics start = s.timeTics := by
    unfold lastTics
    rw [hcalls]
    simp
  refine ⟨hin2.tic, hin2.found, hin2.enabled, hin2.user, hin2.cycle, hin2.nominal, ?_, ?_, ?_,
    fun _ => hin2.later, ?_, ?_⟩
  · show s'.timeTics < maxLongLong
    rw [hin2.timeTics]; exact h.range
  · show Tiles ((start : ℚ) / s'.timeTicValue) ((s'.lastTics start : ℚ) / s'.timeTicValue)
      (s'.calls.map Call.interval)
    rw [hlast, hcalls, hin2.timeTicValue, List.map_append]
    have hsim : ((s.timeTics : ℚ) / s.timeTicValue) = s.simTime := rfl
    show Tiles _ ((s.timeTics : ℚ) / s.timeTicValue) (_ ++ [(s.simTime - s.nextCycle, s.simTime)])
    rw [hsim, hstart]
    exact h.tiles.snoc
  · intro c hc
    have hc' : c ∈ s.calls ++ [⟨s.timeTics, s.simTime - s.nextCycle, s.simTime⟩] := hcalls ▸ hc
    show c.tStop = (c.tic : ℚ) / s'.timeTicValue
    rw [hin2.timeTicValue]
    rcases List.mem_append.mp hc' with hc' | hc'
    · exact h.stops c hc'
    · rw [List.mem_singleton.mp hc']
      rfl
  · intro hv
    have hv' : s'.visited = false := hv
    rw [hin2.visited] at hv'
    cases hv'
  · show s'.foundJob.nextTics = maxLongLong ∨
      s'.nominalCycle * s'.timeTicValue = s'.foundJob.nextTics - s'.lastTics start
    rcases hin2.next with hmax | hn
    · exact Or.inl hmax
    · right
      have ht : s'.timeTics = s.timeTics := hin2.timeTics
      rw [hin2.nominal, hlast, hn, ht]
      push_cast
      ring

/-! ## The result -/

/-- **Step lemma.** -/
theorem step_inv (h : Inv start s) {e : Event} (hok : EventOk start s e) :
    Inv start (s.step e) := by
  cases e with
  | setIntegCycle c => exact h.request hok
  | walk pre during status =>
    show Inv start (if s.visited = true then s else s.walk pre during status)
    split
    · exact h
    · rename_i hv
      have hv' : s.visited = false := by simpa using hv
      unfold walk
      split
      · rename_i hdue
        have hcall := hok hv' hdue
        obtain rfl : status = 0 := hcall.1
        exact h.call hdue.1 hcall
      · -- an enabled job that is not due is later
        rename_i hdue
        have hlater : s.timeTics < s.foundJob.nextTics := by
          rcases lt_or_eq_of_le (h.ahead hv') with hlt | heq
          · exact hlt
          · exact absurd ⟨heq.symm, h.enabled⟩ hdue
        have hjob : s.foundJob.visited s.timeTics = s.foundJob :=
          JobData.visited_of_ne (ne_of_gt hlater)
        have hres : s.rescheduled = { s with visited := true } := by
          unfold rescheduled
          rw [hjob]
        rw [hres]
        exact { h with behind := fun _ => hlater, ahead := fun hf => by cases hf }
  | advance others =>
    show Inv start (if s.visited = true then
      { s with timeTics := nextStop s.timeTics s.foundJob.nextTics others, visited := false } else s)
    split
    · rename_i hv
      have hle : nextStop s.timeTics s.foundJob.nextTics others ≤ s.foundJob.nextTics := by
        unfold nextStop
        rw [if_pos (h.behind hv)]
        exact min_le_left _ _
      exact { h with
        range := hok hv
        behind := fun hf => by cases hf
        ahead := fun _ => hle }
    · exact h

/-- **A loop at the start of its run**: its job is enabled and due one cycle after `start`. -/
structure Started (start : Int) (s : IntegLoop) : Prop where
  tic : 1 ≤ s.timeTicValue
  found : s.loopsFound = 1
  enabled : s.foundJob.disabled = false
  user : s.foundJob.systemJobClass = false
  cycle : 1 ≤ s.foundJob.cycleTics
  next : s.foundJob.nextTics = start + s.foundJob.cycleTics
  range : s.timeTics < maxLongLong
  time : s.timeTics ≤ start
  nominal : s.nominalCycle * s.timeTicValue = s.foundJob.cycleTics
  nextCycle : s.nextCycle = s.nominalCycle
  visited : s.visited = true
  calls : s.calls = []

theorem Started.inv (h : Started start s) : Inv start s := by
  have hlast : s.lastTics start = start := by unfold lastTics; rw [h.calls]; rfl
  have hc := h.cycle
  have ht := h.time
  refine ⟨h.tic, h.found, h.enabled, h.user, h.cycle, h.nominal, h.range, ?_, ?_, ?_, ?_, ?_⟩
  · rw [hlast, h.calls]; rfl
  · rw [h.calls]; intro c hc; cases hc
  · intro _; rw [h.next]; omega
  · rw [h.visited]; intro hf; cases hf
  · right
    rw [hlast, h.next, h.nextCycle, h.nominal]
    push_cast
    ring

/-- An integ_loop job with a cycle of ten tics. -/
def integLoopJob : JobData where
  jobClassName := .integLoop
  cycle := 1
  cycleTics := 10
  nextTics := 10
  stopTics := maxLongLong

/-- A loop with a cycle of one second, ten tics a second. -/
def oneSecond : IntegLoop where
  timeTicValue := 10
  timeTics := 0
  foundJob := integLoopJob
  nominalCycle := 1
  nextCycle := 1

/-- The clock goes to the next stop, and the walk comes to the job. -/
def stop (others : Nat) : List Event := [.advance others, .walk [] [] 0]

end IntegLoop

end Trick.Integ
