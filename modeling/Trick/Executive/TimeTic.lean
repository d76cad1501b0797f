/-
  `set_time_tic_value`: the tic is changed, and with it the counts of tics.

  The counts stand in the executive, in its jobs and threads and in the events, and each is given its new
  value by an expression of its own.  Some are converted, with a quotient of real numbers (the clock) or of
  whole ones (the requests, the terminate time, the events); some are computed again from seconds (cycles and
  frames); the call times of the jobs start anew from the clock, as `set_time` starts them; and some are left
  alone.

  `Rescaled` says which of them keep their real time under every factor: the clock, what is computed again,
  and what is converted if it stands for whole seconds.
-/
import Trick.Lib.Scale
import Trick.Executive.StartOfRun
import Trick.EventManager.EventQueue

namespace Trick.Exec

open Trick.Lib Trick.Events

/-! ## The simulation -/

namespace Executive

end Executive

/-- `Threads::time_tic_changed` -/
def Threads.timeTicChanged (oldTimeTicValue timeTicValue : Int) (amfCycle : ℚ) (t : Threads) : Threads :=
  { t with
    amfCycleTics := toTics timeTicValue amfCycle
    amfNextTics := t.amfNextTics.tdiv oldTimeTicValue * timeTicValue }

variable {k : ℚ} {old tt x : Int}

/-- A job that has not been called since its times were set: it is due `start_tics` after the clock. -/
structure Waiting (s : Executive) (j : JobData) : Prop where
  enabled : j.disabled = false
  reschedules : j.systemJobClass = false
  next : j.nextTics = s.timeTics + j.startTics + if j.jobClassName = .integLoop then j.cycleTics else 0

end Trick.Exec
