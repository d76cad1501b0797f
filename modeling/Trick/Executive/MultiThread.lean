/-
  What a child thread that was late catches up.

  The main thread, in `thread_sync`, brings the next frame of an asynchronous child up to the time, and
  the child, in `Threads::thread_body`, the call times of its jobs up to the frame that it begins.  The
  loops of the source end after as many turns as there are tics between the two.
-/
import Trick.Executive.LoopSingleThread

namespace Trick.Exec

namespace MultiThread

/-- `while ( amf_next_tics < time_tics ) amf_next_tics += amf_cycle_tics`, for at most so many
    turns. -/
def catchUp (cycle limit : Int) : Nat → Int → Int
  | 0, next => next
  | n + 1, next => if next < limit then catchUp cycle limit n (next + cycle) else next

/-- A job brought up to a frame of its thread. -/
def catchUpJob (startFrame : Int) (j : JobData) : JobData :=
  let next := catchUp j.cycleTics startFrame (startFrame - j.nextTics).toNat j.nextTics
  { j with nextTics := next }

/-- The asynchronous thread brings the call times of its jobs up to its frame. -/
def catchUpJobs (jobs : JobHeap) (t : Threads) : JobHeap := fun i =>
  if i ∈ t.jobQueue.list ∧ (jobs i).disabled = false then
    catchUpJob (t.amfNextTics - t.amfCycleTics) (jobs i)
  else jobs i

end MultiThread

end Trick.Exec
