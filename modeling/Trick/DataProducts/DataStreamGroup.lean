/-
  `DataStreamGroup.cpp`: several logs read as one.

  1. **Data.**  A stream is the records of a log and what of them has not been read; `end` says that nothing is
     left.  The group keeps for every stream the time it is at (`currTime_`) and the record that was read last
     (`lastRead_`).  Times are rational numbers up to `dblMax`, which also stands for "no more records".

  2. **Program.**  `begin`, `getTime`, `stepInTime`, `step` and `matchTimeStamps`.  The loops that need not end
     (`step` with a frequency, `begin`) take as many turns as `fuel` allows and fail if that is not enough.

  3. **Use of it** (`times`): `begin(); while (!end()) { getTime(); step(); }`.
-/
import Mathlib

namespace Trick.Log

/-! ## Streams -/

/-- `DBL_MAX` -/
def dblMax : ℚ := (2 ^ 53 - 1) * 2 ^ 971

/-- A time stamp and a value. -/
abbrev Record (ν : Type) := ℚ × ν

/-- **`DataStream`** -/
structure DataStream (ν : Type) where
  records : List (Record ν)
  rest : List (Record ν)

namespace DataStream

variable {ν : Type}

/-- `get`: the next record is read. -/
def get (s : DataStream ν) : Option (Record ν × DataStream ν) :=
  match s.rest with
  | [] => none
  | r :: rest => some (r, { s with rest := rest })

/-- `peek` -/
def peek (s : DataStream ν) : Option (Record ν) := s.rest.head?

/-- `begin` -/
def begin (s : DataStream ν) : DataStream ν := { s with rest := s.records }

/-- `end` -/
def atEnd (s : DataStream ν) : Bool := s.rest.isEmpty

end DataStream

/-- A stream of the group with its entries of `currTime_` and `lastRead_`. -/
structure Slot (ν : Type) where
  stream : DataStream ν
  currTime : ℚ
  lastRead : Record ν

namespace Slot

variable {ν : Type}

/-- The entry of `currTime_` that `getTime` makes. -/
def look (s : Slot ν) : Slot ν := { s with currTime := (s.stream.peek.map Prod.fst).getD dblMax }

/-- A stream at the time `minTime` goes on. -/
def take (minTime : ℚ) (s : Slot ν) : Slot ν :=
  if s.currTime = minTime ∧ s.stream.atEnd = false then { s with stream := (s.stream.get.map Prod.snd).getD s.stream }
  else s

/-- "Grab data from each stream without stepping" -/
def grab (s : Slot ν) : Slot ν := { s with lastRead := s.stream.peek.getD s.lastRead }

/-- `get(&lastRead_.time, &lastRead_.value)` -/
def next (s : Slot ν) : Option (Slot ν) :=
  s.stream.get.map fun r => { s with lastRead := r.1, stream := r.2 }

/-- Records are read while they are before `maxTime`: the last one, what is left, and whether there was one. -/
def passRest (maxTime tolerance : ℚ) : Record ν → List (Record ν) → (Record ν × List (Record ν)) × Bool
  | last, [] => ((last, []), ¬ tolerance < maxTime - last.1)
  | last, r :: rest =>
    if tolerance < maxTime - last.1 then passRest maxTime tolerance r rest else ((last, r :: rest), true)

/-- "keep getting records" of one stream. -/
def pass (maxTime tolerance : ℚ) (s : Slot ν) : Slot ν × Bool :=
  let r := passRest maxTime tolerance s.lastRead s.stream.rest
  ({ s with lastRead := r.1.1, stream := { s.stream with rest := r.1.2 } }, r.2)

end Slot

/-- **`DataStreamGroup`** -/
structure DataStreamGroup (ν : Type) where
  dataStreams : List (Slot ν)
  preserveTime : Bool
  frequency : ℚ
  startTime : ℚ
  stopTime : ℚ
  nextFrequencyCheck : ℚ
  frequencyMultiple : ℚ
  timeMatchTolerance : ℚ
  isEOF : Bool

/-- `DPLOG_ABS` -/
def dplogAbs (x : ℚ) : ℚ := if x < 0 then -x else x

namespace DataStreamGroup

variable {ν : Type}

/-! ## Stepping -/

/-- `NEXTFREQ_EQUALS_MINTIME` -/
def nextFreqEquals (g : DataStreamGroup ν) (minTime : ℚ) : Bool :=
  dplogAbs (g.nextFrequencyCheck - minTime) < g.timeMatchTolerance

/-- `NEXTFREQ_LESSTHAN_MINTIME` -/
def nextFreqLessThan (g : DataStreamGroup ν) (minTime : ℚ) : Bool :=
  g.nextFrequencyCheck - minTime < 0 ∧ g.nextFreqEquals minTime = false

/-- `NEXTFREQ_INCR` -/
def nextFreqIncr (g : DataStreamGroup ν) : DataStreamGroup ν :=
  { g with frequencyMultiple := g.frequencyMultiple + 1,
           nextFrequencyCheck := (g.frequencyMultiple + 1) * g.frequency }

/-- "Bump nextFrequencyCheck past minTime" -/
def bump (minTime : ℚ) : Nat → DataStreamGroup ν → Option (DataStreamGroup ν)
  | 0, _ => none
  | n + 1, g => if g.nextFreqLessThan minTime = true then bump minTime n g.nextFreqIncr else some g

/-- **`getTime`**: "minimum time stamp across all data streams". -/
def getTime (g : DataStreamGroup ν) : DataStreamGroup ν × ℚ :=
  let slots := g.dataStreams.map Slot.look
  ({ g with dataStreams := slots },
    slots.foldl (fun minTime s => if s.currTime < minTime then s.currTime else minTime) dblMax)

/-- The second half of `stepInTime_`: the frequency and the stop time. -/
def checkTime (fuel : Nat) (g : DataStreamGroup ν) (minTime : ℚ) : Option (DataStreamGroup ν × Bool) :=
  if g.stopTime < minTime then some ({ g with isEOF := true }, true)
  else if g.nextFrequencyCheck = dblMax then some (g, true)
  -- "Frequency synced with a data point"
  else if g.nextFreqEquals minTime = true then some (g.nextFreqIncr, true)
  -- "Mintime exceeded nextFreqCheck"
  else if 0 < minTime - g.nextFrequencyCheck then
    (g.bump minTime fuel).map fun g => if g.nextFreqEquals minTime = true then (g.nextFreqIncr, true) else (g, false)
  -- "Need to iterate again"
  else some (g, false)

/-- **`stepInTime_`** -/
def stepInTime (fuel : Nat) (g : DataStreamGroup ν) : Option (DataStreamGroup ν × Bool) :=
  let (g, minTime) := g.getTime
  let g := { g with dataStreams := g.dataStreams.map (Slot.take minTime) }
  -- "Check for end of file"
  if ∀ s ∈ g.dataStreams, s.stream.atEnd = true then some ({ g with isEOF := true }, true)
  else
    let (g, minTime) := g.getTime
    g.checkTime fuel minTime

/-- `while ( ! stepInTime_() )` -/
def stepLoop (fuel : Nat) : Nat → DataStreamGroup ν → Option (DataStreamGroup ν)
  | 0, _ => none
  | n + 1, g => (g.stepInTime fuel).bind fun r => if r.2 = true then some r.1 else stepLoop fuel n r.1

/-- Some stream is at another time than the first. -/
def stepAgain (g : DataStreamGroup ν) : Bool :=
  match g.dataStreams with
  | [] => false
  | s :: slots => slots.any fun s' => s.currTime ≠ s'.currTime

/-- **`step`**, with at most `n` calls of itself. -/
def step (fuel : Nat) : Nat → DataStreamGroup ν → Option (DataStreamGroup ν)
  | 0, _ => none
  | n + 1, g => (g.stepLoop fuel fuel).bind fun g =>
    -- "Keep all time stamps from data streams on same time stamp"
    if g.preserveTime = true ∧ g.stepAgain = true then step fuel n g else some g

/-- "continue marching through time until start time reached" -/
def march (fuel : Nat) : Nat → ℚ → DataStreamGroup ν → Option (DataStreamGroup ν)
  | 0, _, _ => none
  | n + 1, timeStamp, g =>
    if timeStamp < g.startTime then
      (g.step fuel fuel).bind fun g => march fuel n g.getTime.2 g.getTime.1
    else some g

/-- What `begin` does before it marches. -/
def reset (g : DataStreamGroup ν) : DataStreamGroup ν :=
  let check := if g.frequency = 0 then dblMax
    else if g.startTime = 0 then g.startTime + g.frequency else g.startTime
  let slots := g.dataStreams.map fun s => { s with stream := s.stream.begin }
  { g with dataStreams := slots, nextFrequencyCheck := check, frequencyMultiple := 0, isEOF := false }

/-- **`begin`** -/
def begin (fuel : Nat) (g : DataStreamGroup ν) : Option (DataStreamGroup ν) :=
  (g.reset.march fuel fuel 0).map fun g => { g with dataStreams := g.dataStreams.map Slot.grab }

/-- `while (!end()) { getTime(); step(); }`: the times that are seen. -/
def loop (fuel : Nat) : Nat → DataStreamGroup ν → Option (List ℚ)
  | 0, _ => none
  | n + 1, g =>
    if g.isEOF = true then some []
    else (g.getTime.1.step fuel fuel).bind fun g' => (loop fuel n g').map (g.getTime.2 :: ·)

/-- **The times that are seen.** -/
def times (fuel : Nat) (g : DataStreamGroup ν) : Option (List ℚ) := (g.begin fuel).bind fun g => g.loop fuel fuel

/-! ## Matching -/

/-- "get the next record out of the file", up to the first stream that has none. -/
def nextEach : List (Slot ν) → List (Slot ν) × Bool
  | [] => ([], true)
  | s :: slots =>
    match Slot.next s with
    | none => (s :: slots, false)
    | some s => ((s :: (nextEach slots).1), (nextEach slots).2)

/-- "find the maximum time stamp" -/
def maximum (startTime : ℚ) (slots : List (Slot ν)) : ℚ :=
  slots.foldl (fun maxTime s => if maxTime < s.lastRead.1 then s.lastRead.1 else maxTime) startTime

/-- "keep getting records from the all streams until we past the largest time step" -/
def passEach (maxTime tolerance : ℚ) : List (Slot ν) → List (Slot ν) × Bool
  | [] => ([], true)
  | s :: slots =>
    let (s, ok) := Slot.pass maxTime tolerance s
    if ok = false then (s :: slots, false)
    else (s :: (passEach maxTime tolerance slots).1, (passEach maxTime tolerance slots).2)

/-- **One turn of the inner loop**: the largest time and whether all streams match it, or nothing where
    `matchTimeStamps` returns 0. -/
def matchTurn (g : DataStreamGroup ν) : DataStreamGroup ν × Option (ℚ × Bool) :=
  let (slots, ok) := nextEach g.dataStreams
  if ok = false then ({ g with dataStreams := slots, isEOF := true }, none)
  else
    let maxTime := maximum g.startTime slots
    if g.stopTime < maxTime then ({ g with dataStreams := slots, isEOF := true }, none)
    else
      let (slots, ok) := passEach maxTime g.timeMatchTolerance slots
      if ok = false then ({ g with dataStreams := slots, isEOF := true }, none)
      else
        let matched := slots.all fun s => ¬ g.timeMatchTolerance < dplogAbs (s.lastRead.1 - maxTime)
        ({ g with dataStreams := slots }, some (maxTime, matched))

/-- `while ( ! matched_time_stamps )` -/
def matchLoop : Nat → DataStreamGroup ν → Option (DataStreamGroup ν × Option ℚ)
  | 0, _ => none
  | n + 1, g =>
    match g.matchTurn with
    | (g, none) => some (g, none)
    | (g, some (maxTime, matched)) => if matched = true then some (g, some maxTime) else matchLoop n g

/-- `while ( nextFrequencyCheck_ < maxTime )` -/
def bumpMatch (maxTime : ℚ) : Nat → DataStreamGroup ν → Option (DataStreamGroup ν)
  | 0, _ => none
  | n + 1, g =>
    if g.nextFrequencyCheck < maxTime then
      bumpMatch maxTime n { g with nextFrequencyCheck := g.frequencyMultiple * g.frequency,
                                   frequencyMultiple := g.frequencyMultiple + 1 }
    else some g

/-- **`matchTimeStamps`**, with at most `n` turns of the outer loop. -/
def matchTimeStamps (fuel : Nat) : Nat → DataStreamGroup ν → Option (DataStreamGroup ν × Bool)
  | 0, _ => none
  | n + 1, g => (g.matchLoop fuel).bind fun r =>
    r.2.elim (some (r.1, false)) fun maxTime =>
      if r.1.frequency = 0 then some ({ r.1 with isEOF := false }, true)
      else (r.1.bumpMatch maxTime fuel).bind fun g =>
        if g.timeMatchTolerance < dplogAbs (g.nextFrequencyCheck - maxTime) then matchTimeStamps fuel n g
        else some ({ g with isEOF := false }, true)

end DataStreamGroup

end Trick.Log
