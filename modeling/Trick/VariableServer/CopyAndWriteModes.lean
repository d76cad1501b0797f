/-
  `VariableServerSession`: the commands that set when a session copies, and the four jobs that copy.

  The commands store what the client gives them: the cycle is the rate in tics, with the fraction cut off,
  and the multiples are stored as they are.  `var_set_copy_mode` and the frame jobs take the times and the
  frame counts modulo these values, and the scheduled jobs add the cycle to the time.

  1. **Data.**  A session with the values that the modes depend on.  The arithmetic is that of `long long`:
     a division by zero, a sum that does not fit and a rate that does not fit end the run with a `Fault`.

  2. **Program.**  `exec` is one command or one job; `freezeInit` is the job at the beginning of a freeze.

  3. **Main result** (`safe_guarded`): as long as each rate is a tic or more and each multiple is not zero,
     and the sums with the cycle fit, no modulus is zero and each scheduled copy leaves a next time behind
     the current one.  And each of these conditions is needed: after one step that breaks it some run goes
     wrong in which all the other steps meet them.
-/
import Trick.Lib.Run
import Trick.VariableServer.ScheduledCopy

namespace Trick.VarServer.CopyModes

open Trick.Lib Trick.Exec

/-! ## Arithmetic -/

/-- What a `long long` operation or a conversion cannot do. -/
inductive Fault where
  | divByZero
  | overflow
  | conversion
deriving DecidableEq, Repr

/-- A time or a count that the executive gives out. -/
abbrev Tics := { t : Int // 0 ≤ t ∧ t ≤ maxLongLong }

instance : OfNat Tics 0 := ⟨⟨0, by decide⟩⟩

/-- `a + b` of two `long long`. -/
def addTics (a b : Int) : Except Fault Int :=
  if -maxLongLong - 1 ≤ a + b ∧ a + b ≤ maxLongLong then pure (a + b) else throw .overflow

/-- `a % b`, for an `a` that is not negative. -/
def modTics (a b : Int) : Except Fault Int := if b = 0 then throw .divByZero else pure (a.tmod b)

/-- `(long long)x`; there is no `x` where the double is not finite. -/
def castTics : Option ℚ → Except Fault Int
  | none => throw .conversion
  | some x =>
    if -maxLongLong - 1 ≤ x.num.tdiv x.den ∧ x.num.tdiv x.den ≤ maxLongLong then pure (x.num.tdiv x.den)
    else throw .conversion

/-! ## Data -/

/-- `VS_WRITE_MODE` -/
inductive WriteMode where
  | async | whenCopied
deriving DecidableEq, Repr

/-- Log: a copy in scheduled mode, and the next time that it leaves. -/
structure Copy where
  time : Int
  nextTics : Int
deriving DecidableEq

/-- A session, as far as the modes are concerned. -/
structure Session where
  enabled : Bool := true
  pauseCmd : Bool := false
  exitCmd : Bool := false
  copyMode : CopyMode := .async
  writeMode : WriteMode := .async
  cycleTics : Int
  nextTics : Int := maxLongLong
  freezeNextTics : Int := maxLongLong
  frameMultiple : Int := 1
  frameOffset : Int := 0
  freezeFrameMultiple : Int := 1
  freezeFrameOffset : Int := 0
  copies : List Copy := []
deriving DecidableEq

/-- The constructor; `tics` is the default rate in tics. -/
def create (tics : Tics) : Session := { cycleTics := if tics.val = 0 then 1 else tics.val }

/-- What a job finds when it has copied: whether the run is in real time, and what `write_data` returns. -/
structure Io where
  realTime : Bool
  written : Int

/-! ## Commands -/

/-- The argument of a command is stored in an `int`. -/
def toInt (x : UInt32) : Int := x.toBitVec.toInt

/-- `var_cycle`; `scaled` is `in_rate * exec_get_time_tic_value()`. -/
def varCycle (s : Session) (scaled : Option ℚ) : Except Fault Session := do
  let cycleTics ← castTics scaled
  pure { s with cycleTics := cycleTics }

/-- The next call time, a multiple of the cycle. -/
def nextCall (s : Session) (time : Tics) : Except Fault Int := do
  let rest ← modTics time s.cycleTics
  addTics (time - rest) s.cycleTics

/-- `var_set_copy_mode` -/
def varSetCopyMode (s : Session) (mode : Int) (time freezeTime : Tics) : Except Fault Session :=
  if mode = 1 then do
    let nextTics ← nextCall s time
    let freezeNextTics ← nextCall s freezeTime
    pure { s with
      copyMode := .scheduled
      nextTics := nextTics
      freezeNextTics := freezeNextTics }
  else if mode = 0 then pure { s with copyMode := .async, nextTics := maxLongLong }
  else if mode = 2 then pure { s with copyMode := .topOfFrame, nextTics := maxLongLong }
  else pure s

/-- `var_set_write_mode` -/
def varSetWriteMode (s : Session) (mode : Int) : Session :=
  if mode = 0 then { s with writeMode := .async }
  else if mode = 1 then { s with writeMode := .whenCopied }
  else s

/-- `var_sync` -/
def varSync (s : Session) (mode : Int) (time freezeTime : Tics) : Except Fault Session :=
  if mode = 1 then do
    let s ← varSetCopyMode s 1 time freezeTime
    pure (varSetWriteMode s 0)
  else if mode = 2 then do
    let s ← varSetCopyMode s 1 time freezeTime
    pure (varSetWriteMode s 1)
  else do
    let s ← varSetCopyMode s 0 time freezeTime
    pure (varSetWriteMode s 0)

/-! ## Jobs -/

/-- `copy_sim_data`, and the write in the mode `VS_WRITE_WHEN_COPIED`. -/
def copyAndWrite (s : Session) (io : Io) : Session :=
  if s.pauseCmd = false ∧ s.writeMode = .whenCopied ∧ io.realTime = true then
    if io.written < 0 then { s with exitCmd := true } else s
  else s

/-- A job once in a frame. -/
def copyInFrame (s : Session) (frame : Tics) (multiple offset : Int) (io : Io) : Except Fault Session :=
  if s.enabled = false then pure s
  else if s.copyMode = .topOfFrame then do
    let tempFrame ← modTics frame multiple
    pure (if tempFrame = offset then copyAndWrite s io else s)
  else pure s

/-- `copy_and_write_top` -/
def copyAndWriteTop (s : Session) (currFrame : Tics) (io : Io) : Except Fault Session :=
  copyInFrame s currFrame s.frameMultiple s.frameOffset io

/-- `copy_and_write_freeze` -/
def copyAndWriteFreeze (s : Session) (currFreezeFrame : Tics) (io : Io) : Except Fault Session :=
  copyInFrame s currFreezeFrame s.freezeFrameMultiple s.freezeFrameOffset io

/-- A scheduled job copies the session. -/
def Due (s : Session) (nextTics : Int) (currTics : Tics) : Prop :=
  s.enabled = true ∧ s.copyMode = .scheduled ∧ nextTics ≤ currTics

instance (s : Session) (nextTics : Int) (currTics : Tics) : Decidable (Due s nextTics currTics) :=
  inferInstanceAs (Decidable (_ ∧ _))

/-- A scheduled job: `due` is the session's next time for it, and `store` stores the new one. -/
def copyScheduled (s : Session) (due : Int) (store : Int → Session → Session) (currTics : Tics) (io : Io) :
    Except Fault Session :=
  if Due s due currTics then do
    let s := copyAndWrite s io
    let nextTics ← addTics currTics s.cycleTics
    pure (store nextTics { s with copies := ⟨currTics, nextTics⟩ :: s.copies })
  else pure s

/-- `set_next_tics` -/
def setNextTics (tics : Int) (s : Session) : Session := { s with nextTics := tics }

/-- `set_freeze_next_tics` -/
def setFreezeNextTics (tics : Int) (s : Session) : Session := { s with freezeNextTics := tics }

/-- `copy_and_write_scheduled` -/
def copyAndWriteScheduled (s : Session) (currTics : Tics) (io : Io) : Except Fault Session :=
  copyScheduled s s.nextTics setNextTics currTics io

/-- `copy_and_write_freeze_scheduled` -/
def copyAndWriteFreezeScheduled (s : Session) (currTics : Tics) (io : Io) : Except Fault Session :=
  copyScheduled s s.freezeNextTics setFreezeNextTics currTics io

/-- `freeze_init` -/
def freezeInit (s : Session) : Session :=
  if s.enabled = true ∧ s.copyMode = .scheduled then { s with freezeNextTics := s.cycleTics }
  else { s with freezeNextTics := maxLongLong }

/-! ## Runs -/

/-- A command of the client, or a job. -/
inductive Event where
  | varCycle (scaled : Option ℚ)
  | varSetCopyMode (mode : Int) (time freezeTime : Tics)
  | varSetWriteMode (mode : Int)
  | varSync (mode : Int) (time freezeTime : Tics)
  | varSetFrameMultiple (mult : UInt32)
  | varSetFrameOffset (offset : UInt32)
  | varSetFreezeFrameMultiple (mult : UInt32)
  | varSetFreezeFrameOffset (offset : UInt32)
  | setPause (onOff : Bool)
  | copyAndWriteTop (currFrame : Tics) (io : Io)
  | copyAndWriteFreeze (currFreezeFrame : Tics) (io : Io)
  | copyAndWriteScheduled (currTics : Tics) (io : Io)
  | copyAndWriteFreezeScheduled (currTics : Tics) (io : Io)
  | freezeInit

/-- One command or job. -/
def exec (s : Session) : Event → Except Fault Session
  | .varCycle scaled => varCycle s scaled
  | .varSetCopyMode mode time freezeTime => varSetCopyMode s mode time freezeTime
  | .varSetWriteMode mode => pure (varSetWriteMode s mode)
  | .varSync mode time freezeTime => varSync s mode time freezeTime
  | .varSetFrameMultiple mult => pure { s with frameMultiple := toInt mult }
  | .varSetFrameOffset offset => pure { s with frameOffset := toInt offset }
  | .varSetFreezeFrameMultiple mult => pure { s with freezeFrameMultiple := toInt mult }
  | .varSetFreezeFrameOffset offset => pure { s with freezeFrameOffset := toInt offset }
  | .setPause onOff => pure { s with pauseCmd := onOff }
  | .copyAndWriteTop currFrame io => copyAndWriteTop s currFrame io
  | .copyAndWriteFreeze currFreezeFrame io => copyAndWriteFreeze s currFreezeFrame io
  | .copyAndWriteScheduled currTics io => copyAndWriteScheduled s currTics io
  | .copyAndWriteFreezeScheduled currTics io => copyAndWriteFreezeScheduled s currTics io
  | .freezeInit => pure (freezeInit s)

/-- A step of a run: nothing happens after a fault. -/
def step (r : Except Fault Session) (e : Event) : Except Fault Session := r >>= fun s => exec s e

/-- **The run of a session.** -/
def history (tics : Tics) (es : List Event) : Except Fault Session := run step (.ok (create tics)) es

/-- **Safe**: the run comes to its end, so that no modulus was zero, and after each copy the next time is
    behind the current one. -/
def Safe (tics : Tics) (es : List Event) : Prop :=
  ∃ s, history tics es = .ok s ∧ ∀ c ∈ s.copies, c.time < c.nextTics

/-- The condition on a command, and on the session where a sum is formed. -/
def Proper (s : Session) : Event → Prop
  | .varCycle scaled => ∃ x, scaled = some x ∧ 1 ≤ x.num.tdiv x.den ∧ x.num.tdiv x.den ≤ maxLongLong
  | .varSetFrameMultiple mult => mult ≠ 0
  | .varSetFreezeFrameMultiple mult => mult ≠ 0
  | .varSetCopyMode mode time freezeTime =>
    mode = 1 → time - time.val.tmod s.cycleTics + s.cycleTics ≤ maxLongLong ∧
      freezeTime - freezeTime.val.tmod s.cycleTics + s.cycleTics ≤ maxLongLong
  | .varSync mode time freezeTime =>
    mode = 1 ∨ mode = 2 → time - time.val.tmod s.cycleTics + s.cycleTics ≤ maxLongLong ∧
      freezeTime - freezeTime.val.tmod s.cycleTics + s.cycleTics ≤ maxLongLong
  | .copyAndWriteScheduled currTics _ => Due s s.nextTics currTics → currTics + s.cycleTics ≤ maxLongLong
  | .copyAndWriteFreezeScheduled currTics _ =>
    Due s s.freezeNextTics currTics → currTics + s.cycleTics ≤ maxLongLong
  | _ => True

/-- The condition on a step of a run. -/
def ProperStep (r : Except Fault Session) (e : Event) : Prop := ∀ s, r = .ok s → Proper s e

/-! ## Arithmetic that fits -/

theorem addTics_ok {a b : Int} (hlo : -maxLongLong - 1 ≤ a + b) (hhi : a + b ≤ maxLongLong) :
    addTics a b = .ok (a + b) := if_pos ⟨hlo, hhi⟩

theorem addTics_error {a b : Int} (hhi : ¬ a + b ≤ maxLongLong) : addTics a b = .error .overflow :=
  if_neg fun h => hhi h.2

theorem modTics_ok {a b : Int} (h : b ≠ 0) : modTics a b = .ok (a.tmod b) := if_neg h

theorem modTics_error (a : Int) : modTics a 0 = .error .divByZero := if_pos rfl

theorem nextCall_eq {s : Session} (h : s.cycleTics ≠ 0) (time : Tics) :
    nextCall s time = addTics (time - time.val.tmod s.cycleTics) s.cycleTics := by
  unfold nextCall
  rw [modTics_ok h]
  rfl

/-- The multiple of the cycle before a time is not negative. -/
theorem tmod_le (time : Tics) {c : Int} (hc : 1 ≤ c) : 0 ≤ time.val - time.val.tmod c := by
  have hdiv := Int.mul_tdiv_add_tmod time.val c
  have hquot : 0 ≤ time.val.tdiv c := Int.tdiv_nonneg time.property.1 (by omega)
  have hprod : 0 ≤ c * time.val.tdiv c := Int.mul_nonneg (by omega) hquot
  omega

/-! ## One step -/

/-- **The invariant.** -/
structure Good (s : Session) : Prop where
  enabled : s.enabled = true
  cycle : 1 ≤ s.cycleTics
  frame : s.frameMultiple ≠ 0
  freezeFrame : s.freezeFrameMultiple ≠ 0
  copies : ∀ c ∈ s.copies, c.time < c.nextTics

/-- What a session must not change to keep the invariant. -/
theorem Good.congr {s s' : Session} (h : Good s) (henabled : s'.enabled = s.enabled)
    (hcycle : s'.cycleTics = s.cycleTics) (hframe : s'.frameMultiple = s.frameMultiple)
    (hfreeze : s'.freezeFrameMultiple = s.freezeFrameMultiple) (hcopies : s'.copies = s.copies) : Good s' where
  enabled := henabled.trans h.enabled
  cycle := hcycle ▸ h.cycle
  frame := hframe ▸ h.frame
  freezeFrame := hfreeze ▸ h.freezeFrame
  copies := hcopies ▸ h.copies

theorem good_create (tics : Tics) : Good (create tics) where
  enabled := rfl
  cycle := by
    have hnn := tics.property.1
    show 1 ≤ if tics.val = 0 then 1 else tics.val
    split <;> omega
  frame := Int.one_ne_zero
  freezeFrame := Int.one_ne_zero
  copies := fun c hc => nomatch hc

theorem good_copyAndWrite {s : Session} (h : Good s) (io : Io) : Good (copyAndWrite s io) := by
  unfold copyAndWrite
  split
  · split
    · exact h.congr rfl rfl rfl rfl rfl
    · exact h
  · exact h

theorem copyAndWrite_cycleTics (s : Session) (io : Io) : (copyAndWrite s io).cycleTics = s.cycleTics := by
  unfold copyAndWrite
  split
  · split <;> rfl
  · rfl

theorem good_varSetWriteMode {s : Session} (h : Good s) (mode : Int) : Good (varSetWriteMode s mode) := by
  unfold varSetWriteMode
  split
  · exact h.congr rfl rfl rfl rfl rfl
  · split
    · exact h.congr rfl rfl rfl rfl rfl
    · exact h

/-- The next call time of a good session fits or it does not. -/
theorem nextCall_ok {s : Session} (h : Good s) {time : Tics}
    (hfit : time - time.val.tmod s.cycleTics + s.cycleTics ≤ maxLongLong) :
    nextCall s time = .ok (time - time.val.tmod s.cycleTics + s.cycleTics) := by
  have hcycle := h.cycle
  have hle := tmod_le time hcycle
  rw [nextCall_eq (by omega)]
  refine addTics_ok ?_ hfit
  unfold maxLongLong
  omega

theorem nextCall_error {s : Session} (h : Good s) {time : Tics}
    (hfit : ¬ time - time.val.tmod s.cycleTics + s.cycleTics ≤ maxLongLong) :
    nextCall s time = .error .overflow := by
  have hcycle := h.cycle
  rw [nextCall_eq (by omega)]
  exact addTics_error hfit

/-- The times of `var_set_copy_mode` fit. -/
def NextCallsFit (s : Session) (time freezeTime : Tics) : Prop :=
  time - time.val.tmod s.cycleTics + s.cycleTics ≤ maxLongLong ∧
    freezeTime - freezeTime.val.tmod s.cycleTics + s.cycleTics ≤ maxLongLong

theorem varSetCopyMode_ok {s : Session} (h : Good s) (mode : Int) (time freezeTime : Tics)
    (hfit : mode = 1 → NextCallsFit s time freezeTime) :
    ∃ s', varSetCopyMode s mode time freezeTime = .ok s' ∧ Good s' := by
  unfold varSetCopyMode
  split
  · rename_i hmode
    obtain ⟨htime, hfreeze⟩ := hfit hmode
    rw [nextCall_ok h htime, nextCall_ok h hfreeze]
    exact ⟨_, rfl, h.congr rfl rfl rfl rfl rfl⟩
  · split
    · exact ⟨_, rfl, h.congr rfl rfl rfl rfl rfl⟩
    · split
      · exact ⟨_, rfl, h.congr rfl rfl rfl rfl rfl⟩
      · exact ⟨_, rfl, h⟩

/-- Scheduled mode needs both times. -/
theorem varSetCopyMode_error {s : Session} (h : Good s) {time freezeTime : Tics}
    (hfit : ¬ NextCallsFit s time freezeTime) :
    varSetCopyMode s 1 time freezeTime = .error .overflow := by
  unfold varSetCopyMode
  rw [if_pos rfl]
  by_cases htime : time - time.val.tmod s.cycleTics + s.cycleTics ≤ maxLongLong
  · rw [nextCall_ok h htime, nextCall_error h fun hfreeze => hfit ⟨htime, hfreeze⟩]
    rfl
  · rw [nextCall_error h htime]
    rfl

theorem varSync_ok {s : Session} (h : Good s) {mode : Int} {time freezeTime : Tics}
    (hfit : mode = 1 ∨ mode = 2 → NextCallsFit s time freezeTime) :
    ∃ s', varSync s mode time freezeTime = .ok s' ∧ Good s' := by
  unfold varSync
  split
  · rename_i hmode
    obtain ⟨s', hs', hgood⟩ := varSetCopyMode_ok h 1 time freezeTime fun _ => hfit (Or.inl hmode)
    rw [hs']
    exact ⟨_, rfl, good_varSetWriteMode hgood 0⟩
  · split
    · rename_i hmode
      obtain ⟨s', hs', hgood⟩ := varSetCopyMode_ok h 1 time freezeTime fun _ => hfit (Or.inr hmode)
      rw [hs']
      exact ⟨_, rfl, good_varSetWriteMode hgood 1⟩
    · obtain ⟨s', hs', hgood⟩ := varSetCopyMode_ok h 0 time freezeTime
        fun hmode => absurd hmode (by decide)
      rw [hs']
      exact ⟨_, rfl, good_varSetWriteMode hgood 0⟩

theorem copyInFrame_ok {s : Session} (h : Good s) (frame : Tics) {multiple : Int} (hne : multiple ≠ 0)
    (offset : Int) (io : Io) : ∃ s', copyInFrame s frame multiple offset io = .ok s' ∧ Good s' := by
  unfold copyInFrame
  split
  · exact ⟨_, rfl, h⟩
  · split
    · rw [modTics_ok hne]
      refine ⟨_, rfl, ?_⟩
      split
      · exact good_copyAndWrite h io
      · exact h
    · exact ⟨_, rfl, h⟩

/-- **A copy in scheduled mode**: the cycle is a tic or more. -/
theorem copyScheduled_ok {s : Session} (h : Good s) {due : Int} {store : Int → Session → Session}
    (hstore : ∀ n s, Good s → Good (store n s)) {currTics : Tics} (io : Io)
    (hfit : Due s due currTics → currTics + s.cycleTics ≤ maxLongLong) :
    ∃ s', copyScheduled s due store currTics io = .ok s' ∧ Good s' := by
  unfold copyScheduled
  split
  · rename_i hdue
    have hgood := good_copyAndWrite h io
    have hcycle := h.cycle
    have hnn := currTics.property.1
    have hadd : addTics currTics (copyAndWrite s io).cycleTics = .ok (currTics + s.cycleTics) := by
      rw [copyAndWrite_cycleTics]
      refine addTics_ok ?_ (hfit hdue)
      unfold maxLongLong
      omega
    simp only [hadd]
    refine ⟨_, rfl, hstore _ _ ⟨hgood.enabled, hgood.cycle, hgood.frame, hgood.freezeFrame, ?_⟩⟩
    intro c hc
    rcases List.mem_cons.mp hc with rfl | hc
    · show currTics.val < currTics.val + s.cycleTics
      omega
    · exact hgood.copies c hc
  · exact ⟨_, rfl, h⟩

theorem copyScheduled_error {s : Session} {due : Int} {store : Int → Session → Session} {currTics : Tics}
    {io : Io} (hdue : Due s due currTics) (hfit : ¬ currTics + s.cycleTics ≤ maxLongLong) :
    copyScheduled s due store currTics io = .error .overflow := by
  have hadd : addTics currTics (copyAndWrite s io).cycleTics = .error .overflow := by
    rw [copyAndWrite_cycleTics]
    exact addTics_error hfit
  unfold copyScheduled
  rw [if_pos hdue]
  simp only [hadd]
  rfl

theorem good_setNextTics (n : Int) (s : Session) (h : Good s) : Good (setNextTics n s) :=
  h.congr rfl rfl rfl rfl rfl

theorem good_setFreezeNextTics (n : Int) (s : Session) (h : Good s) : Good (setFreezeNextTics n s) :=
  h.congr rfl rfl rfl rfl rfl

theorem good_freezeInit {s : Session} (h : Good s) : Good (freezeInit s) := by
  unfold freezeInit
  split
  · exact h.congr rfl rfl rfl rfl rfl
  · exact h.congr rfl rfl rfl rfl rfl

theorem toInt_ne_zero {x : UInt32} (h : x ≠ 0) : toInt x ≠ 0 := by
  intro hzero
  apply h
  apply UInt32.toBitVec_inj.mp
  exact BitVec.eq_of_toInt_eq (hzero.trans (by decide))

theorem castTics_ok {x : ℚ} (hlo : -maxLongLong - 1 ≤ x.num.tdiv x.den) (hhi : x.num.tdiv x.den ≤ maxLongLong) :
    castTics (some x) = .ok (x.num.tdiv x.den) := if_pos ⟨hlo, hhi⟩

/-- **The step lemma.** -/
theorem good_exec {s : Session} (h : Good s) {e : Event} (hproper : Proper s e) :
    ∃ s', exec s e = .ok s' ∧ Good s' := by
  cases e with
  | varCycle scaled =>
    obtain ⟨x, rfl, hone, hle⟩ := hproper
    have hcast : castTics (some x) = .ok (x.num.tdiv x.den) := by
      refine castTics_ok ?_ hle
      unfold maxLongLong
      omega
    refine ⟨{ s with cycleTics := x.num.tdiv x.den }, ?_, ?_⟩
    · show (castTics (some x) >>= fun c => pure { s with cycleTics := c }) = _
      rw [hcast]
      rfl
    · exact ⟨h.enabled, hone, h.frame, h.freezeFrame, h.copies⟩
  | varSetCopyMode mode time freezeTime => exact varSetCopyMode_ok h mode time freezeTime hproper
  | varSetWriteMode mode => exact ⟨_, rfl, good_varSetWriteMode h mode⟩
  | varSync mode time freezeTime => exact varSync_ok h hproper
  | varSetFrameMultiple mult =>
    exact ⟨_, rfl, h.enabled, h.cycle, toInt_ne_zero hproper, h.freezeFrame, h.copies⟩
  | varSetFreezeFrameMultiple mult =>
    exact ⟨_, rfl, h.enabled, h.cycle, h.frame, toInt_ne_zero hproper, h.copies⟩
  | varSetFrameOffset offset => exact ⟨_, rfl, h.congr rfl rfl rfl rfl rfl⟩
  | varSetFreezeFrameOffset offset => exact ⟨_, rfl, h.congr rfl rfl rfl rfl rfl⟩
  | setPause onOff => exact ⟨_, rfl, h.congr rfl rfl rfl rfl rfl⟩
  | copyAndWriteTop currFrame io => exact copyInFrame_ok h currFrame h.frame _ io
  | copyAndWriteFreeze currFreezeFrame io => exact copyInFrame_ok h currFreezeFrame h.freezeFrame _ io
  | copyAndWriteScheduled currTics io => exact copyScheduled_ok h good_setNextTics io hproper
  | copyAndWriteFreezeScheduled currTics io => exact copyScheduled_ok h good_setFreezeNextTics io hproper
  | freezeInit => exact ⟨_, rfl, good_freezeInit h⟩

/-! ## Runs -/

/-- The invariant of a run: there was no fault. -/
def GoodRun (r : Except Fault Session) : Prop := ∃ s, r = .ok s ∧ Good s

theorem goodRun_step {r : Except Fault Session} {e : Event} (h : GoodRun r) (hproper : ProperStep r e) :
    GoodRun (step r e) := by
  obtain ⟨s, rfl, hgood⟩ := h
  exact good_exec hgood (hproper s rfl)

theorem goodRun_history {tics : Tics} {es : List Event}
    (h : Guarded ProperStep step (.ok (create tics)) es) : GoodRun (history tics es) :=
  Guarded.invariant (fun _ _ hr hproper => goodRun_step hr hproper) es _ ⟨_, rfl, good_create tics⟩ h

theorem safe_of_goodRun {tics : Tics} {es : List Event} (h : GoodRun (history tics es)) : Safe tics es := by
  obtain ⟨s, hs, hgood⟩ := h
  exact ⟨s, hs, hgood.copies⟩

/-! ## The conditions are needed -/

/-- **A step that can go wrong**: some run behind it does, in which the other steps meet the conditions. -/
def GoesWrong (s : Session) (e : Event) : Prop :=
  ∃ rest, Guarded ProperStep step (exec s e) rest ∧
    ¬ ∃ s', run step (exec s e) rest = .ok s' ∧ ∀ c ∈ s'.copies, c.time < c.nextTics

theorem goesWrong_of_error {s : Session} {e : Event} {f : Fault} (h : exec s e = .error f) : GoesWrong s e := by
  refine ⟨[], trivial, ?_⟩
  rintro ⟨s', hs', -⟩
  rw [run_nil, h] at hs'
  cases hs'

/-- A step and then a fault. -/
theorem goesWrong_of_rest {s s' : Session} {e : Event} {f : Fault} (rest : List Event)
    (h : exec s e = .ok s') (hproper : Guarded ProperStep step (.ok s') rest)
    (hrest : run step (.ok s') rest = .error f) : GoesWrong s e := by
  refine ⟨rest, h ▸ hproper, ?_⟩
  rintro ⟨s'', hs'', -⟩
  rw [h, hrest] at hs''
  cases hs''

theorem guarded_cons_ok {s : Session} {e : Event} {rest : List Event} (hproper : Proper s e)
    (hrest : Guarded ProperStep step (exec s e) rest) : Guarded ProperStep step (.ok s) (e :: rest) :=
  ⟨fun _ hs => (Except.ok.inj hs) ▸ hproper, hrest⟩

/-- No real time: nothing is written. -/
def quiet : Io := ⟨false, 0⟩

theorem copyAndWrite_quiet (s : Session) : copyAndWrite s quiet = s :=
  if_neg fun h => Bool.noConfusion h.2.2

/-- A cycle of no tics: the next call time is a division by zero. -/
theorem goesWrong_of_zero {s : Session} {e : Event} (h : exec s e = .ok { s with cycleTics := 0 }) :
    GoesWrong s e := by
  refine goesWrong_of_rest (f := .divByZero) [.varSetCopyMode 1 0 0] h ?_ rfl
  refine guarded_cons_ok ?_ trivial
  intro _
  show (0 : Int) - Int.tmod 0 0 + 0 ≤ maxLongLong ∧ (0 : Int) - Int.tmod 0 0 + 0 ≤ maxLongLong
  decide

/-- The first call time at time zero is the cycle. -/
theorem nextCall_zero {s : Session} (hne : s.cycleTics ≠ 0) (hlo : -maxLongLong - 1 ≤ s.cycleTics)
    (hhi : s.cycleTics ≤ maxLongLong) : nextCall s 0 = .ok s.cycleTics := by
  rw [nextCall_eq hne]
  have hzero : ((0 : Tics) : Int) - (0 : Tics).val.tmod s.cycleTics = 0 := by
    show (0 : Int) - Int.tmod 0 s.cycleTics = 0
    rw [Int.zero_tmod, Int.sub_zero]
  rw [hzero, addTics_ok (by omega) (by omega), Int.zero_add]

/-- A cycle of less than no tics: the first copy leaves a next time in the past. -/
theorem goesWrong_of_neg {s : Session} {e : Event} {c : Int} (h : exec s e = .ok { s with cycleTics := c })
    (henabled : s.enabled = true) (hc : c < 0) (hlo : -maxLongLong - 1 ≤ c) : GoesWrong s e := by
  have hmax : (0 : Int) ≤ maxLongLong := by decide
  -- the session after the command, in scheduled mode, and after the copy
  let t : Session := { s with cycleTics := c }
  let u : Session := { t with copyMode := .scheduled, nextTics := c, freezeNextTics := c }
  let v : Session := { u with nextTics := c, copies := ⟨0, c⟩ :: s.copies }
  have hsched : exec t (.varSetCopyMode 1 0 0) = .ok u := by
    show varSetCopyMode t 1 0 0 = _
    unfold varSetCopyMode
    have hne : t.cycleTics ≠ 0 := by
      show c ≠ 0
      omega
    rw [if_pos rfl, nextCall_zero hne hlo (by show c ≤ _; omega)]
    rfl
  have hdue : Due u u.nextTics 0 := by
    refine ⟨henabled, rfl, ?_⟩
    show c ≤ 0
    omega
  have hcopy : exec u (.copyAndWriteScheduled 0 quiet) = .ok v := by
    show copyScheduled u u.nextTics setNextTics 0 quiet = _
    unfold copyScheduled
    rw [if_pos hdue, copyAndWrite_quiet]
    have hadd : addTics (0 : Tics).val u.cycleTics = .ok c := by
      have hsum : (0 : Tics).val + u.cycleTics = c := Int.zero_add c
      have hok := addTics_ok (a := (0 : Tics).val) (b := u.cycleTics) (by omega) (by omega)
      rw [hok, hsum]
    simp only [hadd]
    rfl
  refine ⟨[.varSetCopyMode 1 0 0, .copyAndWriteScheduled 0 quiet], ?_, ?_⟩
  · rw [h]
    refine guarded_cons_ok ?_ ?_
    · intro _
      show (0 : Int) - Int.tmod 0 c + c ≤ maxLongLong ∧ (0 : Int) - Int.tmod 0 c + c ≤ maxLongLong
      rw [Int.zero_tmod]
      omega
    · rw [hsched]
      refine guarded_cons_ok ?_ trivial
      intro _
      show (0 : Int) + c ≤ maxLongLong
      omega
  · rintro ⟨s', hs', hcopies⟩
    rw [h, run_cons, run_cons, run_nil] at hs'
    have hrun : step (step (.ok t) (.varSetCopyMode 1 0 0)) (.copyAndWriteScheduled 0 quiet) = .ok v := by
      show (exec t (.varSetCopyMode 1 0 0) >>= fun s => exec s (.copyAndWriteScheduled 0 quiet)) = _
      rw [hsched]
      exact hcopy
    obtain rfl : v = s' := Except.ok.inj (hrun.symm.trans hs')
    have hbehind : (0 : Int) < c := hcopies ⟨0, c⟩ List.mem_cons_self
    omega

/-- A multiple of zero: the first job in a frame is a division by zero. -/
theorem copyInFrame_zero {s : Session} (henabled : s.enabled = true) (hmode : s.copyMode = .topOfFrame)
    (frame : Tics) (offset : Int) (io : Io) : copyInFrame s frame (toInt 0) offset io = .error .divByZero := by
  have hzero : toInt 0 = 0 := by decide
  unfold copyInFrame
  rw [if_neg (by rw [henabled]; decide), if_pos hmode, hzero, modTics_error]
  rfl

/-- **The necessity lemma.** -/
theorem goesWrong_of_not_proper {s : Session} (h : Good s) {e : Event} (hproper : ¬ Proper s e) :
    GoesWrong s e := by
  cases e with
  | varCycle scaled =>
    cases scaled with
    | none => exact goesWrong_of_error rfl
    | some x =>
      by_cases hfit : -maxLongLong - 1 ≤ x.num.tdiv x.den ∧ x.num.tdiv x.den ≤ maxLongLong
      · have hexec : exec s (.varCycle (some x)) = .ok { s with cycleTics := x.num.tdiv x.den } := by
          show (castTics (some x) >>= fun c => pure { s with cycleTics := c }) = _
          rw [castTics_ok hfit.1 hfit.2]
          rfl
        have hle : x.num.tdiv x.den ≤ 0 := by
          by_contra hpos
          exact hproper ⟨x, rfl, by omega, hfit.2⟩
        rcases Int.lt_or_eq_of_le hle with hneg | hzero
        · exact goesWrong_of_neg hexec h.enabled hneg hfit.1
        · exact goesWrong_of_zero (hzero ▸ hexec)
      · refine goesWrong_of_error (f := .conversion) ?_
        have hcast : castTics (some x) = .error .conversion := if_neg hfit
        show (castTics (some x) >>= fun c => pure { s with cycleTics := c }) = _
        rw [hcast]
        rfl
  | varSetCopyMode mode time freezeTime =>
    obtain ⟨rfl, hfit⟩ := Classical.not_imp.mp hproper
    exact goesWrong_of_error (varSetCopyMode_error h hfit)
  | varSync mode time freezeTime =>
    obtain ⟨hmode, hfit⟩ := Classical.not_imp.mp hproper
    refine goesWrong_of_error (f := .overflow) ?_
    show varSync s mode time freezeTime = _
    unfold varSync
    rcases hmode with rfl | rfl
    · rw [if_pos rfl, varSetCopyMode_error h hfit]
      rfl
    · rw [if_neg (by decide), if_pos rfl, varSetCopyMode_error h hfit]
      rfl
  | varSetFrameMultiple mult =>
    obtain rfl : mult = 0 := not_not.mp hproper
    refine goesWrong_of_rest (f := .divByZero) [.varSetCopyMode 2 0 0, .copyAndWriteTop 0 quiet] rfl
      ?_ ?_
    · exact guarded_cons_ok (fun h => absurd h (by decide)) (guarded_cons_ok trivial trivial)
    · exact copyInFrame_zero (s := { s with
        frameMultiple := toInt 0
        copyMode := .topOfFrame
        nextTics := maxLongLong }) h.enabled rfl 0 _ quiet
  | varSetFreezeFrameMultiple mult =>
    obtain rfl : mult = 0 := not_not.mp hproper
    refine goesWrong_of_rest (f := .divByZero) [.varSetCopyMode 2 0 0, .copyAndWriteFreeze 0 quiet] rfl
      ?_ ?_
    · exact guarded_cons_ok (fun h => absurd h (by decide)) (guarded_cons_ok trivial trivial)
    · exact copyInFrame_zero (s := { s with
        freezeFrameMultiple := toInt 0
        copyMode := .topOfFrame
        nextTics := maxLongLong }) h.enabled rfl 0 _ quiet
  | copyAndWriteScheduled currTics io =>
    obtain ⟨hdue, hfit⟩ := Classical.not_imp.mp hproper
    exact goesWrong_of_error (copyScheduled_error hdue hfit)
  | copyAndWriteFreezeScheduled currTics io =>
    obtain ⟨hdue, hfit⟩ := Classical.not_imp.mp hproper
    exact goesWrong_of_error (copyScheduled_error hdue hfit)
  | _ => exact absurd trivial hproper

/-- **Which commands are harmless.** -/
theorem safe_guarded {tics : Tics} {es : List Event} (h : Guarded ProperStep step (.ok (create tics)) es) :
    Safe tics es ∧ ∀ e, ¬ ProperStep (history tics es) e → ∃ rest,
      Guarded ProperStep step (history tics (es ++ [e])) rest ∧ ¬ Safe tics (es ++ e :: rest) := by
  have hgood := goodRun_history h
  refine ⟨safe_of_goodRun hgood, ?_⟩
  intro e hproper
  obtain ⟨s, hs, hs_good⟩ := hgood
  have himproper : ¬ Proper s e := by
    intro hp
    apply hproper
    intro s' hs'
    rw [hs] at hs'
    exact (Except.ok.inj hs') ▸ hp
  obtain ⟨rest, hrest, hwrong⟩ := goesWrong_of_not_proper hs_good himproper
  have hstep : history tics (es ++ [e]) = exec s e := by
    unfold history at hs ⊢
    rw [run_append, hs]
    rfl
  refine ⟨rest, hstep ▸ hrest, ?_⟩
  rintro ⟨s', hs', hcopies⟩
  apply hwrong
  refine ⟨s', ?_, hcopies⟩
  have hsplit : es ++ e :: rest = (es ++ [e]) ++ rest := by
    rw [List.append_assoc]
    rfl
  unfold history at hs' hstep
  rw [hsplit, run_append, hstep] at hs'
  exact hs'

/-- The default rate, a tenth of a second of a million tics. -/
def tenth : Tics := ⟨100000, by decide⟩

/-- A rate of one tic, and a copy in scheduled mode. -/
def oneTic : List Event :=
  [.varCycle (some 1), .varSetCopyMode 1 0 0, .copyAndWriteScheduled ⟨1, by decide⟩ quiet]

theorem safe_oneTic : Safe tenth oneTic ∧ ∀ e, ¬ ProperStep (history tenth oneTic) e → ∃ rest,
    Guarded ProperStep step (history tenth (oneTic ++ [e])) rest ∧ ¬ Safe tenth (oneTic ++ e :: rest) := by
  refine safe_guarded (guarded_cons_ok ⟨1, rfl, by decide, by decide⟩ (guarded_cons_ok ?_ (guarded_cons_ok ?_ trivial)))
  · intro _
    decide
  · intro _
    decide

/-- **A cycle of zero** makes `var_set_copy_mode` divide by zero. -/
theorem not_safe : ¬ Safe tenth [.varCycle (some 0), .varSync 1 0 0] ∧
    ¬ Safe tenth [.varSetFrameMultiple 0, .varSetCopyMode 2 0 0, .copyAndWriteTop 0 quiet] := by
  constructor
  · rintro ⟨s, hs, -⟩
    have hfault : history tenth [.varCycle (some 0), .varSync 1 0 0] = .error .divByZero := rfl
    rw [hfault] at hs
    cases hs
  · rintro ⟨s, hs, -⟩
    have hfault : history tenth
      [.varSetFrameMultiple 0, .varSetCopyMode 2 0 0, .copyAndWriteTop 0 quiet] = .error .divByZero := rfl
    rw [hfault] at hs
    cases hs

end Trick.VarServer.CopyModes
