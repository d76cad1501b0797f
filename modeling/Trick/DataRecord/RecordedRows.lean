/-
  The rows in the file after any run of a `DataRecordGroup`.

  1. **With a writer**: `Buffered.step` and `Buffered.run` carry the invariant of the group through a run that ends
     within its limits; the limits hold all the time because what they limit only grows (`Grows`).

  2. **Ring mode** (`Ring`): nothing is written before the end, then what is left in the slots.

  3. **Main results**: `written_rows`, `ring_rows`, and both together in `recording_loses_nothing`.
-/
import Trick.DataRecord.DataRecordGroup

namespace Trick.DataRecord

open Trick.Lib

namespace DataRecordGroup

variable {ρ : Type} {g : DataRecordGroup ρ}

/-! ## What only grows -/

/-- **The file and the record grow**, and the limits stay. -/
structure Grows (g g' : DataRecordGroup ρ) : Prop where
  maxNum : g'.maxNum = g.maxNum
  maxFileSize : g'.maxFileSize = g.maxFileSize
  total : g.totalBytesWritten ≤ g'.totalBytesWritten
  recorded : g.recorded.length ≤ g'.recorded.length

theorem grows_refl (g : DataRecordGroup ρ) : Grows g g := ⟨rfl, rfl, Nat.le_refl _, Nat.le_refl _⟩

theorem Grows.trans {g g' g'' : DataRecordGroup ρ} (h : Grows g g') (h' : Grows g' g'') : Grows g g'' :=
  ⟨h'.maxNum.trans h.maxNum, h'.maxFileSize.trans h.maxFileSize, Nat.le_trans h.total h'.total,
    Nat.le_trans h.recorded h'.recorded⟩

theorem Fits.of_grows {g' : DataRecordGroup ρ} (h : g'.Fits) (hg : Grows g g') : g.Fits where
  size := by
    have hsize := h.size
    rw [hg.maxFileSize] at hsize
    exact Nat.le_trans hg.total hsize
  counts := by
    have hcounts := h.counts
    rw [hg.maxNum] at hcounts
    exact hcounts.mono hg.recorded

theorem grows_copyRows : ∀ (n : Nat) (g : DataRecordGroup ρ), Grows g (DataRecordGroup.copyRows n g) := by
  intro n
  induction n with
  | zero => exact grows_refl
  | succ n ih =>
    intro g
    have hrow : Grows g g.copyRow := ⟨rfl, rfl, Nat.le_add_right _ _, Nat.le_refl _⟩
    exact hrow.trans (ih g.copyRow)

theorem grows_writeRows (g : DataRecordGroup ρ) : Grows g g.writeRows := by
  have hstart : Grows g g.startWriting := ⟨rfl, rfl, Nat.le_refl _, Nat.le_refl _⟩
  exact hstart.trans (grows_copyRows _ _)

theorem grows_mainStep (g : DataRecordGroup ρ) : Grows g g.mainStep := by
  have hwrite := grows_writeRows g
  unfold DataRecordGroup.mainStep
  split
  · split
    · exact grows_refl g
    · exact ⟨hwrite.maxNum, hwrite.maxFileSize, hwrite.total, hwrite.recorded⟩
  · split
    · exact grows_refl g
    · exact ⟨hwrite.maxNum, hwrite.maxFileSize, hwrite.total, hwrite.recorded⟩
  · rename_i row rows _
    refine ⟨rfl, rfl, Nat.le_refl _, ?_⟩
    show g.recorded.length ≤ (g.recorded ++ [row]).length
    rw [List.length_append]
    omega
  · exact grows_refl g
  · exact grows_refl g
  · exact grows_refl g

/-- **One step.** -/
theorem grows_step (g : DataRecordGroup ρ) (t : Turn ρ) : Grows g (g.step t) := by
  unfold DataRecordGroup.step
  split
  · split
    · unfold DataRecordGroup.dataRecord
      split_ifs <;> exact ⟨rfl, rfl, Nat.le_refl _, Nat.le_refl _⟩
    · exact grows_refl g
  · split
    · unfold DataRecordGroup.shutdown
      dsimp only
      split <;> exact ⟨rfl, rfl, Nat.le_refl _, Nat.le_refl _⟩
    · exact grows_refl g
  · split <;> exact ⟨rfl, rfl, Nat.le_refl _, Nat.le_refl _⟩
  · exact grows_mainStep g
  · split <;> exact ⟨rfl, rfl, Nat.le_refl _, Nat.le_refl _⟩
  · split <;> exact ⟨rfl, rfl, Nat.le_refl _, Nat.le_refl _⟩
  · unfold DataRecordGroup.writerStep
    split
    · exact grows_refl g
    · exact ⟨rfl, rfl, Nat.le_refl _, Nat.le_refl _⟩
    · split
      · exact ⟨rfl, rfl, Nat.le_refl _, Nat.le_refl _⟩
      · exact ⟨rfl, rfl, Nat.le_add_right _ _, Nat.le_refl _⟩

theorem grows_run : ∀ (turns : List (Turn ρ)) (g : DataRecordGroup ρ), Grows g (run step g turns) := by
  intro turns
  induction turns with
  | nil => exact grows_refl
  | cons t turns ih => exact fun g => (grows_step g t).trans (ih _)

/-! ## Every run with a writer -/

/-- What the invariant does not read. -/
theorem Buffered.waiting (h : g.Buffered) : Buffered { g with writer := .waits } :=
  { h with
    stored := ⟨h.stored.bufferNum, h.stored.currBuffer, h.stored.slot⟩
    copies := nofun }

/-- **The step lemma.** -/
theorem Buffered.step (h : g.Buffered) {t : Turn ρ} (hfits : (g.step t).Fits) : (g.step t).Buffered := by
  have hbefore : g.Fits := hfits.of_grows (grows_step g t)
  cases t with
  | dataRecord before row =>
    show (if g.idle = true then g.dataRecord (before.toList ++ [row]) else g).Buffered
    split
    · refine h.dataRecord hbefore ?_
      cases before with
      | none => exact Nat.le_succ 1
      | some _ => exact Nat.le_refl 2
    · exact h
  | shutdown =>
    show (if g.idle = true then g.shutdown else g).Buffered
    split
    · exact h.shutdown hbefore
    · exact h
  | enable record =>
    show (if g.idle = true then { g with record := record } else g).Buffered
    split
    · exact { h with stored := ⟨h.stored.bufferNum, h.stored.currBuffer, h.stored.slot⟩ }
    · exact h
  | main => exact h.mainStep hfits hbefore.counts
  | writerThread =>
    show (if g.writerIdle = true ∧ g.bufferType = .buffer ∧ g.mayWrite true = true then
      { g with writer := .waits } else g).Buffered
    split
    · exact h.waiting
    · exact h
  | writeJob =>
    show (if g.writerIdle = true ∧ g.mayWrite false = true then { g with writer := .waits } else g).Buffered
    split
    · exact h.waiting
    · exact h
  | writer => exact h.writerStep hbefore.counts

/-- **The run lemma.** -/
theorem Buffered.run : ∀ (turns : List (Turn ρ)) (g : DataRecordGroup ρ), g.Buffered →
    (Lib.run DataRecordGroup.step g turns).Fits → (Lib.run DataRecordGroup.step g turns).Buffered := by
  intro turns
  induction turns with
  | nil => exact fun _ h _ => h
  | cons t turns ih =>
    intro g h hfits
    rw [run_cons] at hfits ⊢
    exact ih _ (h.step (hfits.of_grows (grows_run turns _))) hfits

/-! ## Every run in ring mode -/

/-- **Nothing is written before the end**; then it is what is in the slots. -/
structure Ring (g : DataRecordGroup ρ) : Prop where
  stored : g.Stored
  ring : g.bufferType = .ringBuffer
  slots : 0 < g.maxNum
  notWaiting : ∀ rows, g.main ≠ .waits rows
  writer : g.writer = .idle
  empty : g.main ≠ .closed → g.file = [] ∧ g.writerNum = 0 ∧ g.totalBytesWritten = 0
  closed : g.main = .closed → g.file = (g.recorded.drop (g.recorded.length - g.maxNum)).map some

theorem Stored.of_same {g' : DataRecordGroup ρ} (h : g.Stored) (hnum : g'.bufferNum = g.bufferNum)
    (hcurr : g'.currBuffer = g.currBuffer) (hbuffer : g'.buffer = g.buffer) (hmax : g'.maxNum = g.maxNum)
    (hrecorded : g'.recorded = g.recorded) : g'.Stored := by
  refine ⟨?_, ?_, ?_⟩
  · rw [hnum, hrecorded]
    exact h.bufferNum
  · rw [hcurr, hrecorded, hmax]
    exact h.currBuffer
  · rw [hbuffer, hrecorded, hmax]
    exact h.slot

/-- **The last rows go into the file.** -/
theorem Ring.writeRows (h : g.Ring) (hopen : g.main ≠ .closed) (hlt : g.recorded.length < uintSize) :
    g.writeRows.file = (g.recorded.drop (g.recorded.length - g.maxNum)).map some ∧
      g.writeRows.recorded = g.recorded ∧ g.writeRows.maxNum = g.maxNum ∧
      g.writeRows.bufferType = g.bufferType ∧ g.writeRows.writer = g.writer ∧ g.writeRows.Stored := by
  obtain ⟨hfile, hwriterNum, -⟩ := h.empty hopen
  have hnum : g.bufferNum = g.recorded.length := by
    rw [h.stored.bufferNum, Nat.mod_eq_of_lt hlt]
  have hahead : uintSub g.bufferNum g.writerNum = g.recorded.length := by
    rw [hnum, hwriterNum]
    exact uintSub_of_le (Nat.zero_le _) hlt
  have hto : g.numToWrite = g.recorded.length - (g.recorded.length - g.maxNum) := by
    unfold DataRecordGroup.numToWrite
    rw [hahead]
    split <;> omega
  have hstart : g.startWriting.writerNum = (g.recorded.length - g.maxNum) % uintSize := by
    show uintSub g.bufferNum g.numToWrite = _
    rw [hnum, hto, uintSub_of_le (Nat.sub_le _ _) hlt, Nat.mod_eq_of_lt (by omega)]
    omega
  have hstored : g.startWriting.Stored := h.stored.of_same rfl rfl rfl rfl rfl
  have hn : g.recorded.length - g.maxNum + g.numToWrite = g.startWriting.recorded.length := by
    show _ = g.recorded.length
    omega
  have hfew : g.numToWrite ≤ g.startWriting.maxNum := by
    show g.numToWrite ≤ g.maxNum
    omega
  obtain ⟨total, -, heq⟩ := hstored.copyRows (Or.inr (Nat.le_of_lt hlt)) hstart hn hfew
  unfold DataRecordGroup.writeRows
  rw [heq]
  refine ⟨?_, rfl, rfl, rfl, rfl, h.stored.of_same rfl rfl rfl rfl rfl⟩
  show g.file ++ _ = _
  rw [hfile, List.nil_append]
  rfl

/-- **The step lemma in ring mode.** -/
theorem Ring.step (h : g.Ring) {t : Turn ρ} (hlt : (g.step t).recorded.length < uintSize) : (g.step t).Ring := by
  have hbefore : g.recorded.length < uintSize := Nat.lt_of_le_of_lt (grows_step g t).recorded hlt
  have hidle : g.idle = true → g.main ≠ .closed := by
    intro hidle hclosed
    unfold DataRecordGroup.idle at hidle
    rw [hclosed] at hidle
    cases hidle
  cases t with
  | dataRecord before row =>
    show (if g.idle = true then g.dataRecord (before.toList ++ [row]) else g).Ring
    split
    · rename_i hg
      unfold DataRecordGroup.dataRecord
      split
      · rw [if_neg fun hwait => hwait.1 h.ring]
        exact ⟨h.stored.of_same rfl rfl rfl rfl rfl, h.ring, h.slots, nofun, h.writer,
          fun _ => h.empty (hidle hg), nofun⟩
      · exact h
    · exact h
  | shutdown =>
    show (if g.idle = true then g.shutdown else g).Ring
    split
    · rename_i hg
      have hmay : { g with record := true }.mayWrite true = true := by
        unfold DataRecordGroup.mayWrite
        dsimp only
        rw [Bool.or_true, (h.empty (hidle hg)).2.2, decide_eq_true (Nat.zero_le _)]
        rfl
      unfold DataRecordGroup.shutdown
      rw [if_pos hmay]
      exact ⟨h.stored.of_same rfl rfl rfl rfl rfl, h.ring, h.slots, nofun, h.writer,
        fun _ => h.empty (hidle hg), nofun⟩
    · exact h
  | enable record =>
    show (if g.idle = true then { g with record := record } else g).Ring
    split
    · exact ⟨h.stored.of_same rfl rfl rfl rfl rfl, h.ring, h.slots, h.notWaiting, h.writer, h.empty, h.closed⟩
    · exact h
  | main =>
    have hlt : g.mainStep.recorded.length < uintSize := hlt
    show g.mainStep.Ring
    unfold DataRecordGroup.mainStep at hlt ⊢
    split
    · rename_i rows hmain
      exact absurd hmain (h.notWaiting rows)
    · -- the only write
      rename_i hmain
      have hopen : g.main ≠ .closed := by
        rw [hmain]
        exact nofun
      have hfree : ¬ g.mutexLocked = true := by
        unfold DataRecordGroup.mutexLocked
        rw [h.writer]
        exact Bool.false_ne_true
      obtain ⟨hfile, hrecorded, hmax, htype, hwriter, hstored⟩ := h.writeRows hopen hbefore
      rw [if_neg hfree]
      refine ⟨hstored.of_same rfl rfl rfl rfl rfl, htype.trans h.ring, ?_, nofun, hwriter.trans h.writer,
        fun hclosed => absurd rfl hclosed, fun _ => ?_⟩
      · show 0 < g.writeRows.maxNum
        rw [hmax]
        exact h.slots
      · show g.writeRows.file = (g.writeRows.recorded.drop (g.writeRows.recorded.length - g.writeRows.maxNum)).map some
        rw [hfile, hrecorded, hmax]
    · -- a row into its slot
      rename_i row rows hmain
      rw [hmain] at hlt
      have hopen : g.main ≠ .closed := by
        rw [hmain]
        exact nofun
      have hlen : (g.recorded ++ [row]).length < uintSize := hlt
      rw [List.length_append, List.length_singleton] at hlen
      have hstored := h.stored.storeRow h.slots (Or.inr (Nat.le_of_lt hlen)) row
      refine ⟨hstored.of_same rfl rfl rfl rfl rfl, h.ring, h.slots, ?_, h.writer, fun _ => h.empty hopen, ?_⟩
      · intro rows' hrows'
        have hrows' : (if rows = [] then MainPc.idle else .stores rows) = .waits rows' := hrows'
        split at hrows' <;> cases hrows'
      · intro hclosed
        have hclosed : (if rows = [] then MainPc.idle else .stores rows) = .closed := hclosed
        split at hclosed <;> cases hclosed
    · exact h
    · exact h
    · exact h
  | writerThread =>
    show (if g.writerIdle = true ∧ g.bufferType = .buffer ∧ g.mayWrite true = true then
      { g with writer := .waits } else g).Ring
    rw [if_neg fun hbuffer => by rw [h.ring] at hbuffer; cases hbuffer.2.1]
    exact h
  | writeJob =>
    have hno : g.mayWrite false = false := by
      unfold DataRecordGroup.mayWrite
      rw [h.ring, Bool.or_false]
      exact congrArg (· && _) (Bool.and_false _)
    show (if g.writerIdle = true ∧ g.mayWrite false = true then { g with writer := .waits } else g).Ring
    rw [if_neg fun hwrite => by rw [hno] at hwrite; cases hwrite.2]
    exact h
  | writer =>
    show g.writerStep.Ring
    unfold DataRecordGroup.writerStep
    rw [h.writer]
    exact h

/-- **The run lemma in ring mode.** -/
theorem Ring.run : ∀ (turns : List (Turn ρ)) (g : DataRecordGroup ρ), g.Ring →
    (Lib.run DataRecordGroup.step g turns).recorded.length < uintSize →
    (Lib.run DataRecordGroup.step g turns).Ring := by
  intro turns
  induction turns with
  | nil => exact fun _ h _ => h
  | cons t turns ih =>
    intro g h hlt
    rw [run_cons] at hlt ⊢
    exact ih _ (h.step (Nat.lt_of_le_of_lt (grows_run turns _).recorded hlt)) hlt

/-! ## Main results -/

/-- A group that has been initialised. -/
def init (bufferType : Buffering) (maxNum maxFileSize : Nat) (bytes : Option ρ → Nat) : DataRecordGroup ρ where
  bufferType := bufferType
  maxNum := maxNum
  maxFileSize := maxFileSize
  bytes := bytes

theorem stored_init (bufferType : Buffering) (maxNum maxFileSize : Nat) (bytes : Option ρ → Nat) :
    (init bufferType maxNum maxFileSize bytes).Stored :=
  ⟨rfl, fun h => absurd h (Nat.lt_irrefl 0), fun i hi => absurd hi (Nat.not_lt_zero i)⟩

/-- **With a writer**: the rows in the file are those recorded first, and in the end all. -/
theorem written_rows {bufferType : Buffering} {maxNum maxFileSize : Nat} {bytes : Option ρ → Nat}
    (hbuffer : bufferType ≠ .ringBuffer) (hslots : 2 ≤ maxNum ∧ maxNum < uintSize) (turns : List (Turn ρ))
    (hfits : (Lib.run step (init bufferType maxNum maxFileSize bytes) turns).Fits) :
    let g := Lib.run step (init bufferType maxNum maxFileSize bytes) turns
    g.file = (g.recorded.take g.file.length).map some ∧ (g.main = .closed → g.file = g.recorded.map some) := by
  have hstart : (init bufferType maxNum maxFileSize bytes).Buffered :=
    ⟨stored_init bufferType maxNum maxFileSize bytes, hbuffer, hslots, rfl, rfl, Nat.zero_le _, nofun, nofun, nofun,
      nofun⟩
  have hrun := Buffered.run turns _ hstart hfits
  refine ⟨hrun.file, ?_⟩
  intro hclosed
  have hfile := hrun.file
  rw [hrun.closed hclosed, List.take_length] at hfile
  exact hfile

/-- **In ring mode**: in the end the last rows are in the file. -/
theorem ring_rows {maxNum maxFileSize : Nat} {bytes : Option ρ → Nat} (hslots : 0 < maxNum)
    (turns : List (Turn ρ))
    (hlt : (Lib.run step (init .ringBuffer maxNum maxFileSize bytes) turns).recorded.length < uintSize) :
    let g := Lib.run step (init .ringBuffer maxNum maxFileSize bytes) turns
    g.main = .closed → g.file = (g.recorded.drop (g.recorded.length - maxNum)).map some := by
  have hstart : (init .ringBuffer maxNum maxFileSize bytes).Ring :=
    ⟨stored_init .ringBuffer maxNum maxFileSize bytes, rfl, hslots, nofun, rfl, fun _ => ⟨rfl, rfl, rfl⟩, nofun⟩
  have hrun := Ring.run turns _ hstart hlt
  intro g hclosed
  have hmax : g.maxNum = maxNum := (grows_run turns (init .ringBuffer maxNum maxFileSize bytes)).maxNum
  rw [← hmax]
  exact hrun.closed hclosed

/-- **Data recording**: with a writer, at least two slots, a file within its size, and counters that do not wrap or
    wrap where the slots do, the rows in the file are those recorded, each once and in order, at any time those
    recorded first and in the end all; in ring mode the last ones, while the counter has not wrapped. -/
theorem recording_loses_nothing (bufferType : Buffering) (maxNum maxFileSize : Nat) (bytes : Option ρ → Nat)
    (turns : List (Turn ρ)) (hslots : 2 ≤ maxNum ∧ maxNum < uintSize) :
    let g := Lib.run step (init bufferType maxNum maxFileSize bytes) turns
    (bufferType ≠ .ringBuffer → g.Fits →
      g.file = (g.recorded.take g.file.length).map some ∧ (g.main = .closed → g.file = g.recorded.map some)) ∧
    (bufferType = .ringBuffer → g.recorded.length < uintSize → g.main = .closed →
      g.file = (g.recorded.drop (g.recorded.length - maxNum)).map some) := by
  intro g
  refine ⟨fun hbuffer hfits => written_rows hbuffer hslots turns hfits, ?_⟩
  rintro rfl hlt
  exact ring_rows (Nat.lt_of_lt_of_le Nat.zero_lt_two hslots.1) turns hlt

/-- Three rows through two slots, with a writer that copies one of them while the next is recorded. -/
def threeRows : List (Turn Nat) :=
  [.dataRecord none 0, .main, .main, .writeJob, .writer, .dataRecord none 1, .writer, .writer, .main, .main,
    .dataRecord none 2, .main, .main, .shutdown, .main]

theorem recording_loses_nothing_threeRows :
    ((run step (init .noBuffer 2 100 fun _ => 1) threeRows).file = [some 0, some 1, some 2] ∧
      (run step (init .ringBuffer 2 100 fun _ => 1) threeRows).file = [some 1, some 2]) := by
  have hbuffer := (recording_loses_nothing .noBuffer 2 100 (fun _ => 1) threeRows ⟨by decide, by decide⟩).1
    nofun ⟨by decide, Or.inl (by decide)⟩
  have hring := (recording_loses_nothing .ringBuffer 2 100 (fun _ => 1) threeRows ⟨by decide, by decide⟩).2
    rfl (by decide) rfl
  exact ⟨hbuffer.2 rfl, hring⟩

/-- **Not always**: once the file is over its size, no row is written any more. -/
theorem not_recording_loses_nothing :
    let g := run step (init .buffer 2 5 fun _ => 10)
      [.dataRecord none 0, .main, .main, .dataRecord none 1, .main, .main, .shutdown]
    g.main = .closed ∧ g.recorded = [0, 1] ∧ g.file = [some 0] := ⟨rfl, rfl, rfl⟩

end DataRecordGroup

end Trick.DataRecord
