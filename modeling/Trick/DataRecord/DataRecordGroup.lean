/-
  `DataRecordGroup`: rows on their way to the file.

  `data_record` puts a row into the slot of its number modulo `max_num`, and a writer copies the rows from
  the slots into the file, another thread or a forced call of `write_data` in `data_record` itself.  The
  numbers are 32-bit counters that go on growing; the rows that have not been written are those between the
  two.  A group in ring mode writes only at the end, what is left in the slots.

  1. **Program.**  The recording thread and the writer take turns (`step`).  A turn is what a thread does
     between two points at which the other one matters: the test of `write_data`, its mutex, one row.

  2. **Invariant** (`Stored`): the slots hold the rows that have been recorded last.  With a writer
     (`Buffered`) no row is recorded over one that is not in the file.

  Each turn keeps `Buffered` as long as the group fits (`Fits`): the file is within `max_file_size`, and the
  counters do not wrap, or wrap at a multiple of the number of slots.  The runs are in `RecordedRows`.
-/
import Trick.Lib.Run

namespace Trick.DataRecord

open Trick.Lib

/-! ## Program -/

/-- `DR_Buffering`; `DR_Thread_Buffer` is another name of `DR_Buffer`. -/
inductive Buffering where
  | buffer | noBuffer | ringBuffer
deriving DecidableEq

/-- `unsigned int` -/
def uintSize : Nat := 2 ^ 32

/-- `a - b` of two `unsigned int`. -/
def uintSub (a b : Nat) : Nat := (a + (uintSize - b)) % uintSize

/-- Where the recording thread is. -/
inductive MainPc (ρ : Type) where
  | idle
  /-- In `data_record`, before the mutex of `write_data`. -/
  | waits (rows : List ρ)
  /-- In `data_record`, with some rows to put into the slots. -/
  | stores (rows : List ρ)
  /-- In `shutdown`, before the mutex of `write_data`. -/
  | closing
  | closed

/-- Where the thread is that writes on its own account, the writer thread or that of the write job. -/
inductive WriterPc where
  | idle
  | waits
  /-- It has the mutex and is at `writer_num != local_buffer_num`. -/
  | copies (localBufferNum : Nat)

/-- **A data record group** with the file it writes. -/
structure DataRecordGroup (ρ : Type) where
  bufferType : Buffering
  maxNum : Nat
  maxFileSize : Nat
  /-- What `format_specific_write_data` returns for a row. -/
  bytes : Option ρ → Nat
  record : Bool := true
  bufferNum : Nat := 0
  writerNum : Nat := 0
  /-- The slots; nothing has been put into some of them. -/
  buffer : Nat → Option ρ := fun _ => none
  /-- The slot of `curr_buffer`. -/
  currBuffer : Nat := 0
  totalBytesWritten : Nat := 0
  file : List (Option ρ) := []
  main : MainPc ρ := .idle
  writer : WriterPc := .idle
  /-- Not in the source: the rows that have been recorded. -/
  recorded : List ρ := []

namespace DataRecordGroup

variable {ρ : Type} (g : DataRecordGroup ρ)

/-- The test at the beginning of `write_data`, once the group is initialised. -/
def mayWrite (mustWrite : Bool) : Bool :=
  g.record && (g.bufferType == .noBuffer || mustWrite) && decide (g.totalBytesWritten ≤ g.maxFileSize)

/-- `num_to_write` -/
def numToWrite : Nat :=
  if g.maxNum < uintSub g.bufferNum g.writerNum then g.maxNum else uintSub g.bufferNum g.writerNum

/-- The mutex has been locked: the row that is written first. -/
def startWriting : DataRecordGroup ρ := { g with writerNum := uintSub g.bufferNum g.numToWrite }

/-- One row into the file. -/
def copyRow : DataRecordGroup ρ :=
  let row := g.buffer (g.writerNum % g.maxNum)
  { g with
    file := g.file ++ [row]
    totalBytesWritten := g.totalBytesWritten + g.bytes row
    writerNum := (g.writerNum + 1) % uintSize }

/-- So many rows. -/
def copyRows : Nat → DataRecordGroup ρ → DataRecordGroup ρ
  | 0, g => g
  | n + 1, g => copyRows n g.copyRow

/-- The whole body of `write_data` between the lock and the unlock. -/
def writeRows : DataRecordGroup ρ := copyRows g.numToWrite g.startWriting

/-- One row into its slot. -/
def storeRow (row : ρ) : DataRecordGroup ρ :=
  let currBuffer := if g.bufferNum % g.maxNum = 0 then 0 else g.currBuffer + 1
  { g with
    currBuffer := currBuffer
    buffer := Function.update g.buffer currBuffer (some row)
    bufferNum := (g.bufferNum + 1) % uintSize
    recorded := g.recorded ++ [row] }

/-- `data_record` up to the mutex, or up to the first row.  "If we are going to have trouble fitting 2 data sets
    then write the data now." -/
def dataRecord (rows : List ρ) : DataRecordGroup ρ :=
  if g.record = true then
    if g.bufferType ≠ .ringBuffer ∧ uintSub g.maxNum 2 ≤ uintSub g.bufferNum g.writerNum ∧ g.mayWrite true = true then
      { g with main := .waits rows }
    else { g with main := .stores rows }
  else g

/-- `shutdown` up to the mutex. -/
def shutdown : DataRecordGroup ρ :=
  let g := { g with record := true }
  if g.mayWrite true = true then { g with main := .closing } else { g with main := .closed }

/-- The writer has the mutex. -/
def mutexLocked : Bool :=
  match g.writer with
  | .copies _ => true
  | _ => false

/-- The recording thread goes on. -/
def mainStep : DataRecordGroup ρ :=
  match g.main with
  | .waits rows => if g.mutexLocked = true then g else { g.writeRows with main := .stores rows }
  | .closing => if g.mutexLocked = true then g else { g.writeRows with main := .closed }
  | .stores (row :: rows) => { g.storeRow row with main := if rows = [] then .idle else .stores rows }
  | .stores [] | .idle | .closed => g

/-- The writer goes on. -/
def writerStep : DataRecordGroup ρ :=
  match g.writer with
  | .idle => g
  | .waits => { g.startWriting with writer := .copies g.bufferNum }
  | .copies localBufferNum =>
    if g.writerNum = localBufferNum then { g with writer := .idle } else g.copyRow

/-- What happens next. -/
inductive Turn (ρ : Type) where
  /-- `data_record`: a step of a change has a row before the one of the new values. -/
  | dataRecord (before : Option ρ) (row : ρ)
  | shutdown
  /-- `enable` and `disable` -/
  | enable (record : Bool)
  /-- The recording thread goes on. -/
  | main
  /-- The writer thread comes to the group. -/
  | writerThread
  /-- The write job is called. -/
  | writeJob
  /-- The writer goes on. -/
  | writer

/-- The recording thread is in none of the functions. -/
def idle : Bool :=
  match g.main with
  | .idle => true
  | _ => false

/-- The writer is in none of the functions. -/
def writerIdle : Bool :=
  match g.writer with
  | .idle => true
  | _ => false

/-- **One step.** -/
def step : Turn ρ → DataRecordGroup ρ
  | .dataRecord before row => if g.idle = true then g.dataRecord (before.toList ++ [row]) else g
  | .shutdown => if g.idle = true then g.shutdown else g
  | .enable record => if g.idle = true then { g with record := record } else g
  | .main => g.mainStep
  | .writerThread =>
    if g.writerIdle = true ∧ g.bufferType = .buffer ∧ g.mayWrite true = true then { g with writer := .waits } else g
  | .writeJob => if g.writerIdle = true ∧ g.mayWrite false = true then { g with writer := .waits } else g
  | .writer => g.writerStep

/-! ## Counters -/

/-- **The counters can be trusted**: they do not wrap, or wrap where the slots do. -/
def Counts (maxNum n : Nat) : Prop := maxNum ∣ uintSize ∨ n ≤ uintSize

theorem Counts.mono {maxNum n n' : Nat} (h : Counts maxNum n') (hle : n ≤ n') : Counts maxNum n := by
  rcases h with hdvd | hlt
  · exact Or.inl hdvd
  · exact Or.inr (Nat.le_trans hle hlt)

/-- The slot of a number. -/
theorem Counts.slot {maxNum n i : Nat} (h : Counts maxNum n) (hi : i < n) : i % uintSize % maxNum = i % maxNum := by
  rcases h with hdvd | hle
  · exact Nat.mod_mod_of_dvd i hdvd
  · rw [Nat.mod_eq_of_lt (Nat.lt_of_lt_of_le hi hle)]

/-- The difference of two counters. -/
theorem uintSub_mod {a b : Nat} (hle : b ≤ a) (hlt : a - b < uintSize) : uintSub (a % uintSize) (b % uintSize) = a - b := by
  unfold uintSub uintSize at *
  omega

theorem uintSub_of_le {a b : Nat} (hle : b ≤ a) (hlt : a < uintSize) : uintSub a b = a - b := by
  unfold uintSub uintSize at *
  omega

theorem mod_add_one {a n : Nat} (hn : 0 < n) : (if (a + 1) % n = 0 then 0 else a % n + 1) = (a + 1) % n := by
  have hlt : a % n < n := Nat.mod_lt a hn
  have hmod : (a + 1) % n = (a % n + 1) % n := (Nat.mod_add_mod a n 1).symm
  by_cases hend : a % n + 1 = n
  · have hz : (a + 1) % n = 0 := by rw [hmod, hend, Nat.mod_self]
    rw [if_pos hz, hz]
  · have hin : (a + 1) % n = a % n + 1 := by rw [hmod, Nat.mod_eq_of_lt (by omega)]
    rw [if_neg (by omega), hin]

/-- Two numbers that are not far apart have different slots. -/
theorem mod_ne {i j n : Nat} (hlt : i < j) (hn : j < i + n) : i % n ≠ j % n := by
  intro heq
  have hdvd : n ∣ j - i := (Nat.modEq_iff_dvd' (Nat.le_of_lt hlt)).mp heq
  have hle : n ≤ j - i := Nat.le_of_dvd (by omega) hdvd
  omega

/-! ## The slots -/

/-- **The slots hold the last rows.** -/
structure Stored : Prop where
  bufferNum : g.bufferNum = g.recorded.length % uintSize
  currBuffer : 0 < g.recorded.length → g.currBuffer = (g.recorded.length - 1) % g.maxNum
  slot : ∀ i, i < g.recorded.length → g.recorded.length ≤ i + g.maxNum → g.buffer (i % g.maxNum) = g.recorded[i]?

variable {g}

/-- **A row goes into the slot of its number.** -/
theorem Stored.storeRow (h : g.Stored) (hmax : 0 < g.maxNum) (hcounts : Counts g.maxNum (g.recorded.length + 1))
    (row : ρ) : (g.storeRow row).Stored := by
  have hlen : (g.storeRow row).recorded.length = g.recorded.length + 1 := List.length_append
  have hslot : g.bufferNum % g.maxNum = g.recorded.length % g.maxNum := by
    rw [h.bufferNum]
    exact hcounts.slot (Nat.lt_succ_self _)
  have hcurr : (g.storeRow row).currBuffer = g.recorded.length % g.maxNum := by
    show (if g.bufferNum % g.maxNum = 0 then 0 else g.currBuffer + 1) = _
    rw [hslot]
    cases hn : g.recorded.length with
    | zero => rw [Nat.zero_mod, if_pos rfl]
    | succ n =>
      have hlast := h.currBuffer (by omega)
      rw [hn, Nat.add_sub_cancel] at hlast
      rw [hlast]
      exact mod_add_one hmax
  refine ⟨?_, ?_, ?_⟩
  · show (g.bufferNum + 1) % uintSize = _
    rw [hlen, h.bufferNum, Nat.mod_add_mod]
  · intro _
    rw [hcurr, hlen, Nat.add_sub_cancel]
    rfl
  · intro i hi hlast
    rw [hlen] at hi hlast
    show Function.update g.buffer (g.storeRow row).currBuffer (some row) (i % g.maxNum) = (g.recorded ++ [row])[i]?
    have hlast : g.recorded.length + 1 ≤ i + g.maxNum := hlast
    rw [hcurr]
    rcases Nat.lt_or_ge i g.recorded.length with hold | hnew
    · -- the slot of an older row is another one
      rw [Function.update_of_ne (mod_ne hold (by omega)), List.getElem?_append_left hold]
      exact h.slot i hold (by omega)
    · obtain rfl : i = g.recorded.length := by omega
      rw [Function.update_self, List.getElem?_concat_length]

/-- **Some rows go into the file**, those from a number on. -/
theorem Stored.copyRows (h : g.Stored) (hcounts : Counts g.maxNum g.recorded.length) {n w : Nat}
    (hw : g.writerNum = w % uintSize) (hn : w + n = g.recorded.length) (hmax : n ≤ g.maxNum) :
    ∃ total, g.totalBytesWritten ≤ total ∧ DataRecordGroup.copyRows n g =
      { g with
        file := g.file ++ (g.recorded.drop w).map some
        totalBytesWritten := total
        writerNum := g.recorded.length % uintSize } := by
  induction n generalizing g w with
  | zero =>
    refine ⟨g.totalBytesWritten, Nat.le_refl _, ?_⟩
    have hdrop : g.recorded.drop w = [] := List.drop_eq_nil_of_le (by omega)
    have hwn : g.writerNum = g.recorded.length % uintSize := by rw [hw, ← hn, Nat.add_zero]
    rw [hdrop, List.map_nil, List.append_nil, ← hwn]
    rfl
  | succ n ih =>
    have hlt : w < g.recorded.length := by omega
    have hrow : g.buffer (g.writerNum % g.maxNum) = some (g.recorded[w]) := by
      rw [hw, hcounts.slot hlt, h.slot w hlt (by omega), List.getElem?_eq_getElem hlt]
    have hstored : g.copyRow.Stored := ⟨h.bufferNum, h.currBuffer, h.slot⟩
    have hw' : g.copyRow.writerNum = (w + 1) % uintSize := by
      show (g.writerNum + 1) % uintSize = _
      rw [hw, Nat.mod_add_mod]
    have hn' : w + 1 + n = g.copyRow.recorded.length := by
      show w + 1 + n = g.recorded.length
      omega
    obtain ⟨total, htotal, heq⟩ := ih hstored hcounts hw' hn' (by show n ≤ g.maxNum; omega)
    refine ⟨total, Nat.le_trans (Nat.le_add_right _ _) htotal, ?_⟩
    show DataRecordGroup.copyRows n g.copyRow = _
    rw [heq, List.drop_eq_getElem_cons hlt, List.map_cons]
    show { g with
      file := (g.file ++ [g.buffer (g.writerNum % g.maxNum)]) ++ (g.recorded.drop (w + 1)).map some
      totalBytesWritten := total
      writerNum := g.recorded.length % uintSize } = _
    rw [hrow, List.append_assoc, List.singleton_append]

/-! ## With a writer -/

/-- **The writer keeps up**: what is in the file was recorded first, and no slot is used again before its row has
    been written. -/
structure Buffered (g : DataRecordGroup ρ) : Prop where
  stored : g.Stored
  notRing : g.bufferType ≠ .ringBuffer
  slots : 2 ≤ g.maxNum ∧ g.maxNum < uintSize
  writerNum : g.writerNum = g.file.length % uintSize
  file : g.file = (g.recorded.take g.file.length).map some
  room : g.recorded.length ≤ g.file.length + g.maxNum
  waits : ∀ rows, g.main = .waits rows → rows.length ≤ 2
  stores : ∀ rows, g.main = .stores rows → g.recorded.length + rows.length ≤ g.file.length + g.maxNum
  closed : g.main = .closed → g.file.length = g.recorded.length
  copies : ∀ l, g.writer = .copies l → ∃ n, l = n % uintSize ∧ g.file.length ≤ n ∧ n ≤ g.recorded.length

theorem Buffered.length_le (h : g.Buffered) : g.file.length ≤ g.recorded.length := by
  have hlen := congrArg List.length h.file
  rw [List.length_map, List.length_take] at hlen
  omega

/-- What has been recorded and not written. -/
theorem Buffered.ahead (h : g.Buffered) :
    uintSub g.bufferNum g.writerNum = g.recorded.length - g.file.length := by
  have hle := h.length_le
  have hroom := h.room
  have hslots := h.slots
  rw [h.stored.bufferNum, h.writerNum]
  exact uintSub_mod hle (by omega)

theorem Buffered.numToWrite (h : g.Buffered) : g.numToWrite = g.recorded.length - g.file.length := by
  have hroom := h.room
  unfold DataRecordGroup.numToWrite
  rw [h.ahead, if_neg (by omega)]

/-- The writer starts where it stopped. -/
theorem Buffered.startWriting (h : g.Buffered) : g.startWriting = g := by
  have hle := h.length_le
  have hslots := h.slots
  have hroom := h.room
  have hback : uintSub g.bufferNum g.numToWrite = g.writerNum := by
    have hmod := uintSub_mod (a := g.recorded.length) (b := g.recorded.length - g.file.length) (Nat.sub_le _ _)
    rw [h.numToWrite, h.stored.bufferNum, h.writerNum]
    unfold uintSub uintSize at *
    omega
  unfold DataRecordGroup.startWriting
  rw [hback]

/-- **Everything goes into the file.** -/
theorem Buffered.writeRows (h : g.Buffered) (hcounts : Counts g.maxNum g.recorded.length) :
    ∃ total, g.totalBytesWritten ≤ total ∧ g.writeRows =
      { g with
        file := g.recorded.map some
        totalBytesWritten := total
        writerNum := g.recorded.length % uintSize } := by
  have hle := h.length_le
  have hroom := h.room
  obtain ⟨total, htotal, heq⟩ := h.stored.copyRows hcounts h.writerNum
    (show g.file.length + (g.recorded.length - g.file.length) = g.recorded.length by omega) (by omega)
  have hfile : g.file ++ (g.recorded.drop g.file.length).map some = g.recorded.map some := by
    conv_lhs => rw [h.file]
    rw [List.length_map, List.length_take, Nat.min_eq_left hle, ← List.map_append, List.take_append_drop]
  refine ⟨total, htotal, ?_⟩
  unfold DataRecordGroup.writeRows
  rw [h.startWriting, h.numToWrite, heq, hfile]

/-- One row goes into the file. -/
theorem Buffered.copyRow (h : g.Buffered) (hcounts : Counts g.maxNum g.recorded.length)
    (hlt : g.file.length < g.recorded.length) :
    g.copyRow.file = (g.recorded.take (g.file.length + 1)).map some ∧ g.copyRow.file.length = g.file.length + 1 := by
  have hroom := h.room
  have hrow : g.buffer (g.writerNum % g.maxNum) = some (g.recorded[g.file.length]) := by
    rw [h.writerNum, hcounts.slot hlt, h.stored.slot _ hlt (by omega), List.getElem?_eq_getElem hlt]
  refine ⟨?_, List.length_append⟩
  show g.file ++ [g.buffer (g.writerNum % g.maxNum)] = _
  rw [hrow, List.take_succ_eq_append_getElem hlt, List.map_append]
  exact congrArg (· ++ [some g.recorded[g.file.length]]) h.file

/-- The file is within its size, and the counters can be trusted. -/
structure Fits (g : DataRecordGroup ρ) : Prop where
  size : g.totalBytesWritten ≤ g.maxFileSize
  counts : Counts g.maxNum g.recorded.length

/-- `data_record` writes first when there is no room for two rows. -/
theorem Buffered.dataRecord (h : g.Buffered) (hfits : g.Fits) {rows : List ρ} (hrows : rows.length ≤ 2) :
    (g.dataRecord rows).Buffered := by
  have hslots := h.slots
  have hle := h.length_le
  unfold DataRecordGroup.dataRecord
  split
  · rename_i hrecord
    split
    · -- before the mutex
      exact { h with
        stored := ⟨h.stored.bufferNum, h.stored.currBuffer, h.stored.slot⟩
        waits := by
          intro rows' hrows'
          cases hrows'
          exact hrows
        stores := nofun
        closed := nofun }
    · -- there is room
      rename_i hno
      have hmay : g.mayWrite true = true := by
        unfold DataRecordGroup.mayWrite
        rw [hrecord, Bool.or_true, decide_eq_true hfits.size]
        rfl
      have hahead : g.recorded.length - g.file.length < g.maxNum - 2 := by
        by_contra hfar
        apply hno
        rw [h.ahead, uintSub_of_le hslots.1 hslots.2]
        exact ⟨h.notRing, by omega, hmay⟩
      exact { h with
        stored := ⟨h.stored.bufferNum, h.stored.currBuffer, h.stored.slot⟩
        waits := nofun
        stores := by
          intro rows' hrows'
          cases hrows'
          show g.recorded.length + rows.length ≤ g.file.length + g.maxNum
          omega
        closed := nofun }
  · exact h

theorem Buffered.shutdown (h : g.Buffered) (hfits : g.Fits) : g.shutdown.Buffered := by
  have hmay : { g with record := true }.mayWrite true = true := by
    unfold DataRecordGroup.mayWrite
    rw [Bool.or_true, decide_eq_true hfits.size]
    rfl
  unfold DataRecordGroup.shutdown
  rw [if_pos hmay]
  exact { h with
    stored := ⟨h.stored.bufferNum, h.stored.currBuffer, h.stored.slot⟩
    waits := nofun
    stores := nofun
    closed := nofun }

/-- The recording thread goes on. -/
theorem Buffered.mainStep (h : g.Buffered) (hfits : g.mainStep.Fits) (hcounts : Counts g.maxNum g.recorded.length) :
    g.mainStep.Buffered := by
  obtain ⟨total, -, hwrite⟩ := h.writeRows hcounts
  have hslots := h.slots
  have hlen : (g.recorded.map some).length = g.recorded.length := List.length_map _
  unfold DataRecordGroup.mainStep at hfits ⊢
  split
  · -- the forced write
    rename_i rows hmain
    split
    · exact h
    · rename_i hfree
      have hrows := h.waits rows hmain
      rw [hwrite]
      refine ⟨⟨h.stored.bufferNum, h.stored.currBuffer, h.stored.slot⟩, h.notRing, h.slots, ?_, ?_, ?_, nofun, ?_, nofun, ?_⟩
      · show g.recorded.length % uintSize = (g.recorded.map some).length % uintSize
        rw [hlen]
      · show g.recorded.map some = (g.recorded.take (g.recorded.map some).length).map some
        rw [hlen, List.take_length]
      · show g.recorded.length ≤ (g.recorded.map some).length + g.maxNum
        omega
      · intro rows' hrows'
        cases hrows'
        show g.recorded.length + rows.length ≤ (g.recorded.map some).length + g.maxNum
        omega
      · intro l hl
        have hlocked : g.mutexLocked = true := by
          unfold DataRecordGroup.mutexLocked
          have hwriter : g.writer = .copies l := hl
          rw [hwriter]
        exact absurd hlocked hfree
  · -- the last write
    split
    · exact h
    · rename_i hfree
      rw [hwrite]
      refine ⟨⟨h.stored.bufferNum, h.stored.currBuffer, h.stored.slot⟩, h.notRing, h.slots, ?_, ?_, ?_, nofun, nofun, ?_, ?_⟩
      · show g.recorded.length % uintSize = (g.recorded.map some).length % uintSize
        rw [hlen]
      · show g.recorded.map some = (g.recorded.take (g.recorded.map some).length).map some
        rw [hlen, List.take_length]
      · show g.recorded.length ≤ (g.recorded.map some).length + g.maxNum
        omega
      · exact fun _ => hlen
      · intro l hl
        have hlocked : g.mutexLocked = true := by
          unfold DataRecordGroup.mutexLocked
          have hwriter : g.writer = .copies l := hl
          rw [hwriter]
        exact absurd hlocked hfree
  · -- a row into its slot
    rename_i row rows hmain
    have hroom := h.stores (row :: rows) hmain
    rw [List.length_cons] at hroom
    rw [hmain] at hfits
    have hnew : (g.storeRow row).recorded.length = g.recorded.length + 1 := List.length_append
    have hcounts' : Counts g.maxNum (g.recorded.length + 1) := by
      have hc : Counts g.maxNum (g.recorded ++ [row]).length := hfits.counts
      rwa [List.length_append] at hc
    have hstored := h.stored.storeRow (by omega) hcounts' row
    have hle := h.length_le
    refine ⟨⟨hstored.bufferNum, hstored.currBuffer, hstored.slot⟩, h.notRing, h.slots, h.writerNum, ?_, ?_, ?_, ?_, ?_, ?_⟩
    · show g.file = ((g.recorded ++ [row]).take g.file.length).map some
      rw [List.take_append_of_le_length hle]
      exact h.file
    · show (g.recorded ++ [row]).length ≤ g.file.length + g.maxNum
      rw [List.length_append, List.length_singleton]
      omega
    · intro rows' hrows'
      have hrows' : (if rows = [] then MainPc.idle else .stores rows) = .waits rows' := hrows'
      split at hrows' <;> cases hrows'
    · intro rows' hrows'
      have hrows' : (if rows = [] then MainPc.idle else .stores rows) = .stores rows' := hrows'
      split at hrows'
      · cases hrows'
      · cases hrows'
        show (g.recorded ++ [row]).length + rows.length ≤ g.file.length + g.maxNum
        rw [List.length_append, List.length_singleton]
        omega
    · intro hclosed
      have hclosed : (if rows = [] then MainPc.idle else .stores rows) = .closed := hclosed
      split at hclosed <;> cases hclosed
    · intro l hl
      obtain ⟨n, hn, hfrom, hto⟩ := h.copies l hl
      refine ⟨n, hn, hfrom, ?_⟩
      show n ≤ (g.recorded ++ [row]).length
      rw [List.length_append]
      omega
  · exact h
  · exact h
  · exact h

/-- The writer goes on. -/
theorem Buffered.writerStep (h : g.Buffered) (hcounts : Counts g.maxNum g.recorded.length) : g.writerStep.Buffered := by
  have hslots := h.slots
  have hroom := h.room
  have hstored : Stored g := h.stored
  unfold DataRecordGroup.writerStep
  split
  · exact h
  · -- it has got the mutex
    rw [h.startWriting]
    exact { h with
      stored := ⟨hstored.bufferNum, hstored.currBuffer, hstored.slot⟩
      copies := by
        intro l hl
        cases hl
        exact ⟨g.recorded.length, hstored.bufferNum, h.length_le, Nat.le_refl _⟩ }
  · rename_i l hwriter
    obtain ⟨n, hn, hfrom, hto⟩ := h.copies l hwriter
    split
    · -- the last row has been copied
      exact { h with
        stored := ⟨hstored.bufferNum, hstored.currBuffer, hstored.slot⟩
        copies := nofun }
    · rename_i hmore
      have hlt : g.file.length < n := by
        rcases Nat.lt_or_ge g.file.length n with hlt | hge
        · exact hlt
        · obtain rfl : n = g.file.length := by omega
          exact absurd (h.writerNum.trans hn.symm) hmore
      obtain ⟨hfile, hlen⟩ := h.copyRow hcounts (by omega)
      refine ⟨⟨hstored.bufferNum, hstored.currBuffer, hstored.slot⟩, h.notRing, h.slots, ?_, ?_, ?_, h.waits, ?_, ?_, ?_⟩
      · show (g.writerNum + 1) % uintSize = _
        rw [hlen, h.writerNum, Nat.mod_add_mod]
      · rw [hlen]
        exact hfile
      · rw [hlen]
        show g.recorded.length ≤ _ + g.maxNum
        omega
      · intro rows hrows
        have hpending := h.stores rows hrows
        rw [hlen]
        show g.recorded.length + rows.length ≤ _ + g.maxNum
        omega
      · intro hclosed
        have hall := h.closed hclosed
        omega
      · intro l' hl'
        have hsame : l' = l := WriterPc.copies.inj (hl'.symm.trans hwriter)
        subst hsame
        refine ⟨n, hn, ?_, hto⟩
        rw [hlen]
        omega

end DataRecordGroup

end Trick.DataRecord
