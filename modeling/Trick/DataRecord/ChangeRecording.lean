/-
  `DataRecordGroup::data_record`: recording when something changes.

  A group watches some variables and records others.  In the mode `DR_Changes` a call puts a row into the
  buffer if a watched variable has changed; in the mode `DR_Changes_Step` it puts two, first the values of the
  row before it.

  1. **Data.**  `Freq`, `Call`, what a call finds; `Row`, what it records; `DataRecordGroup`, with the values
     that are kept for the comparison and for the extra row, the slots of the buffer and its 32-bit counter.

  2. **Program.**  `init`, `dataRecord`, `enable`, `disable`, and a step for each event (`step`).

  3. **Specification.**  `Truthful`: which calls record, what the rows are, and the order of their times.

  4. **Result.**  `recording_truthful`: this holds in every run whose steps are `StepOk`: the first call in the
     step mode finds the recorded variables zero, as its extra row claims that they were, and no call finds
     the counter at zero again without a change.
-/
import Trick.Lib.Run

namespace Trick.ChangeRecording

open Trick.Lib

/-! ## Program -/

/-- `DR_Freq` -/
inductive Freq where
  | always | changes | changesStep
deriving DecidableEq

variable {α : Type} {m n : Nat}

/-- **What a call finds**: the time, and the values of the `m` watched and the `n` recorded variables. -/
structure Call (α : Type) (m n : Nat) where
  time : ℚ
  watched : Fin m → α
  values : Fin n → α
deriving DecidableEq

/-- **A row** of the buffer; the time is the first variable. -/
structure Row (α : Type) (n : Nat) where
  time : ℚ
  values : Fin n → α
deriving DecidableEq

/-- `unsigned int` -/
def uintSize : Nat := 2 ^ 32

structure DataRecordGroup (α : Type) (m n : Nat) where
  freq : Freq
  record : Bool := true
  maxNum : Nat
  /-- `change_buffer`: the values to compare with. -/
  changeBuffer : Fin m → α
  /-- `last_value` of the recorded variables. -/
  lastValue : Fin n → α
  bufferNum : Nat := 0
  /-- The slot that `curr_buffer` points to. -/
  currBuffer : Nat := 0
  /-- The slots; nothing has been put into some of them. -/
  buffer : Nat → Option (Row α n) := fun _ => none
  /-- Not in the source: the calls of an enabled group, each with the rows that it has recorded. -/
  log : List (Call α m n × List (Row α n)) := []

namespace DataRecordGroup

/-- `init`: the memory for the last values is zeroed; `changeBuffer` has what the watched variables were when they
    were added. -/
def init (freq : Freq) (maxNum : Nat) (zero : Fin n → α) (changeBuffer : Fin m → α) : DataRecordGroup α m n :=
  { freq := freq
    maxNum := maxNum
    changeBuffer := changeBuffer
    lastValue := zero }

variable (g : DataRecordGroup α m n)

/-- A row goes into the slot of its number; `curr_buffer` is moved on by one, or back to the first slot. -/
def store (row : Row α n) : DataRecordGroup α m n :=
  let currBuffer := if g.bufferNum % g.maxNum = 0 then 0 else g.currBuffer + 1
  { g with
    currBuffer := currBuffer
    buffer := fun i => if i = currBuffer then some row else g.buffer i
    bufferNum := (g.bufferNum + 1) % uintSize }

variable [DecidableEq α]

/-- The loop over `change_buffer`: every variable that differs is copied, and tells that there is a change. -/
def detectChange (watched : Fin m → α) : Bool × DataRecordGroup α m n :=
  ((List.finRange m).any fun j => g.changeBuffer j ≠ watched j,
    { g with changeBuffer := fun j => if g.changeBuffer j ≠ watched j then watched j else g.changeBuffer j })

/-- The rows of a call that records, and the values it keeps. -/
def storeRows (call : Call α m n) : DataRecordGroup α m n × List (Row α n) :=
  let now : Row α n := ⟨call.time, call.values⟩
  let before : Row α n := ⟨call.time, g.lastValue⟩
  if g.freq = .changesStep then
    let g := (g.store before).store now
    ({ g with lastValue := call.values }, [before, now])
  else
    let g := g.store now
    ({ g with lastValue := call.values }, [now])

/-- `data_record`, for a group that is enabled. -/
def recordCall (call : Call α m n) : DataRecordGroup α m n × List (Row α n) :=
  let detected := if g.freq ≠ .always then g.detectChange call.watched else (false, g)
  if g.freq = .always ∨ g.bufferNum = 0 ∨ detected.1 = true then detected.2.storeRows call
  else (detected.2, [])

/-- `data_record` -/
def dataRecord (call : Call α m n) : DataRecordGroup α m n :=
  if g.record = true then
    let done := g.recordCall call
    { done.1 with log := g.log ++ [(call, done.2)] }
  else g

inductive Event (α : Type) (m n : Nat) where
  | dataRecord (call : Call α m n)
  | enable
  | disable

def step (g : DataRecordGroup α m n) : Event α m n → DataRecordGroup α m n
  | .dataRecord call => g.dataRecord call
  | .enable => { g with record := true }
  | .disable => { g with record := false }

end DataRecordGroup

/-! ## Specification -/

/-- The calls of a log, each with its rows. -/
abbrev Log (α : Type) (m n : Nat) := List (Call α m n × List (Row α n))

namespace Log

/-- All rows that have been recorded. -/
def rows (log : Log α m n) : List (Row α n) := log.flatMap Prod.snd

/-- The last call that has recorded something. -/
def lastRecorded (log : Log α m n) : Option (Call α m n) :=
  (log.filter fun entry => entry.2 ≠ []).getLast?.map Prod.fst

/-- **A call that is recorded as it should be**, after the calls `earlier`: it records exactly if it is the first
    one, or if a watched variable differs from what it was at the last call that has recorded; and every row
    has the values of this call or of an earlier one. -/
structure EntryRight (earlier : Log α m n) (entry : Call α m n × List (Row α n)) : Prop where
  records : entry.2 ≠ [] ↔
    earlier = [] ∨ ∃ last ∈ earlier.lastRecorded, ∃ j, entry.1.watched j ≠ last.watched j
  held : ∀ row ∈ entry.2, ∃ call ∈ (earlier ++ [entry]).map Prod.fst, row.values = call.values
  now : ∀ row ∈ entry.2, row.time = entry.1.time

end Log

/-- **Recording that is truthful**: every call is recorded as it should be, and the times of the rows do not
    decrease. -/
structure Truthful (g : DataRecordGroup α m n) : Prop where
  entries : ∀ earlier entry later, g.log = earlier ++ entry :: later → Log.EntryRight earlier entry
  times : (Log.rows g.log).Pairwise fun a b => a.time ≤ b.time
  /-- What the slots hold are recorded rows. -/
  slots : ∀ i, ∀ row ∈ g.buffer i, row ∈ Log.rows g.log

/-- The time does not run backwards. -/
def Legal (g : DataRecordGroup α m n) : DataRecordGroup.Event α m n → Prop
  | .dataRecord call => ∀ entry ∈ g.log, entry.1.time ≤ call.time
  | .enable | .disable => True

/-- **Where the code is truthful**: a first call in the step mode finds the zeros of the new memory, and a call that
    finds the counter at zero is the first one or sees a change. -/
def StepOk (g : DataRecordGroup α m n) : DataRecordGroup.Event α m n → Prop
  | .dataRecord call =>
    (g.log = [] → g.freq = .changesStep → call.values = g.lastValue) ∧
      (g.bufferNum = 0 → g.log = [] ∨ ∃ j, call.watched j ≠ g.changeBuffer j)
  | .enable | .disable => True

instance (g : DataRecordGroup α m n) : (e : DataRecordGroup.Event α m n) → Decidable (Legal g e)
  | .dataRecord call => inferInstanceAs (Decidable (∀ entry ∈ g.log, entry.1.time ≤ call.time))
  | .enable | .disable => isTrue trivial

instance [DecidableEq α] (g : DataRecordGroup α m n) :
    (e : DataRecordGroup.Event α m n) → Decidable (StepOk g e)
  | .dataRecord call =>
    inferInstanceAs (Decidable ((g.log = [] → g.freq = .changesStep → call.values = g.lastValue) ∧
      (g.bufferNum = 0 → g.log = [] ∨ ∃ j, call.watched j ≠ g.changeBuffer j)))
  | .enable | .disable => isTrue trivial

/-! ## One call -/

variable {g : DataRecordGroup α m n} {call : Call α m n}

/-- A slot has the row that is put in, or what it had. -/
theorem store_buffer {row row' : Row α n} {i : Nat} (h : row' ∈ (g.store row).buffer i) :
    row' = row ∨ row' ∈ g.buffer i := by
  change row' ∈ (if i = (g.store row).currBuffer then some row else g.buffer i) at h
  split_ifs at h
  · exact Or.inl (Option.mem_some.mp h).symm
  · exact Or.inr h

/-- The rows that a call records when it does. -/
def newRows (g : DataRecordGroup α m n) (call : Call α m n) : List (Row α n) :=
  if g.freq = .changesStep then [⟨call.time, g.lastValue⟩, ⟨call.time, call.values⟩]
  else [⟨call.time, call.values⟩]

theorem newRows_ne_nil : newRows g call ≠ [] := by
  unfold newRows
  split <;> exact List.cons_ne_nil _ _

theorem newRows_time {row : Row α n} (h : row ∈ newRows g call) : row.time = call.time := by
  unfold newRows at h
  split at h
  · rcases List.mem_pair.mp h with rfl | rfl <;> rfl
  · rw [List.mem_singleton.mp h]

/-- The values of a row are those of the call, or in the step mode the ones that were kept. -/
theorem newRows_values {row : Row α n} (h : row ∈ newRows g call) :
    row.values = call.values ∨ (g.freq = .changesStep ∧ row.values = g.lastValue) := by
  unfold newRows at h
  split at h
  · rename_i hstep
    rcases List.mem_pair.mp h with rfl | rfl
    · exact Or.inr ⟨hstep, rfl⟩
    · exact Or.inl rfl
  · rw [List.mem_singleton.mp h]
    exact Or.inl rfl

/-- **What the call of a group that is enabled can do**: record its rows, or find nothing changed. -/
inductive Recording (g : DataRecordGroup α m n) (call : Call α m n) : DataRecordGroup α m n × List (Row α n) → Prop
  | records (g' : DataRecordGroup α m n)
      (why : g.bufferNum = 0 ∨ ∃ j, call.watched j ≠ g.changeBuffer j)
      (freq : g'.freq = g.freq) (log : g'.log = g.log) (changeBuffer : g'.changeBuffer = call.watched)
      (lastValue : g'.lastValue = call.values)
      (slots : ∀ i, ∀ row ∈ g'.buffer i, row ∈ newRows g call ∨ row ∈ g.buffer i) :
      Recording g call (g', newRows g call)
  | nothing (why : ¬ (g.bufferNum = 0 ∨ ∃ j, call.watched j ≠ g.changeBuffer j)) : Recording g call (g, [])

theorem storeRows_snd (g : DataRecordGroup α m n) (call : Call α m n) : (g.storeRows call).2 = newRows g call := by
  unfold DataRecordGroup.storeRows newRows
  split <;> rfl

/-- The rows are in slots, and the other slots have what they had. -/
theorem storeRows_buffer {row : Row α n} {i : Nat} (h : row ∈ (g.storeRows call).1.buffer i) :
    row ∈ newRows g call ∨ row ∈ g.buffer i := by
  unfold DataRecordGroup.storeRows at h
  unfold newRows
  split at h
  · rename_i hstep
    rw [if_pos hstep]
    rcases store_buffer h with rfl | h
    · exact Or.inl (List.mem_cons_of_mem _ (List.mem_singleton_self _))
    rcases store_buffer h with rfl | h
    · exact Or.inl List.mem_cons_self
    · exact Or.inr h
  · rename_i hstep
    rw [if_neg hstep]
    rcases store_buffer h with rfl | h
    · exact Or.inl (List.mem_singleton_self _)
    · exact Or.inr h

theorem storeRows_kept (g : DataRecordGroup α m n) (call : Call α m n) :
    (g.storeRows call).1.freq = g.freq ∧ (g.storeRows call).1.log = g.log ∧
      (g.storeRows call).1.changeBuffer = g.changeBuffer ∧ (g.storeRows call).1.lastValue = call.values := by
  unfold DataRecordGroup.storeRows
  split <;> exact ⟨rfl, rfl, rfl, rfl⟩

/-! ## The invariant -/

/-- **What holds between two calls**, for a group in one of the modes for changes. -/
structure Right (g : DataRecordGroup α m n) : Prop where
  mode : g.freq ≠ .always
  truthful : Truthful g
  /-- Before the first call nothing has been counted. -/
  fresh : g.log = [] → g.bufferNum = 0
  /-- The values to compare with are those of the last call that has recorded. -/
  compares : g.log ≠ [] → ∃ last ∈ Log.lastRecorded g.log, g.changeBuffer = last.watched
  /-- The values for the extra row are those of a call. -/
  keeps : g.log ≠ [] → ∃ call ∈ g.log.map Prod.fst, g.lastValue = call.values
  /-- The time of a row is that of a call. -/
  timed : ∀ row ∈ Log.rows g.log, ∃ call ∈ g.log.map Prod.fst, row.time = call.time

theorem rows_append (log : Log α m n) (entry : Call α m n × List (Row α n)) :
    Log.rows (log ++ [entry]) = Log.rows log ++ entry.2 := by
  unfold Log.rows
  rw [List.flatMap_append, List.flatMap_singleton]

theorem lastRecorded_append_records (log : Log α m n) (call : Call α m n) {rows : List (Row α n)} (hrows : rows ≠ []) :
    Log.lastRecorded (log ++ [(call, rows)]) = some call := by
  unfold Log.lastRecorded
  rw [List.filter_append, List.filter_singleton]
  simp [hrows]

theorem lastRecorded_append_nothing (log : Log α m n) (call : Call α m n) :
    Log.lastRecorded (log ++ [(call, [])]) = Log.lastRecorded log := by
  unfold Log.lastRecorded
  rw [List.filter_append, List.filter_singleton]
  simp

variable {freq : Freq} {maxNum : Nat} {zero : Fin n → α} {changeBuffer : Fin m → α}

theorem init_right (hfreq : freq ≠ .always) :
    Right (DataRecordGroup.init freq maxNum zero changeBuffer) := by
  refine ⟨hfreq, ⟨?_, List.Pairwise.nil, fun _ _ hrow => (nomatch hrow)⟩, fun _ => rfl,
    fun hne => absurd rfl hne, fun hne => absurd rfl hne, fun _ hrow => (nomatch hrow)⟩
  intro earlier entry later heq
  exact absurd heq.symm (List.append_ne_nil_of_right_ne_nil _ (List.cons_ne_nil _ _))

/-- The flag does not matter to what has been recorded. -/
theorem Right.setRecord (h : Right g) (record : Bool) : Right { g with record := record } :=
  ⟨h.mode, ⟨h.truthful.entries, h.truthful.times, h.truthful.slots⟩, h.fresh, h.compares, h.keeps, h.timed⟩

/-! ## What a call does -/

variable [DecidableEq α]

/-- **The loop over the watched variables**: it sees a change exactly if there is one, and then has copied them all. -/
theorem detectChange_spec (watched : Fin m → α) :
    ((g.detectChange watched).1 = true ↔ ∃ j, watched j ≠ g.changeBuffer j) ∧
      (g.detectChange watched).2 = { g with changeBuffer := watched } := by
  constructor
  · show ((List.finRange m).any fun j => decide (g.changeBuffer j ≠ watched j)) = true ↔ _
    rw [List.any_eq_true]
    constructor
    · rintro ⟨j, -, hj⟩
      exact ⟨j, (of_decide_eq_true hj).symm⟩
    · rintro ⟨j, hj⟩
      exact ⟨j, List.mem_finRange j, decide_eq_true hj.symm⟩
  · unfold DataRecordGroup.detectChange
    simp only
    congr 1
    funext j
    by_cases hj : g.changeBuffer j = watched j
    · rw [if_neg (not_not.mpr hj)]
      exact hj
    · rw [if_pos hj]

/-- **A call in one of the modes for changes.** -/
theorem recordCall_spec (hfreq : g.freq ≠ .always) : Recording g call (g.recordCall call) := by
  obtain ⟨hdetected, hcopied⟩ := detectChange_spec (g := g) call.watched
  unfold DataRecordGroup.recordCall
  simp only [if_pos hfreq, hcopied, hdetected, hfreq, false_or]
  split
  · rename_i hwhy
    obtain ⟨hf, hl, hc, hv⟩ := storeRows_kept { g with changeBuffer := call.watched } call
    have hrows : newRows { g with changeBuffer := call.watched } call = newRows g call := rfl
    have hslots : ∀ i, ∀ row ∈ (DataRecordGroup.storeRows { g with changeBuffer := call.watched } call).1.buffer i,
        row ∈ newRows g call ∨ row ∈ g.buffer i :=
      fun i row hrow => storeRows_buffer (g := { g with changeBuffer := call.watched }) hrow
    have hrecords := Recording.records _ hwhy hf hl hc hv hslots
    rw [← hrows, ← storeRows_snd] at hrecords
    exact hrecords
  · rename_i hwhy
    -- nothing has changed, so nothing was copied either
    have hsame : call.watched = g.changeBuffer := by
      funext j
      by_contra hj
      exact hwhy (Or.inr ⟨j, hj⟩)
    have hg : { g with changeBuffer := call.watched } = g := by
      rw [hsame]
    rw [hg]
    exact Recording.nothing hwhy

/-- **A call keeps the group right.** -/
theorem Right.dataRecord (h : Right g) (hlegal : Legal g (.dataRecord call)) (hok : StepOk g (.dataRecord call)) :
    Right (g.dataRecord call) := by
  unfold DataRecordGroup.dataRecord
  by_cases hrecord : g.record = true
  swap
  · rw [if_neg hrecord]
    exact h
  rw [if_pos hrecord]
  obtain ⟨hfirst, hcounter⟩ := hok
  have hspec : Recording g call (g.recordCall call) := recordCall_spec h.mode
  have hcalls : ∀ rows, (g.log ++ [(call, rows)]).map Prod.fst = g.log.map Prod.fst ++ [call] := by
    intro rows
    rw [List.map_append, List.map_singleton]
  generalize g.recordCall call = done at hspec ⊢
  cases hspec with
  | records g' why freq log changeBuffer lastValue slots =>
    have hrows := rows_append g.log (call, newRows g call)
    have htime : ∀ row ∈ newRows g call, row.time = call.time := fun row hrow => newRows_time hrow
    refine ⟨freq ▸ h.mode, ⟨?_, ?_, ?_⟩, ?_, ?_, ?_, ?_⟩
    · -- the new entry
      refine forall_split_concat h.truthful.entries ⟨⟨fun _ => ?_, fun _ => newRows_ne_nil⟩, ?_, htime⟩
      · by_cases hnone : g.log = []
        · exact Or.inl hnone
        obtain ⟨last, hlast, hcompare⟩ := h.compares hnone
        have hchange : ∃ j, call.watched j ≠ g.changeBuffer j := by
          rcases why with hzero | hchange
          · exact (hcounter hzero).resolve_left hnone
          · exact hchange
        rw [hcompare] at hchange
        exact Or.inr ⟨last, hlast, hchange⟩
      · intro row hrow
        rw [hcalls]
        rcases newRows_values hrow with hvalues | ⟨hstep, hvalues⟩
        · exact ⟨call, List.mem_append_right _ (List.mem_singleton_self _), hvalues⟩
        · by_cases hnone : g.log = []
          · refine ⟨call, List.mem_append_right _ (List.mem_singleton_self _), ?_⟩
            rw [hvalues, hfirst hnone hstep]
          · obtain ⟨c, hc, hkept⟩ := h.keeps hnone
            exact ⟨c, List.mem_append_left _ hc, hvalues.trans hkept⟩
    · show (Log.rows (g.log ++ [(call, newRows g call)])).Pairwise _
      rw [hrows]
      refine List.pairwise_append.mpr ⟨h.truthful.times, ?_, ?_⟩
      · refine List.pairwise_of_forall_mem_list fun a ha b hb => ?_
        rw [htime a ha, htime b hb]
      · intro a ha b hb
        obtain ⟨c, hc, hat⟩ := h.timed a ha
        obtain ⟨entry, hentry, rfl⟩ := List.mem_map.mp hc
        rw [hat, htime b hb]
        exact hlegal entry hentry
    · intro i row hrow
      show row ∈ Log.rows (g.log ++ [(call, newRows g call)])
      rw [hrows]
      rcases slots i row hrow with hnew | hold
      · exact List.mem_append_right _ hnew
      · exact List.mem_append_left _ (h.truthful.slots i row hold)
    · exact fun hnil => absurd hnil (List.append_ne_nil_of_right_ne_nil _ (List.cons_ne_nil _ _))
    · exact fun _ => ⟨call, lastRecorded_append_records g.log call newRows_ne_nil, changeBuffer⟩
    · intro _
      refine ⟨call, ?_, lastValue⟩
      show call ∈ (g.log ++ [(call, newRows g call)]).map Prod.fst
      rw [hcalls]
      exact List.mem_append_right _ (List.mem_singleton_self _)
    · show ∀ row ∈ Log.rows (g.log ++ [(call, newRows g call)]), ∃ c ∈ (g.log ++ [(call, newRows g call)]).map Prod.fst, _
      rw [hrows, hcalls]
      intro row hrow
      rcases List.mem_append.mp hrow with hrow | hrow
      · obtain ⟨c, hc, ht⟩ := h.timed row hrow
        exact ⟨c, List.mem_append_left _ hc, ht⟩
      · exact ⟨call, List.mem_append_right _ (List.mem_singleton_self _), htime row hrow⟩
  | nothing why =>
    -- the first call records, so there is one before this
    have hsome : g.log ≠ [] := fun hnil => why (Or.inl (h.fresh hnil))
    obtain ⟨last, hlast, hcompare⟩ := h.compares hsome
    have hrows : Log.rows (g.log ++ [(call, [])]) = Log.rows g.log := by
      rw [rows_append, List.append_nil]
    refine ⟨h.mode, ⟨?_, ?_, ?_⟩, ?_, ?_, ?_, ?_⟩
    · refine forall_split_concat h.truthful.entries
        ⟨⟨fun hne => absurd rfl hne, ?_⟩, fun row hrow => (nomatch hrow), fun row hrow => (nomatch hrow)⟩
      rintro (hnil | ⟨last', hlast', hchange⟩)
      · exact absurd hnil hsome
      · rw [Option.mem_unique hlast' hlast, ← hcompare] at hchange
        exact absurd (Or.inr hchange) why
    · show (Log.rows (g.log ++ [(call, [])])).Pairwise _
      rw [hrows]
      exact h.truthful.times
    · intro i row hrow
      show row ∈ Log.rows (g.log ++ [(call, [])])
      rw [hrows]
      exact h.truthful.slots i row hrow
    · exact fun hnil => absurd hnil (List.append_ne_nil_of_right_ne_nil _ (List.cons_ne_nil _ _))
    · intro _
      refine ⟨last, ?_, hcompare⟩
      show last ∈ Log.lastRecorded (g.log ++ [(call, [])])
      rw [lastRecorded_append_nothing]
      exact hlast
    · intro _
      obtain ⟨c, hc, hkept⟩ := h.keeps hsome
      refine ⟨c, ?_, hkept⟩
      show c ∈ (g.log ++ [(call, [])]).map Prod.fst
      rw [hcalls]
      exact List.mem_append_left _ hc
    · show ∀ row ∈ Log.rows (g.log ++ [(call, [])]), ∃ c ∈ (g.log ++ [(call, [])]).map Prod.fst, _
      rw [hrows, hcalls]
      intro row hrow
      obtain ⟨c, hc, ht⟩ := h.timed row hrow
      exact ⟨c, List.mem_append_left _ hc, ht⟩

/-! ## Result -/

/-- A step with a time that does not run backwards, where the code is truthful. -/
def LegalOk (g : DataRecordGroup α m n) (e : DataRecordGroup.Event α m n) : Prop := Legal g e ∧ StepOk g e

instance (g : DataRecordGroup α m n) (e : DataRecordGroup.Event α m n) : Decidable (LegalOk g e) :=
  inferInstanceAs (Decidable (_ ∧ _))

/-- **In every run whose steps are `StepOk`** the recording in the modes for changes is truthful. -/
theorem recording_truthful (hfreq : freq ≠ .always) (events : List (DataRecordGroup.Event α m n))
    (hok : Guarded LegalOk DataRecordGroup.step (DataRecordGroup.init freq maxNum zero changeBuffer) events) :
    Truthful (run DataRecordGroup.step (DataRecordGroup.init freq maxNum zero changeBuffer) events) := by
  have hstep : ∀ (g : DataRecordGroup α m n) (e : DataRecordGroup.Event α m n), Right g → LegalOk g e →
      Right (DataRecordGroup.step g e) := by
    rintro g e h ⟨hlegal, hok⟩
    cases e with
    | dataRecord call => exact h.dataRecord hlegal hok
    | enable => exact h.setRecord true
    | disable => exact h.setRecord false
  exact (Guarded.invariant hstep events _ (init_right hfreq) hok).truthful

/-- A group of one variable that is watched and recorded, from 0 on: it stays, changes, and is recorded in steps. -/
def oneVariable : List (DataRecordGroup.Event Nat 1 1) :=
  [.dataRecord ⟨0, ![0], ![0]⟩, .dataRecord ⟨1, ![0], ![0]⟩, .disable, .dataRecord ⟨2, ![5], ![5]⟩, .enable,
    .dataRecord ⟨3, ![7], ![7]⟩]

theorem recording_truthful_oneVariable :
    Truthful (run DataRecordGroup.step (DataRecordGroup.init .changesStep 2 ![0] ![0]) oneVariable) :=
  recording_truthful (by decide) oneVariable (by decide +kernel)

/-- **Not always**: a variable that is 5 at the first call in the step mode is recorded as 0 at first. -/
theorem not_recording_truthful :
    ¬ ∀ events : List (DataRecordGroup.Event Nat 1 1),
      Guarded Legal DataRecordGroup.step (DataRecordGroup.init .changesStep 2 ![0] ![5]) events →
        Truthful (run DataRecordGroup.step (DataRecordGroup.init .changesStep 2 ![0] ![5]) events) := by
  intro h
  have htruthful := h [.dataRecord ⟨0, ![5], ![5]⟩] (by decide +kernel)
  have hentry := htruthful.entries [] (⟨0, ![5], ![5]⟩, [⟨0, ![0]⟩, ⟨0, ![5]⟩]) [] (by decide +kernel)
  obtain ⟨call, hcall, hvalues⟩ := hentry.held ⟨0, ![0]⟩ List.mem_cons_self
  have hcall : call = ⟨0, ![5], ![5]⟩ := List.mem_singleton.mp hcall
  rw [hcall] at hvalues
  exact absurd (congrFun hvalues 0) (by decide)

end Trick.ChangeRecording
