/-
  The shape of the master's queue.

  The runs that have never been dispatched stand at the front of the queue, in the order of their ids,
  and the runs that are to be tried again behind them (`Shape`).  So the next run that is prepared for
  the first time is always the `m`-th, and each variable has been asked for `m` values by then.

  At the end of a file the master reduces the number of runs by deleting from the end of the queue.
  The shape survives that if no run is waiting to be tried again.
-/
import Trick.Lib.Modify
import Trick.MonteCarlo.Master

namespace Trick.Monte

open Trick.Lib

/-! ## `dequeue` -/

theorem dequeue_cons_of_ne {r x : RunId} (h : x ≠ r) (l : List RunId) :
    dequeue r (x :: l) = x :: dequeue r l := by
  cases l with
  | nil =>
    show (if x = r then [] else [x]) = [x]
    rw [if_neg h]
  | cons y l =>
    show (if x = r then y :: dequeue r l else x :: dequeue r (y :: l)) = _
    rw [if_neg h]

theorem dequeue_cons_self (r y : RunId) (l : List RunId) :
    dequeue r (r :: y :: l) = y :: dequeue r l := by
  show (if r = r then y :: dequeue r l else r :: dequeue r (y :: l)) = _
  rw [if_pos rfl]

theorem dequeue_singleton (r : RunId) : dequeue r [r] = [] := by
  show (if r = r then [] else [r]) = []
  rw [if_pos rfl]

/-- A run that is not in the queue. -/
theorem dequeue_of_not_mem {r : RunId} {l : List RunId} (h : r ∉ l) : dequeue r l = l := by
  induction l with
  | nil => rfl
  | cons x l ih =>
    rw [List.mem_cons, not_or] at h
    rw [dequeue_cons_of_ne (Ne.symm h.1), ih h.2]

/-- The front of the queue. -/
theorem dequeue_head {r : RunId} {l : List RunId} (h : r ∉ l) : dequeue r (r :: l) = l := by
  cases l with
  | nil => exact dequeue_singleton r
  | cons y l =>
    rw [List.mem_cons, not_or] at h
    rw [dequeue_cons_self, dequeue_of_not_mem h.2]

theorem dequeue_append {r : RunId} {l l' : List RunId} (h : r ∉ l) :
    dequeue r (l ++ l') = l ++ dequeue r l' := by
  induction l with
  | nil => rfl
  | cons x l ih =>
    rw [List.mem_cons, not_or] at h
    rw [List.cons_append, dequeue_cons_of_ne (Ne.symm h.1), ih h.2, List.cons_append]

theorem dequeue_sublist (r : RunId) (l : List RunId) : (dequeue r l).Sublist l := by
  -- two entries at a time, as the loop goes
  induction l using dequeue.induct r with
  | case1 => exact List.Sublist.refl _
  | case2 =>
    rw [dequeue_singleton]
    exact List.nil_sublist _
  | case3 x hx =>
    rw [dequeue_cons_of_ne hx]
    exact List.Sublist.refl _
  | case4 y rest ih =>
    rw [dequeue_cons_self]
    exact List.Sublist.cons _ (ih.cons_cons y)
  | case5 x y rest hx ih =>
    rw [dequeue_cons_of_ne hx]
    exact ih.cons_cons x

/-- Only the run itself is taken out. -/
theorem mem_dequeue_of_ne {r x : RunId} {l : List RunId} (hne : x ≠ r) (hx : x ∈ l) :
    x ∈ dequeue r l := by
  induction l using dequeue.induct r with
  | case1 => cases hx
  | case2 => exact absurd (List.mem_singleton.mp hx) hne
  | case3 y hy =>
    rw [dequeue_cons_of_ne hy]
    exact hx
  | case4 y rest ih =>
    rw [dequeue_cons_self]
    rcases List.mem_cons.mp hx with hx | hx
    · exact absurd hx hne
    · rcases List.mem_cons.mp hx with rfl | hx
      · exact List.mem_cons_self ..
      · exact List.mem_cons_of_mem _ (ih hx)
  | case5 z y rest hz ih =>
    rw [dequeue_cons_of_ne hz]
    rcases List.mem_cons.mp hx with rfl | hx
    · exact List.mem_cons_self ..
    · exact List.mem_cons_of_mem _ (ih hx)

/-- A run that is in the queue once is taken out. -/
theorem not_mem_dequeue {r : RunId} {l : List RunId} (h : l.Nodup) : r ∉ dequeue r l := by
  induction l with
  | nil => exact List.not_mem_nil
  | cons x l ih =>
    rw [List.nodup_cons] at h
    by_cases hx : x = r
    · subst hx
      rw [dequeue_head h.1]
      exact h.1
    · rw [dequeue_cons_of_ne hx, List.mem_cons, not_or]
      exact ⟨Ne.symm hx, ih h.2⟩

/-! ## Drawing the values of a run -/

/-- A file comes to its end at the `k`-th value. -/
def EofAt (vs : List MonteVar) (k : Nat) : Prop := ∃ v ∈ vs, (v.next k).text = eof

instance (vs : List MonteVar) (k : Nat) : Decidable (EofAt vs k) :=
  inferInstanceAs (Decidable (∃ v ∈ vs, _))

/-- The texts of the `k`-th values: what a slave is sent for run `k`. -/
def textsAt (vs : List MonteVar) (k : Nat) : List String := vs.map fun v => (v.next k).text

/-- The `k`-th values: what is written to `monte_runs` for run `k`. -/
def valuesAt (vs : List MonteVar) (k : Nat) : List String := vs.map fun v => (v.next k).value

/-- The streams do not change. -/
theorem drawVariables_next (vs : List MonteVar) :
    (drawVariables vs).1.map MonteVar.next = vs.map MonteVar.next := by
  induction vs with
  | nil => rfl
  | cons v vs ih =>
    unfold drawVariables
    split
    · rfl
    · show _ :: (drawVariables vs).1.map MonteVar.next = _
      rw [ih]
      rfl

/-- At the end of a file the loop stops. -/
theorem drawVariables_of_eof {vs : List MonteVar} {k : Nat} (hk : ∀ v ∈ vs, v.drawn = k)
    (h : EofAt vs k) : (drawVariables vs).2.2 = true := by
  induction vs with
  | nil => obtain ⟨v, hv, _⟩ := h; cases hv
  | cons v vs ih =>
    rw [List.forall_mem_cons] at hk
    unfold drawVariables
    split
    · rfl
    · rename_i hne
      obtain ⟨v', hv', heof⟩ := h
      rcases List.mem_cons.mp hv' with rfl | hv'
      · rw [hk.1] at hne
        exact absurd heof hne
      · exact ih hk.2 ⟨v', hv', heof⟩

/-- No variable is asked for more than its `k`-th value. -/
theorem drawVariables_drawn {vs : List MonteVar} {k : Nat} (hk : ∀ v ∈ vs, v.drawn = k) :
    ∀ v ∈ (drawVariables vs).1, v.drawn ≤ k + 1 := by
  induction vs with
  | nil => intro v hv; cases hv
  | cons v vs ih =>
    rw [List.forall_mem_cons] at hk
    have hself : v.getNextValue.drawn = k + 1 := congrArg (· + 1) hk.1
    unfold drawVariables
    split
    · intro v' hv'
      rcases List.mem_cons.mp hv' with rfl | hv'
      · exact le_of_eq hself
      · rw [hk.2 v' hv']
        exact Nat.le_succ k
    · intro v' hv'
      rcases List.mem_cons.mp hv' with rfl | hv'
      · exact le_of_eq hself
      · exact ih hk.2 v' hv'

/-- Otherwise every variable is asked for its `k`-th value. -/
theorem drawVariables_of_not_eof {vs : List MonteVar} {k : Nat} (hk : ∀ v ∈ vs, v.drawn = k)
    (h : ¬ EofAt vs k) :
    drawVariables vs = (vs.map MonteVar.getNextValue, textsAt vs k, false) := by
  induction vs with
  | nil => rfl
  | cons v vs ih =>
    rw [List.forall_mem_cons] at hk
    have hne : ¬ (v.next v.drawn).text = eof := fun heof =>
      h ⟨v, List.mem_cons_self .., by rw [← hk.1]; exact heof⟩
    have hrest : ¬ EofAt vs k := fun ⟨v', hv', heof⟩ => h ⟨v', List.mem_cons_of_mem _ hv', heof⟩
    unfold drawVariables
    rw [if_neg hne, ih hk.2 hrest, hk.1]
    rfl

/-- The members `value` after that. -/
theorem map_value_getNextValue {vs : List MonteVar} {k : Nat} (hk : ∀ v ∈ vs, v.drawn = k)
    (h : ¬ EofAt vs k) : (vs.map MonteVar.getNextValue).map MonteVar.value = valuesAt vs k := by
  rw [List.map_map]
  refine List.map_congr_left fun v hv => ?_
  have hne : ¬ (v.next v.drawn).text = eof := fun heof =>
    h ⟨v, hv, by rw [← hk v hv]; exact heof⟩
  show (if _ then _ else _) = _
  rw [if_neg hne, hk v hv]

theorem textsAt_congr {vs vs' : List MonteVar} (h : vs'.map MonteVar.next = vs.map MonteVar.next)
    (k : Nat) : textsAt vs' k = textsAt vs k := by
  have hmap : ∀ l : List MonteVar, textsAt l k =
      (l.map MonteVar.next).map fun next => (next k).text := fun l => by
    rw [List.map_map]
    rfl
  rw [hmap, hmap, h]

theorem valuesAt_congr {vs vs' : List MonteVar} (h : vs'.map MonteVar.next = vs.map MonteVar.next)
    (k : Nat) : valuesAt vs' k = valuesAt vs k := by
  have hmap : ∀ l : List MonteVar, valuesAt l k =
      (l.map MonteVar.next).map fun next => (next k).value := fun l => by
    rw [List.map_map]
    rfl
  rw [hmap, hmap, h]

theorem eofAt_iff {vs : List MonteVar} {k : Nat} : EofAt vs k ↔ eof ∈ textsAt vs k := by
  unfold EofAt textsAt
  rw [List.mem_map]

theorem eofAt_congr {vs vs' : List MonteVar} (h : vs'.map MonteVar.next = vs.map MonteVar.next)
    (k : Nat) : EofAt vs' k ↔ EofAt vs k := by
  rw [eofAt_iff, eofAt_iff, textsAt_congr h]

/-! ## The shape of the queue -/

namespace MonteCarlo

/-- No run of the queue has been dispatched before. -/
def NoRetryWaiting (s : MonteCarlo) : Prop := ∀ r ∈ s.runs, (s.run r).numTries = 0

instance (s : MonteCarlo) : Decidable s.NoRetryWaiting :=
  inferInstanceAs (Decidable (∀ r ∈ s.runs, _))

/-- A run that has been dispatched before. -/
def Tried (s : MonteCarlo) (m r : Nat) : Prop :=
  r < m ∧ 1 ≤ (s.run r).numTries ∧ s.inRange r = true

/-- **The queue**: the runs from the `m`-th on, which nobody has touched yet, then the runs that are to
    be tried again. -/
structure Shape (s : MonteCarlo) (m : Nat) : Prop where
  le : m ≤ s.numRuns
  queue : ∃ retries : List Nat, s.runs = List.range' m (s.numRuns - m) ++ retries ∧
    ∀ r ∈ retries, s.Tried m r
  fresh : ∀ r, m ≤ r → r < s.numRuns → s.run r = {}
  drawn : m < s.numRuns → ∀ v ∈ s.monteVariables, v.drawn = m
  slaves : ∀ sl ∈ s.slaves, ∀ r, sl.currentRun = some r → s.Tried m r

variable {s s' : MonteCarlo} {m r : Nat} {rest : List RunId}

/-- Every run from the `m`-th on is in the queue. -/
theorem Shape.mem_of_le (h : s.Shape m) (hm : m ≤ r) (hr : r < s.numRuns) : r ∈ s.runs := by
  obtain ⟨retries, hq, _⟩ := h.queue
  rw [hq, List.mem_append, List.mem_range'_1]
  omega

/-- The front of the queue: the `m`-th run, or, when all have been prepared, one to be tried again. -/
theorem Shape.head (h : s.Shape m) (hr : s.runs = r :: rest) :
    (r = m ∧ m < s.numRuns ∧ ∃ retries : List Nat,
      rest = List.range' (m + 1) (s.numRuns - (m + 1)) ++ retries ∧ ∀ r ∈ retries, s.Tried m r) ∨
    (m = s.numRuns ∧ s.Tried m r ∧ ∀ r ∈ s.runs, s.Tried m r) := by
  obtain ⟨retries, hq, hretries⟩ := h.queue
  have hle := h.le
  by_cases hm : m < s.numRuns
  · left
    have hn : s.numRuns - m = (s.numRuns - (m + 1)) + 1 := by omega
    rw [hr, hn, List.range'_succ, List.cons_append] at hq
    injection hq with h1 h2
    exact ⟨h1, hm, retries, h2, hretries⟩
  · right
    have hn : s.numRuns - m = 0 := by omega
    rw [hn, List.range'_zero, List.nil_append] at hq
    have hmem : r ∈ retries := by rw [← hq, hr]; exact List.mem_cons_self ..
    rw [hq]
    exact ⟨by omega, hretries r hmem, hretries⟩

/-- Without a run to be tried again the queue holds nothing but the untouched runs. -/
theorem Shape.runs_of_noRetry (h : s.Shape m) (hno : s.NoRetryWaiting) :
    s.runs = List.range' m (s.numRuns - m) := by
  obtain ⟨retries, hq, hretries⟩ := h.queue
  cases retries with
  | nil => rw [hq, List.append_nil]
  | cons x l =>
    have h1 := (hretries x (List.mem_cons_self ..)).2.1
    have h2 := hno x (by rw [hq]; exact List.mem_append_right _ (List.mem_cons_self ..))
    omega

/-- A run that has been tried stays so. -/
theorem Tried.mono (h : s.Tried m r) {k : Nat} (hk : m ≤ k) (hranges : s'.runRanges = s.runRanges)
    (htries : (s.run r).numTries ≤ (s'.run r).numTries) : s'.Tried k r := by
  refine ⟨lt_of_lt_of_le h.1 hk, le_trans h.2.1 htries, ?_⟩
  unfold inRange
  rw [hranges]
  exact h.2.2

/-! ## The operations keep the shape -/

theorem Shape.setSlaves (h : s.Shape m) {l : List MonteSlave}
    (hback : ∀ sl' ∈ l, ∃ sl ∈ s.slaves, sl'.currentRun = sl.currentRun) :
    Shape { s with slaves := l } m := by
  refine { h with slaves := ?_ }
  intro sl' hsl' r hr
  obtain ⟨sl, hsl, hrun⟩ := hback sl' hsl'
  exact h.slaves sl hsl r (hrun ▸ hr)

/-- A slave is changed, but for its run. -/
theorem Shape.setSlave (h : s.Shape m) {f : MonteSlave → MonteSlave} (i : Nat)
    (hrun : ∀ sl, (f sl).currentRun = sl.currentRun) : Shape (s.setSlave i f) m := by
  apply h.setSlaves
  intro sl' hsl'
  rcases mem_modify hsl' with hmem | ⟨sl, hsl, rfl⟩
  · exact ⟨sl', hmem, rfl⟩
  · exact ⟨sl, List.mem_of_getElem? hsl, hrun sl⟩

/-- A run that has been tried is taken from the queue. -/
theorem Shape.dequeueRun (h : s.Shape m) (hr : s.Tried m r) : Shape (s.dequeueRun r) m := by
  obtain ⟨retries, hq, hretries⟩ := h.queue
  have hnot : r ∉ List.range' m (s.numRuns - m) := by
    rw [List.mem_range'_1]
    have := hr.1
    omega
  refine { h with queue := ⟨dequeue r retries, ?_, ?_⟩ }
  · show dequeue r s.runs = _
    rw [hq, dequeue_append hnot]
    rfl
  · intro r' hr'
    exact hretries r' ((dequeue_sublist r retries).subset hr')

/-- A run that has been tried is put back into the queue. -/
theorem Shape.requeue (h : s.Shape m) (hr : s.Tried m r) :
    Shape { s with runs := s.runs ++ [r] } m := by
  obtain ⟨retries, hq, hretries⟩ := h.queue
  refine { h with queue := ⟨retries ++ [r], ?_, ?_⟩ }
  · show s.runs ++ [r] = _
    rw [hq, List.append_assoc]
  · intro r' hr'
    rcases List.mem_append.mp hr' with hr' | hr'
    · exact hretries r' hr'
    · rw [List.mem_singleton.mp hr']
      exact hr

/-- A run from before the `m`-th is changed. -/
theorem Shape.setRun (h : s.Shape m) {f : MonteRun → MonteRun} (hr : r < m)
    (hf : (s.run r).numTries ≤ (f (s.run r)).numTries) : Shape (s.setRun r f) m := by
  have htries : ∀ r', (s.run r').numTries ≤ ((s.setRun r f).run r').numTries := by
    intro r'
    show _ ≤ (Function.update s.run r (f (s.run r)) r').numTries
    by_cases hrr : r' = r
    · rw [hrr, Function.update_self]
      exact hf
    · rw [Function.update_of_ne hrr]
  obtain ⟨retries, hq, hretries⟩ := h.queue
  refine ⟨h.le, ⟨retries, hq, ?_⟩, ?_, h.drawn, ?_⟩
  · intro r' hr'
    exact (hretries r' hr').mono (le_refl m) rfl (htries r')
  · intro r' hm hlt
    have hne : r' ≠ r := by omega
    show Function.update s.run r _ r' = _
    rw [Function.update_of_ne hne]
    exact h.fresh r' hm hlt
  · intro sl hsl r' hr'
    exact (h.slaves sl hsl r' hr').mono (le_refl m) rfl (htries r')

/-- `resolve_run`, apart from the two lists of runs that did not succeed. -/
theorem resolveRun_eq (s : MonteCarlo) (i r : Nat) (status : ExitStatus) :
    ∃ failed errors, s.resolveRun i r status = { s with
      failedRuns := failed
      errorRuns := errors
      run := Function.update s.run r { s.run r with exitStatus := status }
      slaves := s.slaves.modify i fun sl => { sl with numResults := sl.numResults + 1 }
      numResults := s.numResults + 1
      resolved := s.resolved ++ [(r, status)] } := by
  unfold resolveRun
  split
  · exact ⟨_, _, rfl⟩
  · split
    · exact ⟨_, _, rfl⟩
    · exact ⟨_, _, rfl⟩

/-- A run that has been tried gets its result. -/
theorem Shape.resolveRun (h : s.Shape m) (hr : s.Tried m r) (i : Nat) (status : ExitStatus) :
    Shape (s.resolveRun i r status) m := by
  obtain ⟨failed, errors, heq⟩ := resolveRun_eq s i r status
  rw [heq]
  have hrun : Shape (s.setRun r fun run => { run with exitStatus := status }) m :=
    h.setRun hr.1 (le_refl _)
  have hslave := hrun.setSlave (f := fun sl => { sl with numResults := sl.numResults + 1 }) i
    fun _ => rfl
  exact { hslave with }

theorem Shape.handleRetry (h : s.Shape m) (hr : s.Tried m r) (i : Nat) (status : ExitStatus) :
    Shape (s.handleRetry i r status) m := by
  unfold MonteCarlo.handleRetry
  split
  · exact h.requeue hr
  · exact h.resolveRun hr i status

/-- `connect` and the sending of a run, when the slave accepts the connection. -/
theorem connectAndSend_true (s : MonteCarlo) (r i : Nat) :
    s.connectAndSend r i true = { s with
      slaves := s.slaves.modify i fun sl => { sl with
        state := .running
        numDispatches := sl.numDispatches + 1
        currentRun := some r }
      run := Function.update s.run r { s.run r with numTries := (s.run r).numTries + 1 }
      sent := s.sent ++ [(i, r, (s.run r).runVariables)] } := by
  unfold connectAndSend setSlave setRun
  simp only [if_true, List.modify_modify_eq]
  rfl

theorem connectAndSend_false (s : MonteCarlo) (r i : Nat) :
    s.connectAndSend r i false = s.setSlave i fun sl => { sl with state := .disconnected } := by
  unfold connectAndSend setSlave
  simp only [Bool.false_eq_true, if_false, List.modify_modify_eq]
  rfl

/-- A run from before the `m`-th that is in range is sent, or the connection is refused. -/
theorem Shape.connectAndSend (h : s.Shape m) (hr : r < m) (hin : s.inRange r = true) (i : Nat)
    (connects : Bool) : Shape (s.connectAndSend r i connects) m := by
  cases connects with
  | false =>
    rw [connectAndSend_false]
    exact h.setSlave i fun _ => rfl
  | true =>
    rw [connectAndSend_true]
    have hrun : Shape (s.setRun r fun run => { run with numTries := run.numTries + 1 }) m :=
      h.setRun hr (Nat.le_succ _)
    refine { hrun with slaves := ?_ }
    intro sl' hsl' r' hr'
    rcases mem_modify hsl' with hmem | ⟨sl, -, rfl⟩
    · exact hrun.slaves sl' hmem r' hr'
    · obtain rfl : r = r' := Option.some.inj hr'
      refine ⟨hr, ?_, hin⟩
      show 1 ≤ (Function.update s.run r _ r).numTries
      rw [Function.update_self]
      exact Nat.succ_pos _

/-! ## Preparing a run -/

/-- The master after the `m`-th run has been prepared for the first time. -/
def preparedFirst (s : MonteCarlo) (m : RunId) (rest : List RunId) : MonteCarlo :=
  { s with
    currentRun := m
    monteVariables := s.monteVariables.map MonteVar.getNextValue
    run := Function.update s.run m { runVariables := textsAt s.monteVariables m }
    runDataFile := s.runDataFile ++ [(m, valuesAt s.monteVariables m)]
    runs := rest }

/-- The master after a file has come to its end at the `m`-th run, and `m` runs are left. -/
def preparedEof (s : MonteCarlo) (m : RunId) : MonteCarlo :=
  { s with
    currentRun := m
    monteVariables := (drawVariables s.monteVariables).1
    run := Function.update s.run m { runVariables := (drawVariables s.monteVariables).2.1 }
    runs := []
    numRuns := m
    actualNumRuns := s.numResults + (s.slaves.filter fun sl => sl.Active).length }

/-- The master after a run has been taken from the queue to be tried again. -/
def preparedAgain (s : MonteCarlo) (r : RunId) : MonteCarlo :=
  { s with
    currentRun := r
    runs := dequeue r s.runs }

/-- Deleting from the end of a queue of untouched runs deletes just these. -/
theorem setNumRuns_of_range {s : MonteCarlo} (hm : m ≤ s.numRuns)
    (hq : s.runs = List.range' m (s.numRuns - m)) :
    s.setNumRuns m = { s with
      runs := []
      numRuns := m
      actualNumRuns := s.numResults + (s.slaves.filter fun sl => sl.Active).length } := by
  have hlen : s.runs.length = s.numRuns - m := by rw [hq, List.length_range']
  have h0 : m - s.numRuns = 0 := by omega
  have h1 : s.numRuns - (s.numRuns - m) + 0 = m := by omega
  unfold setNumRuns updateActualNumRuns
  simp only [hlen, min_self, Nat.sub_self, List.take_zero, h0, List.range'_zero, List.append_nil,
    List.not_mem_nil, if_false, h1, List.filter_nil, List.length_nil, Nat.add_zero]

/-- The run that nobody has touched yet at the front of the queue. -/
structure Front (s : MonteCarlo) (m : Nat) (rest : List RunId) : Prop where
  shape : s.Shape m
  runs : s.runs = m :: rest
  lt : m < s.numRuns

/-- The number of prepared runs can be read off the queue. -/
theorem Front.unique (hf : s.Front m rest) {k : Nat} (h : s.Shape k) : m = k := by
  rcases h.head hf.runs with ⟨hm, -, -⟩ | ⟨-, htried, -⟩
  · exact hm
  · have htries := htried.2.1
    rw [hf.shape.fresh m (le_refl m) hf.lt] at htries
    exact absurd htries (Nat.not_succ_le_zero 0)

/-- It is not the `m`-th run. -/
theorem Tried.update_eq (h : s.Tried m r) (run : MonteRun) :
    Function.update s.run m run r = s.run r := by
  have hne : r ≠ m := Nat.ne_of_lt h.1
  exact Function.update_of_ne hne ..

theorem Tried.preparedFirst (h : s.Tried m r) : (s.preparedFirst m rest).Tried (m + 1) r :=
  h.mono (Nat.le_succ m) rfl (by
    show _ ≤ (Function.update s.run m _ r).numTries
    rw [h.update_eq])

theorem Tried.preparedEof (h : s.Tried m r) : (s.preparedEof m).Tried m r :=
  h.mono (le_refl m) rfl (by
    show _ ≤ (Function.update s.run m _ r).numTries
    rw [h.update_eq])

/-- **The first preparation of a run** takes it from the front and moves on to the next. -/
theorem Front.prepareRun_first (h : s.Front m rest) (heof : ¬ EofAt s.monteVariables m) :
    s.prepareRun m = (s.preparedFirst m rest, true) ∧ (s.preparedFirst m rest).Shape (m + 1) := by
  have hrun := h.shape.fresh m (le_refl m) h.lt
  have hdrawn := h.shape.drawn h.lt
  have htries : (s.run m).numTries = 0 := by rw [hrun]
  have hdraw := drawVariables_of_not_eof hdrawn heof
  rcases h.shape.head h.runs with ⟨-, -, retries, hrest, hretries⟩ | ⟨hm, -, -⟩
  · have hnot : m ∉ rest := by
      rw [hrest]
      intro hmem
      rcases List.mem_append.mp hmem with hmem | hmem
      · rw [List.mem_range'_1] at hmem
        omega
      · exact lt_irrefl m (hretries m hmem).1
    constructor
    · unfold MonteCarlo.prepareRun
      simp only [htries, if_true, hdraw, Bool.false_eq_true, if_false]
      refine congrArg₂ Prod.mk ?_ rfl
      unfold dequeueRun setRun preparedFirst
      simp only [hrun, List.nil_append, h.runs, dequeue_head hnot, map_value_getNextValue hdrawn heof]
    · refine ⟨h.lt, ⟨retries, hrest, ?_⟩, ?_, ?_, ?_⟩
      · intro x hx
        exact (hretries x hx).preparedFirst
      · intro x h1 h2
        have hne : x ≠ m := by omega
        show Function.update s.run m _ x = _
        rw [Function.update_of_ne hne]
        exact h.shape.fresh x (by omega) h2
      · intro _ v hv
        obtain ⟨v', hv', rfl⟩ := List.mem_map.mp hv
        show v'.drawn + 1 = m + 1
        rw [hdrawn v' hv']
      · intro sl hsl x hx
        exact (h.shape.slaves sl hsl x hx).preparedFirst
  · exact absurd h.lt (by omega)

/-- **At the end of a file** the run and all later ones are deleted, if no run waits to be tried
    again. -/
theorem Front.prepareRun_eof (h : s.Front m rest) (heof : EofAt s.monteVariables m)
    (hno : s.NoRetryWaiting) :
    s.prepareRun m = (s.preparedEof m, false) ∧ (s.preparedEof m).Shape m := by
  have hrun := h.shape.fresh m (le_refl m) h.lt
  have htries : (s.run m).numTries = 0 := by rw [hrun]
  have hended := drawVariables_of_eof (h.shape.drawn h.lt) heof
  have hq := h.shape.runs_of_noRetry hno
  constructor
  · unfold MonteCarlo.prepareRun
    simp only [htries, if_true, hended]
    refine congrArg₂ Prod.mk ?_ rfl
    refine Eq.trans (setNumRuns_of_range ?_ ?_) ?_
    · exact le_of_lt h.lt
    · exact hq
    unfold setRun preparedEof
    simp only [hrun, List.nil_append]
  · refine ⟨le_refl m, ⟨[], ?_, ?_⟩, ?_, ?_, ?_⟩
    · show [] = List.range' m (m - m) ++ []
      rw [Nat.sub_self]
      rfl
    · intro x hx
      cases hx
    · intro x h1 h2
      exact absurd (lt_of_lt_of_le h2 h1) (lt_irrefl x)
    · intro hf
      exact absurd hf (lt_irrefl m)
    · intro sl hsl x hx
      exact (h.shape.slaves sl hsl x hx).preparedEof

/-- **A run that is tried again** is taken from the queue, and keeps its values. -/
theorem Shape.prepareRun_again (h : s.Shape m) (hr : s.Tried m r)
    (hall : ∀ r ∈ s.runs, s.Tried m r) (hm : m = s.numRuns) :
    s.prepareRun r = (s.preparedAgain r, true) ∧ (s.preparedAgain r).Shape m := by
  constructor
  · unfold MonteCarlo.prepareRun
    have hne : ¬ (s.run r).numTries = 0 := by have := hr.2.1; omega
    simp only [if_neg hne]
    rfl
  · refine ⟨h.le, ⟨dequeue r s.runs, ?_, ?_⟩, h.fresh, h.drawn, h.slaves⟩
    · show dequeue r s.runs = List.range' m (s.numRuns - m) ++ _
      have hn : s.numRuns - m = 0 := by omega
      rw [hn]
      rfl
    · intro x hx
      exact hall x ((dequeue_sublist r s.runs).subset hx)

/-! ## The rule for a dispatch -/

/-- The loop of `get_next_dispatch`: `I` holds while runs are skipped, `J` once a file has come to its
    end. -/
theorem getNextDispatchLoop_rule {I J : MonteCarlo → Prop}
    (shape : ∀ s, I s → ∃ m, s.Shape m)
    (noRetry : ∀ s m rest, I s → s.Front m rest → EofAt s.monteVariables m →
      s.inRange m = false → s.NoRetryWaiting)
    (skip : ∀ s m rest, I s → s.Front m rest → ¬ EofAt s.monteVariables m →
      s.inRange m = false → I (s.preparedFirst m rest))
    (last : ∀ s m rest, I s → s.Front m rest → EofAt s.monteVariables m →
      s.inRange m = false → J (s.preparedEof m)) :
    ∀ (fuel : Nat) (s : MonteCarlo), I s → s.runs.length < fuel →
      (I (getNextDispatchLoop fuel s).1 ∧
        (getNextDispatchLoop fuel s).1.slaves = s.slaves ∧
        (getNextDispatchLoop fuel s).1.runs.length ≤ s.runs.length ∧
        ((getNextDispatchLoop fuel s).2 = none ∧ (getNextDispatchLoop fuel s).1.runs = [] ∨
          ∃ r rest, (getNextDispatchLoop fuel s).2 = some r ∧
            (getNextDispatchLoop fuel s).1.runs = r :: rest ∧
            (getNextDispatchLoop fuel s).1.inRange r = true)) ∨
      (J (getNextDispatchLoop fuel s).1 ∧ (getNextDispatchLoop fuel s).2 = none) := by
  intro fuel
  induction fuel with
  | zero => intro s _ hlen; omega
  | succ fuel ih =>
    intro s hI hlen
    cases hruns : s.runs with
    | nil =>
      left
      have hloop : getNextDispatchLoop (fuel + 1) s = (s, none) := by
        unfold getNextDispatchLoop
        rw [hruns]
      rw [hloop]
      exact ⟨hI, rfl, le_of_eq (congrArg List.length hruns), Or.inl ⟨rfl, hruns⟩⟩
    | cons r rest =>
      by_cases hin : s.inRange r = true
      · left
        have hloop : getNextDispatchLoop (fuel + 1) s = (s, some r) := by
          unfold getNextDispatchLoop
          rw [hruns]
          exact if_pos hin
        rw [hloop]
        exact ⟨hI, rfl, le_of_eq (congrArg List.length hruns), Or.inr ⟨r, rest, rfl, hruns, hin⟩⟩
      · have hout : s.inRange r = false := by simpa using hin
        have hloop : getNextDispatchLoop (fuel + 1) s =
            getNextDispatchLoop fuel (s.prepareRun r).1 := by
          conv_lhs => unfold getNextDispatchLoop
          rw [hruns]
          exact if_neg hin
        rw [hloop]
        obtain ⟨m, hshape⟩ := shape s hI
        rcases hshape.head hruns with ⟨rfl, hlt, -⟩ | ⟨-, htried, -⟩
        · have hfront : s.Front r rest := ⟨hshape, hruns, hlt⟩
          by_cases heof : EofAt s.monteVariables r
          · -- the queue is empty now
            right
            obtain ⟨hprep, _⟩ := hfront.prepareRun_eof heof (noRetry s r rest hI hfront heof hout)
            rw [hprep]
            have hend : getNextDispatchLoop fuel (s.preparedEof r) = (s.preparedEof r, none) := by
              rw [hruns, List.length_cons] at hlen
              obtain ⟨fuel', rfl⟩ : ∃ fuel', fuel = fuel' + 1 := ⟨fuel - 1, by omega⟩
              rfl
            rw [hend]
            exact ⟨last s r rest hI hfront heof hout, rfl⟩
          · obtain ⟨hprep, _⟩ := hfront.prepareRun_first heof
            rw [hprep]
            rw [hruns, List.length_cons] at hlen
            rcases ih (s.preparedFirst r rest) (skip s r rest hI hfront heof hout)
              (Nat.lt_of_succ_lt_succ hlen) with ⟨hI', hsl, hle, hnext⟩ | hJ
            · exact Or.inl ⟨hI', hsl, Nat.le_succ_of_le hle, hnext⟩
            · exact Or.inr hJ
        · rw [htried.2.2] at hout
          cases hout

/-- **The rule for a dispatch.**  `I` holds while runs that are out of range are skipped; from there the
    dispatch ends with nothing done, with a file that has come to its end, or with a run that is
    sent. -/
theorem dispatch_rule {I J : MonteCarlo → Prop} {connects : Bool}
    (shape : ∀ s, I s → ∃ m, s.Shape m)
    (noRetry : ∀ s m rest, I s → s.Front m rest → EofAt s.monteVariables m →
      s.inRange m = false ∨ s.getReadySlave.isSome → s.NoRetryWaiting)
    (skip : ∀ s m rest, I s → s.Front m rest → ¬ EofAt s.monteVariables m →
      s.inRange m = false → I (s.preparedFirst m rest))
    (last : ∀ s m rest, I s → s.Front m rest → EofAt s.monteVariables m →
      s.inRange m = false ∨ s.getReadySlave.isSome → J (s.preparedEof m))
    (stay : ∀ s, I s → J s)
    (first : ∀ s m rest i, I s → s.Front m rest → ¬ EofAt s.monteVariables m →
      s.inRange m = true → s.getReadySlave = some i →
      J ((s.preparedFirst m rest).connectAndSend m i connects))
    (again : ∀ s m r rest i, I s → s.Shape m → s.runs = r :: rest → s.Tried m r →
      s.getReadySlave = some i → J ((s.preparedAgain r).connectAndSend r i connects))
    (s : MonteCarlo) (h : I s) : J (s.dispatch connects) := by
  have hloop := getNextDispatchLoop_rule shape
    (fun s m rest hI hf he ho => noRetry s m rest hI hf he (Or.inl ho)) skip
    (fun s m rest hI hf he ho => last s m rest hI hf he (Or.inl ho)) (s.runs.length + 1) s h
    (Nat.lt_succ_self _)
  unfold dispatch getNextDispatch
  generalize getNextDispatchLoop (s.runs.length + 1) s = p at hloop
  obtain ⟨s', next⟩ := p
  rcases hloop with ⟨hI, hslaves, -, hnext⟩ | ⟨hJ, hnext⟩
  · have hready : s.getReadySlave = s'.getReadySlave := by
      unfold getReadySlave
      rw [hslaves]
    show J (s'.dispatchRunToSlave next s.getReadySlave connects)
    rw [hready]
    rcases hnext with ⟨hnext, -⟩ | ⟨r, rest, hnext, hruns, hin⟩
    · have hnone : next = none := hnext
      rw [hnone]
      cases s'.getReadySlave <;> exact stay s' hI
    · have hsome : next = some r := hnext
      have hruns' : s'.runs = r :: rest := hruns
      rw [hsome]
      cases hi : s'.getReadySlave with
      | none => exact stay s' hI
      | some i =>
        obtain ⟨m, hshape⟩ := shape s' hI
        have hsend : s'.dispatchRunToSlave (some r) (some i) connects =
            if (s'.prepareRun r).2 = true then (s'.prepareRun r).1.connectAndSend r i connects
            else (s'.prepareRun r).1 := rfl
        rw [hsend]
        rcases hshape.head hruns' with ⟨rfl, hlt, -⟩ | ⟨hm, htried, hall⟩
        · have hfront : s'.Front r rest := ⟨hshape, hruns', hlt⟩
          have hsl : s'.inRange r = false ∨ s'.getReadySlave.isSome := Or.inr (by rw [hi]; rfl)
          by_cases heof : EofAt s'.monteVariables r
          · rw [(hfront.prepareRun_eof heof (noRetry s' r rest hI hfront heof hsl)).1]
            exact last s' r rest hI hfront heof hsl
          · rw [(hfront.prepareRun_first heof).1]
            exact first s' r rest i hI hfront heof hin hi
        · rw [(hshape.prepareRun_again htried hall hm).1]
          exact again s' m r rest i hI hshape hruns' htried hi
  · have hnone : next = none := hnext
    rw [hnone]
    cases s.getReadySlave <;> exact hJ

/-! ## What the next dispatch prepares -/

theorem preparedFirst_run (h : s.Front m rest) (r : Nat) :
    ((s.preparedFirst m rest).run r).numTries = (s.run r).numTries ∧
      ((s.preparedFirst m rest).run r).exitStatus = (s.run r).exitStatus := by
  show (Function.update s.run m _ r).numTries = _ ∧ (Function.update s.run m _ r).exitStatus = _
  by_cases hrm : r = m
  · rw [hrm, Function.update_self, h.shape.fresh m (le_refl m) h.lt]
    exact ⟨rfl, rfl⟩
  · rw [Function.update_of_ne hrm]
    exact ⟨rfl, rfl⟩

theorem preparedEof_run (h : s.Front m rest) (r : Nat) :
    ((s.preparedEof m).run r).numTries = (s.run r).numTries ∧
      ((s.preparedEof m).run r).exitStatus = (s.run r).exitStatus := by
  show (Function.update s.run m _ r).numTries = _ ∧ (Function.update s.run m _ r).exitStatus = _
  by_cases hrm : r = m
  · rw [hrm, Function.update_self, h.shape.fresh m (le_refl m) h.lt]
    exact ⟨rfl, rfl⟩
  · rw [Function.update_of_ne hrm]
    exact ⟨rfl, rfl⟩

/-- The first run of the queue that is in range. -/
def nextInRange (s : MonteCarlo) : Option RunId :=
  (s.runs.dropWhile fun r => !s.inRange r).head?

/-- The runs that the next dispatch prepares: those it skips, and the next one in range if a slave
    is ready. -/
def toPrepare (s : MonteCarlo) : List RunId :=
  (s.runs.takeWhile fun r => !s.inRange r) ++
    if s.getReadySlave.isSome then s.nextInRange.toList else []

/-- The dispatch prepares a run at which a file has come to its end. -/
def ReachesEof (s : MonteCarlo) : Prop :=
  ∃ r ∈ s.toPrepare, (s.run r).numTries = 0 ∧ EofAt s.monteVariables r

instance (s : MonteCarlo) : Decidable s.ReachesEof :=
  inferInstanceAs (Decidable (∃ r ∈ s.toPrepare, _))

/-- The front of the queue is prepared by the dispatch, if it is skipped or a slave is ready. -/
theorem Front.mem_toPrepare (hf : s.Front m rest)
    (h : s.inRange m = false ∨ s.getReadySlave.isSome) : m ∈ s.toPrepare := by
  unfold toPrepare nextInRange
  rw [hf.runs]
  by_cases hin : s.inRange m = true
  · have hready := h.resolve_left (by rw [hin]; exact nofun)
    have hskip : (!s.inRange m) = false := by rw [hin]; rfl
    rw [if_pos hready, List.dropWhile_cons_of_neg (by rw [hskip]; exact nofun)]
    exact List.mem_append_right _ (List.mem_singleton_self m)
  · have hskip : (!s.inRange m) = true := by simpa using hin
    rw [List.takeWhile_cons_of_pos (p := fun r => !s.inRange r) hskip]
    exact List.mem_append_left _ (List.mem_cons_self ..)

/-- Skipping a run leaves the rest of the dispatch as it was. -/
theorem Front.skip (hf : s.Front m rest) (hout : s.inRange m = false) :
    s.toPrepare = m :: (s.preparedFirst m rest).toPrepare ∧
      (s.preparedFirst m rest).nextInRange = s.nextInRange := by
  have hskip : (!s.inRange m) = true := by rw [hout]; rfl
  have hnext : (s.preparedFirst m rest).nextInRange = s.nextInRange := by
    unfold nextInRange
    rw [hf.runs, List.dropWhile_cons_of_pos (p := fun r => !s.inRange r) hskip]
    rfl
  refine ⟨?_, hnext⟩
  unfold toPrepare
  rw [hnext, hf.runs, List.takeWhile_cons_of_pos (p := fun r => !s.inRange r) hskip, List.cons_append]
  rfl

/-- The streams of the variables after a run has been prepared. -/
theorem preparedFirst_eofAt (s : MonteCarlo) (m r : Nat) (rest : List RunId) :
    EofAt (s.preparedFirst m rest).monteVariables r ↔ EofAt s.monteVariables r := by
  refine eofAt_congr ?_ r
  show (s.monteVariables.map MonteVar.getNextValue).map MonteVar.next = _
  rw [List.map_map]
  rfl

theorem Front.reachesEof_skip (hf : s.Front m rest) (hout : s.inRange m = false)
    (heof : ¬ EofAt s.monteVariables m) :
    (s.preparedFirst m rest).ReachesEof ↔ s.ReachesEof := by
  unfold ReachesEof
  rw [(hf.skip hout).1, List.exists_mem_cons_iff]
  have htail : (∃ r ∈ (s.preparedFirst m rest).toPrepare,
      ((s.preparedFirst m rest).run r).numTries = 0 ∧
        EofAt (s.preparedFirst m rest).monteVariables r) ↔
      ∃ r ∈ (s.preparedFirst m rest).toPrepare,
        (s.run r).numTries = 0 ∧ EofAt s.monteVariables r := by
    refine exists_congr fun r => and_congr_right fun _ => ?_
    rw [(preparedFirst_run hf r).1, preparedFirst_eofAt]
  rw [htail]
  exact ⟨Or.inr, fun hor => hor.resolve_left fun hm => heof hm.2⟩

/-! ## Before the loop -/

/-- **A master at the beginning of its loop**, as the input file has left it: slaves have been added and
    perhaps disabled, runs, ranges and variables have been given. -/
structure Configured (s : MonteCarlo) : Prop where
  runs : s.runs = List.range s.numRuns
  fresh : ∀ r, s.run r = {}
  drawn : ∀ v ∈ s.monteVariables, v.drawn = 0
  slaves : ∀ sl ∈ s.slaves, sl.currentRun = none ∧
    (sl.state = .uninitialized ∨ sl.state = .stopped)
  numResults : s.numResults = 0
  resolved : s.resolved = []
  sent : s.sent = []
  rows : s.runDataFile = []
  input : s.monteInput = []
  actual : s.actualNumRuns = ((List.range s.numRuns).filter fun r => s.inRange r).length
  running : s.hung = false

/-- No slave is counted as running before the loop. -/
theorem Configured.filter_active (h : s.Configured) : (s.slaves.filter fun sl => sl.Active) = [] := by
  rw [List.filter_eq_nil_iff]
  intro sl hsl hact
  rcases of_decide_eq_true hact with hst | hst <;>
    rcases (h.slaves sl hsl).2 with hst' | hst' <;> rw [hst'] at hst <;> cases hst

/-- `set_num_runs` in the input file, with more runs than before or fewer. -/
theorem Configured.setNumRuns (h : s.Configured) (n : Nat) : (s.setNumRuns n).Configured := by
  have hlen : s.runs.length = s.numRuns := by rw [h.runs, List.length_range]
  have hruns : (s.setNumRuns n).runs = List.range n := by
    show s.runs.take (s.runs.length - min (s.numRuns - n) s.runs.length) ++
      List.range' s.numRuns (n - s.numRuns) = _
    have hmin : s.numRuns - min (s.numRuns - n) s.numRuns = min n s.numRuns := by omega
    rw [hlen, hmin, h.runs, List.take_range, List.range_eq_range', List.range_eq_range']
    have hmin' : min (min n s.numRuns) s.numRuns = min n s.numRuns := by omega
    rcases Nat.le_total n s.numRuns with hle | hle
    · have h0 : n - s.numRuns = 0 := by omega
      rw [hmin', h0, Nat.min_eq_left hle]
      exact List.append_nil _
    · rw [hmin', Nat.min_eq_right hle]
      have happ := List.range'_append_1 (s := 0) (m := s.numRuns) (n := n - s.numRuns)
      rw [Nat.zero_add] at happ
      rw [happ]
      congr 1
      omega
  have hnum : (s.setNumRuns n).numRuns = n := by
    show s.numRuns - min (s.numRuns - n) s.runs.length + (n - s.numRuns) = n
    rw [hlen]
    omega
  refine
    { runs := by rw [hruns, hnum]
      fresh := fun r => ?_
      drawn := h.drawn
      slaves := h.slaves
      numResults := h.numResults
      resolved := h.resolved
      sent := h.sent
      rows := h.rows
      input := h.input
      actual := ?_
      running := h.running }
  · show (if r ∈ _ then {} else s.run r) = _
    split
    · rfl
    · exact h.fresh r
  · show s.numResults + ((s.setNumRuns n).runs.filter fun r => s.inRange r).length +
      (s.slaves.filter fun sl => sl.Active).length =
        ((List.range (s.setNumRuns n).numRuns).filter fun r => s.inRange r).length
    rw [hruns, hnum, h.numResults, h.filter_active, Nat.zero_add]
    rfl

/-- `add_range` in the input file. -/
theorem Configured.addRange (h : s.Configured) (first last : Nat) :
    (s.addRange first last).Configured := by
  refine { h with actual := ?_ }
  show s.numResults + (s.runs.filter _).length + (s.slaves.filter fun sl => sl.Active).length = _
  rw [h.runs, h.numResults, h.filter_active, Nat.zero_add]
  rfl

/-- The queue at the beginning: nobody has touched a run. -/
theorem Configured.shape (h : s.Configured) : s.Shape 0 := by
  refine ⟨Nat.zero_le _, ⟨[], ?_, ?_⟩, fun r _ _ => h.fresh r, fun _ => h.drawn, ?_⟩
  · rw [h.runs, List.append_nil, Nat.sub_zero, List.range_eq_range']
  · intro r hr
    cases hr
  · intro sl hsl r hr
    rw [(h.slaves sl hsl).1] at hr
    cases hr

end MonteCarlo

end Trick.Monte
