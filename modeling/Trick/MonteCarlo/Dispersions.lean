/-
  The values of a run do not depend on the schedule.

  The values of run `k` are the `k`-th values of the variables, whatever the slaves do, whichever runs
  are in range, and whether the simulation is a dry run (`Dispersions`).  They are drawn when the run
  is prepared for the first time, at the front of the queue, and the runs that nobody has touched yet
  stand there in their order.

  The end of a file can break this: if a run waits to be tried again, `set_num_runs` deletes that run
  and leaves the one at the end of the file in the queue, and its values are drawn over and over.  In
  a dry run the run has been deleted by the time its input file is written.

  `reproducible` is the result; `eofWithRetry_run` is a run in which a file comes to its end while a run
  waits to be tried again.
-/
import Trick.MonteCarlo.Queue

namespace Trick.Monte.MonteCarlo

open Trick.Lib

variable {s s' s'' : MonteCarlo} {m r i : Nat} {rest : List RunId} {V : List MonteVar}

/-! ## What the other events leave alone -/

/-- Everything that has to do with the values of the runs is the same. -/
structure Same (s s' : MonteCarlo) : Prop where
  vars : s'.monteVariables = s.monteVariables
  rows : s'.runDataFile = s.runDataFile
  sent : s'.sent = s.sent
  input : s'.monteInput = s.monteInput
  numRuns : s'.numRuns = s.numRuns
  running : s'.hung = s.hung
  texts : ∀ r, (s'.run r).runVariables = (s.run r).runVariables

theorem Same.refl (s : MonteCarlo) : Same s s := ⟨rfl, rfl, rfl, rfl, rfl, rfl, fun _ => rfl⟩

theorem Same.trans (h : Same s s') (h' : Same s' s'') : Same s s'' :=
  ⟨h'.vars.trans h.vars, h'.rows.trans h.rows, h'.sent.trans h.sent, h'.input.trans h.input,
    h'.numRuns.trans h.numRuns, h'.running.trans h.running, fun r => (h'.texts r).trans (h.texts r)⟩

/-- The shape of the queue is kept, and everything that has to do with values. -/
def Kept (m : Nat) (s s' : MonteCarlo) : Prop := s'.Shape m ∧ Same s s'

theorem Kept.trans (h : Kept m s s') (h' : Kept m s' s'') : Kept m s s'' :=
  ⟨h'.1, h.2.trans h'.2⟩

theorem Shape.kept_setSlave (h : s.Shape m) {f : MonteSlave → MonteSlave} (i : Nat)
    (hrun : ∀ sl, (f sl).currentRun = sl.currentRun) : Kept m s (s.setSlave i f) :=
  ⟨h.setSlave i hrun, ⟨rfl, rfl, rfl, rfl, rfl, rfl, fun _ => rfl⟩⟩

theorem Shape.kept_dequeueRun (h : s.Shape m) (hr : s.Tried m r) : Kept m s (s.dequeueRun r) :=
  ⟨h.dequeueRun hr, ⟨rfl, rfl, rfl, rfl, rfl, rfl, fun _ => rfl⟩⟩

theorem Shape.kept_resolveRun (h : s.Shape m) (hr : s.Tried m r) (i : Nat) (status : ExitStatus) :
    Kept m s (s.resolveRun i r status) := by
  refine ⟨h.resolveRun hr i status, ?_⟩
  obtain ⟨failed, errors, heq⟩ := resolveRun_eq s i r status
  rw [heq]
  refine ⟨rfl, rfl, rfl, rfl, rfl, rfl, fun r' => ?_⟩
  show (Function.update s.run r _ r').runVariables = _
  by_cases hrr : r' = r
  · rw [hrr, Function.update_self]
  · rw [Function.update_of_ne hrr]

theorem Shape.kept_handleRetry (h : s.Shape m) (hr : s.Tried m r) (i : Nat) (status : ExitStatus) :
    Kept m s (s.handleRetry i r status) := by
  unfold MonteCarlo.handleRetry
  split
  · exact ⟨h.requeue hr, ⟨rfl, rfl, rfl, rfl, rfl, rfl, fun _ => rfl⟩⟩
  · exact h.kept_resolveRun hr i status

/-- A report. -/
theorem Shape.kept_accept (h : s.Shape m) (i : Nat) (msg : Message) :
    Kept m s (s.accept i msg) := by
  unfold MonteCarlo.accept
  split
  · exact ⟨h, Same.refl s⟩
  · rename_i sl hi
    split
    · unfold handleInitialization
      split <;> exact h.kept_setSlave i fun _ => rfl
    · split
      · exact ⟨h, Same.refl s⟩
      · rename_i r hr
        have htried := h.slaves sl (List.mem_of_getElem? hi) r hr
        have hdeq := h.kept_dequeueRun htried
        have htried' : (s.dequeueRun r).Tried m r := htried
        unfold handleRunData
        simp only
        split
        · exact hdeq.trans (hdeq.1.kept_setSlave i fun _ => rfl)
        · split
          · exact hdeq.trans (hdeq.1.kept_setSlave i fun _ => rfl)
          · split
            · rename_i status _
              have hres := hdeq.trans (hdeq.1.kept_resolveRun htried' i status)
              exact hres.trans (hres.1.kept_setSlave i fun _ => rfl)
            · rename_i status _
              have hres := hdeq.trans (hdeq.1.kept_handleRetry htried' i status)
              exact hres.trans (hres.1.kept_setSlave i fun _ => rfl)

/-- A timeout. -/
theorem Shape.kept_checkTimeout (h : s.Shape m) (i : Nat) : Kept m s (s.checkTimeout i) := by
  unfold MonteCarlo.checkTimeout
  split
  · exact ⟨h, Same.refl s⟩
  · rename_i sl hi
    split
    · split
      · exact ⟨h, Same.refl s⟩
      · rename_i r hr
        have htried := h.slaves sl (List.mem_of_getElem? hi) r hr
        simp only
        split
        · have hretry := h.kept_handleRetry htried i .runTimedOut
          exact hretry.trans (hretry.1.kept_setSlave i fun _ => rfl)
        · exact h.kept_setSlave i fun _ => rfl
    · exact ⟨h, Same.refl s⟩

theorem Shape.kept_spawnSlaves (h : s.Shape m) : Kept m s s.spawnSlaves := by
  refine ⟨h.setSlaves fun sl' hsl' => ?_, ⟨rfl, rfl, rfl, rfl, rfl, rfl, fun _ => rfl⟩⟩
  obtain ⟨sl, hsl, rfl⟩ := List.mem_map.mp hsl'
  refine ⟨sl, hsl, ?_⟩
  split <;> rfl

/-! ## The invariant -/

/-- **What the master has done with the values** when the first `m` runs have been prepared: the values
    of run `k` are the `k`-th of the streams, and they have been drawn once. -/
structure Dispersions (V : List MonteVar) (m : Nat) (s : MonteCarlo) : Prop where
  /-- One row of `monte_runs` for each of these runs. -/
  rows : s.runDataFile = (List.range m).map fun k => (k, valuesAt V k)
  /-- What was sent to a slave, with every dispatch. -/
  sent : ∀ d ∈ s.sent, d.2.1 < m ∧ d.2.2 = textsAt V d.2.1
  /-- What a dry run has written. -/
  input : ∀ d ∈ s.monteInput, d.1 < m ∧ d.2 = textsAt V d.1
  /-- The other runs wait in the queue. -/
  waiting : ∀ r, m ≤ r → r < s.numRuns → r ∈ s.runs ∧ s.run r = {}
  /-- Every variable has been asked for `m` values; the one more at the end of a file is given to no
      run. -/
  drawn : (∀ v ∈ s.monteVariables, v.drawn = m) ∨
    (m = s.numRuns ∧ EofAt V m ∧ ∀ v ∈ s.monteVariables, v.drawn ≤ m + 1)
  /-- No file comes to its end before that. -/
  noEof : ∀ k, k < m → ¬ EofAt V k

/-- The invariant along a run. -/
structure Drawn (V : List MonteVar) (m : Nat) (s : MonteCarlo) : Prop where
  shape : s.Shape m
  streams : s.monteVariables.map MonteVar.next = V.map MonteVar.next
  texts : ∀ r, r < m → (s.run r).runVariables = textsAt V r
  rows : s.runDataFile = (List.range m).map fun k => (k, valuesAt V k)
  sent : ∀ d ∈ s.sent, d.2.1 < m ∧ d.2.2 = textsAt V d.2.1
  input : ∀ d ∈ s.monteInput, d.1 < m ∧ d.2 = textsAt V d.1
  drawn : (∀ v ∈ s.monteVariables, v.drawn = m) ∨
    (m = s.numRuns ∧ EofAt V m ∧ ∀ v ∈ s.monteVariables, v.drawn ≤ m + 1)
  noEof : ∀ k, k < m → ¬ EofAt V k
  running : s.hung = false

theorem Drawn.dispersions (h : Drawn V m s) : Dispersions V m s :=
  ⟨h.rows, h.sent, h.input, fun r hm hr => ⟨h.shape.mem_of_le hm hr, h.shape.fresh r hm hr⟩, h.drawn,
    h.noEof⟩

theorem Drawn.kept (h : Drawn V m s) (hk : Kept m s s') : Drawn V m s' where
  shape := hk.1
  streams := by rw [hk.2.vars]; exact h.streams
  texts := fun r hr => (hk.2.texts r).trans (h.texts r hr)
  rows := hk.2.rows.trans h.rows
  sent := by rw [hk.2.sent]; exact h.sent
  input := by rw [hk.2.input]; exact h.input
  drawn := by rw [hk.2.vars, hk.2.numRuns]; exact h.drawn
  noEof := h.noEof
  running := hk.2.running.trans h.running

theorem Drawn.eofAt (h : Drawn V m s) (k : Nat) : EofAt s.monteVariables k ↔ EofAt V k :=
  eofAt_congr h.streams k

/-- **The `m`-th run is given the `m`-th values.** -/
theorem Drawn.preparedFirst (h : Drawn V m s) (hf : s.Front m rest)
    (heof : ¬ EofAt s.monteVariables m) : Drawn V (m + 1) (s.preparedFirst m rest) := by
  refine
    { shape := (hf.prepareRun_first heof).2
      streams := ?_
      texts := ?_
      rows := ?_
      sent := fun d hd => ⟨Nat.lt_succ_of_lt (h.sent d hd).1, (h.sent d hd).2⟩
      input := fun d hd => ⟨Nat.lt_succ_of_lt (h.input d hd).1, (h.input d hd).2⟩
      drawn := ?_
      noEof := ?_
      running := h.running }
  · show (s.monteVariables.map MonteVar.getNextValue).map MonteVar.next = _
    rw [List.map_map]
    exact h.streams
  · intro r hr
    show (Function.update s.run m _ r).runVariables = _
    by_cases hrm : r = m
    · rw [hrm, Function.update_self]
      exact textsAt_congr h.streams m
    · rw [Function.update_of_ne hrm]
      exact h.texts r (by omega)
  · show s.runDataFile ++ [(m, valuesAt s.monteVariables m)] = _
    rw [h.rows, valuesAt_congr h.streams, List.range_succ, List.map_append]
    rfl
  · left
    intro v hv
    obtain ⟨v', hv', rfl⟩ := List.mem_map.mp hv
    show v'.drawn + 1 = m + 1
    rw [hf.shape.drawn hf.lt v' hv']
  · intro k hk
    rcases lt_or_eq_of_le (Nat.lt_succ_iff.mp hk) with hlt | rfl
    · exact h.noEof k hlt
    · exact fun hf' => heof ((h.eofAt k).mpr hf')

/-- At the end of a file nothing is given to a run. -/
theorem Drawn.preparedEof (h : Drawn V m s) (hf : s.Front m rest)
    (heof : EofAt s.monteVariables m) (hno : s.NoRetryWaiting) :
    Drawn V m (s.preparedEof m) := by
  refine
    { shape := (hf.prepareRun_eof heof hno).2
      streams := (drawVariables_next s.monteVariables).trans h.streams
      texts := ?_
      rows := h.rows
      sent := h.sent
      input := h.input
      drawn := Or.inr ⟨rfl, (h.eofAt m).mp heof, drawVariables_drawn (hf.shape.drawn hf.lt)⟩
      noEof := h.noEof
      running := h.running }
  intro r hr
  show (Function.update s.run m _ r).runVariables = _
  have hne : r ≠ m := Nat.ne_of_lt hr
  rw [Function.update_of_ne hne]
  exact h.texts r hr

theorem Drawn.preparedAgain (h : Drawn V m s) (hshape : (s.preparedAgain r).Shape m) :
    Drawn V m (s.preparedAgain r) := { h with shape := hshape }

/-- **A slave is sent the values of its run.** -/
theorem Drawn.connectAndSend (h : Drawn V m s) (hr : r < m) (hin : s.inRange r = true) (i : Nat)
    (connects : Bool) : Drawn V m (s.connectAndSend r i connects) := by
  have hshape := h.shape.connectAndSend hr hin i connects
  cases connects with
  | false =>
    rw [connectAndSend_false] at hshape ⊢
    exact { h with shape := hshape }
  | true =>
    rw [connectAndSend_true] at hshape ⊢
    refine { h with
      shape := hshape
      texts := ?_
      sent := ?_ }
    · intro r' hr'
      show (Function.update s.run r _ r').runVariables = _
      by_cases hrr : r' = r
      · rw [hrr, Function.update_self]
        exact h.texts r hr
      · rw [Function.update_of_ne hrr]
        exact h.texts r' hr'
    · intro d hd
      rcases List.mem_append.mp hd with hd | hd
      · exact h.sent d hd
      · rw [List.mem_singleton.mp hd]
        exact ⟨hr, h.texts r hr⟩

/-! ## Every event -/

/-- **The condition on an event**: a file does not come to its end while a run waits to be tried
    again. -/
def ValuesOk (s : MonteCarlo) : Event → Prop
  | .dispatch _ => s.ReachesEof → s.NoRetryWaiting
  | _ => True

instance (s : MonteCarlo) : (e : Event) → Decidable (s.ValuesOk e)
  | .dispatch _ => inferInstanceAs (Decidable (_ → _))
  | .spawnSlaves | .accept _ _ | .checkTimeout _ | .startSlave _ | .stopSlave _ =>
    inferInstanceAs (Decidable True)

/-- The condition still holds when a run has been skipped. -/
theorem Front.valuesOk_skip (hf : s.Front m rest) (hout : s.inRange m = false)
    (heof : ¬ EofAt s.monteVariables m) (hok : s.ReachesEof → s.NoRetryWaiting) :
    (s.preparedFirst m rest).ReachesEof → (s.preparedFirst m rest).NoRetryWaiting := by
  intro hreach r hr
  rw [(preparedFirst_run hf r).1]
  refine hok ((hf.reachesEof_skip hout heof).mp hreach) r ?_
  rw [hf.runs]
  exact List.mem_cons_of_mem _ hr

theorem Drawn.dispatch (h : Drawn V m s) {connects : Bool}
    (hok : s.ReachesEof → s.NoRetryWaiting) : ∃ m, Drawn V m (s.dispatch connects) := by
  refine dispatch_rule
    (I := fun s => (∃ m, Drawn V m s) ∧ (s.ReachesEof → s.NoRetryWaiting))
    (J := fun s => ∃ m, Drawn V m s) ?_ ?_ ?_ ?_ ?_ ?_ ?_ s ⟨⟨m, h⟩, hok⟩
  · rintro s ⟨⟨m, h⟩, -⟩
    exact ⟨m, h.shape⟩
  · rintro s m rest ⟨-, hok⟩ hf heof hpr
    refine hok ⟨m, hf.mem_toPrepare hpr, ?_, heof⟩
    rw [hf.shape.fresh m (le_refl m) hf.lt]
  · rintro s m rest ⟨⟨m', h⟩, hok⟩ hf heof hout
    obtain rfl := hf.unique h.shape
    exact ⟨⟨m + 1, h.preparedFirst hf heof⟩, hf.valuesOk_skip hout heof hok⟩
  · rintro s m rest ⟨⟨m', h⟩, hok⟩ hf heof hpr
    obtain rfl := hf.unique h.shape
    refine ⟨m, h.preparedEof hf heof (hok ⟨m, hf.mem_toPrepare hpr, ?_, heof⟩)⟩
    rw [hf.shape.fresh m (le_refl m) hf.lt]
  · rintro s ⟨h, -⟩
    exact h
  · rintro s m rest i ⟨⟨m', h⟩, -⟩ hf heof hin -
    obtain rfl := hf.unique h.shape
    exact ⟨m + 1, (h.preparedFirst hf heof).connectAndSend (Nat.lt_succ_self m) hin i connects⟩
  · rintro s m r rest i ⟨⟨m', h⟩, -⟩ hshape hruns htried -
    rcases h.shape.head hruns with ⟨rfl, hlt, -⟩ | ⟨hm, htried', hall⟩
    · -- a run that has been tried is not one that nobody has touched
      have hfresh := h.shape.fresh r (le_refl r) hlt
      have htries := htried.2.1
      rw [hfresh] at htries
      exact absurd htries (Nat.not_succ_le_zero 0)
    · have hprep := h.preparedAgain (h.shape.prepareRun_again htried' hall hm).2
      exact ⟨m', hprep.connectAndSend htried'.1 htried'.2.2 i connects⟩

/-- **Step lemma.** -/
theorem Drawn.step (h : Drawn V m s) {e : Event} (hok : s.ValuesOk e) :
    ∃ m, Drawn V m (s.step e) := by
  unfold MonteCarlo.step
  rw [h.running]
  cases e with
  | spawnSlaves => exact ⟨m, h.kept h.shape.kept_spawnSlaves⟩
  | accept i msg => exact ⟨m, h.kept (h.shape.kept_accept i msg)⟩
  | checkTimeout i => exact ⟨m, h.kept (h.shape.kept_checkTimeout i)⟩
  | dispatch connects => exact h.dispatch hok
  | startSlave i => exact ⟨m, h.kept (h.shape.kept_setSlave i fun _ => rfl)⟩
  | stopSlave i => exact ⟨m, h.kept (h.shape.kept_setSlave i fun _ => rfl)⟩

/-! ## Dry runs -/

/-- **The condition on a dry run**: the first run at which a file has come to its end is out of
    range. -/
def DryRunOk (s : MonteCarlo) : Prop :=
  ∀ k ∈ List.range s.numRuns, (∀ j ∈ List.range k, ¬ EofAt s.monteVariables j) →
    EofAt s.monteVariables k → s.inRange k = false

instance (s : MonteCarlo) : Decidable s.DryRunOk :=
  inferInstanceAs (Decidable (∀ k ∈ List.range s.numRuns, _))

/-- The files that a dry run has written when `m` runs have been prepared. -/
def inputsAt (s : MonteCarlo) (m : Nat) : List (RunId × List String) :=
  ((List.range m).filter fun k => s.inRange k).map fun k => (k, textsAt s.monteVariables k)

/-- The invariant of the loop of a dry run that began at `s₀`. -/
structure Dry (s₀ : MonteCarlo) (m : Nat) (s : MonteCarlo) : Prop where
  values : Drawn s₀.monteVariables m s
  untried : ∀ r, (s.run r).numTries = 0
  numRuns : s.numRuns = s₀.numRuns
  ranges : s.runRanges = s₀.runRanges
  written : s.monteInput = s₀.inputsAt m

/-- A dry run at its end. -/
def DryDone (s₀ s : MonteCarlo) : Prop :=
  ∃ m, m ≤ s₀.numRuns ∧ (m = s₀.numRuns ∨ EofAt s₀.monteVariables m) ∧
    Dispersions s₀.monteVariables m s ∧ s.monteInput = s₀.inputsAt m

variable {s₀ : MonteCarlo}

theorem Dry.inRange_eq (h : Dry s₀ m s) (r : Nat) : s.inRange r = s₀.inRange r := by
  unfold inRange
  rw [h.ranges]

theorem Dry.untried_first (h : Dry s₀ m s) (hf : s.Front m rest) (r : Nat) :
    ((s.preparedFirst m rest).run r).numTries = 0 := by
  rw [(preparedFirst_run hf r).1]
  exact h.untried r

/-- One more run that is in range. -/
theorem inputsAt_succ (hin : s₀.inRange m = true) :
    s₀.inputsAt (m + 1) = s₀.inputsAt m ++ [(m, textsAt s₀.monteVariables m)] := by
  unfold inputsAt
  rw [List.range_succ, List.filter_append, List.map_append]
  simp [hin]

/-- One more run that is out of range. -/
theorem inputsAt_skip (hout : s₀.inRange m = false) : s₀.inputsAt (m + 1) = s₀.inputsAt m := by
  unfold inputsAt
  rw [List.range_succ, List.filter_append]
  simp [hout]

/-- **The loop of a dry run** prepares every run once, up to the end of a file. -/
theorem dryrunLoop_done (hok : s₀.DryRunOk) :
    ∀ (fuel : Nat) (s : MonteCarlo), (∃ m, Dry s₀ m s) → s.runs.length < fuel →
      DryDone s₀ (dryrunLoop fuel s) := by
  intro fuel
  induction fuel with
  | zero => intro s _ hlen; omega
  | succ fuel ih =>
    intro s hI hlen
    have hnoRetry : ∀ s m rest, (∃ m, Dry s₀ m s) → s.Front m rest → EofAt s.monteVariables m →
        s.inRange m = false → s.NoRetryWaiting := by
      rintro s m rest ⟨m', h⟩ - - - r -
      exact h.untried r
    have hloop := getNextDispatchLoop_rule (I := fun s => ∃ m, Dry s₀ m s) (J := DryDone s₀)
      (fun s ⟨m, h⟩ => ⟨m, h.values.shape⟩) hnoRetry ?_ ?_ (s.runs.length + 1) s hI
      (Nat.lt_succ_self _)
    · unfold dryrunLoop getNextDispatch
      generalize getNextDispatchLoop (s.runs.length + 1) s = p at hloop
      obtain ⟨s', next⟩ := p
      rcases hloop with ⟨⟨m, h⟩, -, hle, ⟨hnext, hempty⟩ | ⟨r, rest, hnext, hruns, hin⟩⟩ | ⟨hJ, hnext⟩
      · -- all runs have been prepared
        obtain rfl : next = none := hnext
        have hm : m = s₀.numRuns := by
          rw [← h.numRuns]
          refine le_antisymm h.values.shape.le (not_lt.mp fun hlt => ?_)
          have hmem := h.values.shape.mem_of_le (le_refl m) hlt
          have hempty' : s'.runs = [] := hempty
          rw [hempty'] at hmem
          cases hmem
        exact ⟨m, le_of_eq hm, Or.inl hm, h.values.dispersions, h.written⟩
      · -- the next run in range
        obtain rfl : next = some r := hnext
        have hruns' : s'.runs = r :: rest := hruns
        rcases h.values.shape.head hruns' with ⟨rfl, hlt, -⟩ | ⟨-, htried, -⟩
        · have hf : s'.Front r rest := ⟨h.values.shape, hruns', hlt⟩
          have hin' : s₀.inRange r = true := (h.inRange_eq r).symm.trans hin
          have heof : ¬ EofAt s'.monteVariables r := by
            intro hf'
            have hout := hok r (List.mem_range.mpr (by rw [← h.numRuns]; exact hlt))
              (fun j hj => h.values.noEof j (List.mem_range.mp hj)) ((h.values.eofAt r).mp hf')
            rw [hin'] at hout
            cases hout
          have hprep := h.values.preparedFirst hf heof
          show DryDone s₀ (dryrunLoop fuel { (s'.prepareRun r).1 with
            monteInput := (s'.prepareRun r).1.monteInput ++
              [(r, ((s'.prepareRun r).1.run r).runVariables)] })
          rw [(hf.prepareRun_first heof).1]
          have hinput : (s'.preparedFirst r rest).monteInput ++
              [(r, ((s'.preparedFirst r rest).run r).runVariables)] = s₀.inputsAt (r + 1) := by
            rw [inputsAt_succ hin', hprep.texts r (Nat.lt_succ_self r)]
            exact congrArg (· ++ _) h.written
          refine ih _ ⟨r + 1, ?_⟩ ?_
          · refine ⟨?_, h.untried_first hf, h.numRuns, h.ranges, hinput⟩
            refine { hprep with
              shape := { hprep.shape with }
              input := ?_ }
            intro d hd
            have hd' : d ∈ s₀.inputsAt (r + 1) := hinput ▸ hd
            obtain ⟨k, hk, rfl⟩ := List.mem_map.mp hd'
            exact ⟨List.mem_range.mp (List.mem_of_mem_filter hk), rfl⟩
          · have hle' : s'.runs.length ≤ s.runs.length := hle
            rw [hruns', List.length_cons] at hle'
            show rest.length < fuel
            omega
        · have htries := htried.2.1
          rw [h.untried r] at htries
          exact absurd htries (Nat.not_succ_le_zero 0)
      · obtain rfl : next = none := hnext
        exact hJ
    · -- a run that is out of range is skipped
      rintro s m rest ⟨m', h⟩ hf heof hout
      obtain rfl := hf.unique h.values.shape
      refine ⟨m + 1, h.values.preparedFirst hf heof, h.untried_first hf, h.numRuns, h.ranges, ?_⟩
      rw [inputsAt_skip ((h.inRange_eq m).symm.trans hout)]
      exact h.written
    · rintro s m rest ⟨m', h⟩ hf heof -
      obtain rfl := hf.unique h.values.shape
      have hno : s.NoRetryWaiting := fun r _ => h.untried r
      refine ⟨m, ?_, Or.inr ((h.values.eofAt m).mp heof),
        (h.values.preparedEof hf heof hno).dispersions, h.written⟩
      rw [← h.numRuns]
      exact hf.shape.le

/-! ## The result -/

theorem Configured.drawn_zero (h : s.Configured) : Drawn s.monteVariables 0 s where
  shape := h.shape
  streams := rfl
  texts := fun r hr => absurd hr (Nat.not_lt_zero r)
  rows := h.rows
  sent := fun d hd => by rw [h.sent] at hd; cases hd
  input := fun d hd => by rw [h.input] at hd; cases hd
  drawn := Or.inl h.drawn
  noEof := fun k hk => absurd hk (Nat.not_lt_zero k)
  running := h.running

/-- **The values of the runs are reproducible.**  Whatever the slaves do, and also in a dry run, what
    is sent to a slave and written for run `k` are the `k`-th values of the variables. -/
theorem reproducible (hs : s.Configured) :
    (∀ es, Guarded ValuesOk MonteCarlo.step s es →
      ∃ m, Dispersions s.monteVariables m (Trick.Lib.run MonteCarlo.step s es)) ∧
    (s.DryRunOk → DryDone s s.dryrun) := by
  constructor
  · intro es hok
    have hstep : ∀ s' e, (∃ m, Drawn s.monteVariables m s') → ValuesOk s' e →
        ∃ m, Drawn s.monteVariables m (MonteCarlo.step s' e) := fun _ _ ⟨_, hi⟩ hc => hi.step hc
    obtain ⟨m, h⟩ := Guarded.invariant hstep es s ⟨0, hs.drawn_zero⟩ hok
    exact ⟨m, h.dispersions⟩
  · intro hok
    refine dryrunLoop_done hok _ s ⟨0, hs.drawn_zero, fun r => ?_, rfl, rfl, ?_⟩ (Nat.lt_succ_self _)
    · rw [hs.fresh r]
    · rw [hs.input]
      rfl

/-- A variable with one value. -/
def fixedVar : MonteVar where
  next := fun _ => ⟨"x = 1", "1"⟩

/-- A variable from a file with two lines. -/
def fileVar : MonteVar where
  next := fun k => if k < 2 then ⟨"y = 2", "2"⟩ else ⟨eof, ""⟩

/-- A master with these variables, runs 0 to 2, and two slaves. -/
def twoLines : MonteCarlo :=
  ({ monteVariables := [fixedVar, fileVar], slaves := [{}, {}] } : MonteCarlo).setNumRuns 3

theorem twoLines_configured : twoLines.Configured := by
  refine Configured.setNumRuns ?_ 3
  refine ⟨rfl, fun _ => rfl, ?_, ?_, rfl, rfl, rfl, rfl, rfl, rfl, rfl⟩
  · decide
  · decide

/-- The first two runs are being run. -/
def twoRunning : List Event :=
  [.spawnSlaves, .accept 0 (.initialization 4), .accept 1 (.initialization 4), .dispatch true,
    .dispatch true]

/-- The same with run 2 out of range. -/
def twoInRange : MonteCarlo := twoLines.addRange 0 1

theorem twoInRange_configured : twoInRange.Configured := twoLines_configured.addRange 0 1

/-- A third dispatch, for which no slave is ready. -/
def threeDispatches : List Event := twoRunning ++ [.dispatch true]

theorem reproducible_twoInRange :
    (∃ m, Dispersions twoInRange.monteVariables m
      (Trick.Lib.run MonteCarlo.step twoInRange threeDispatches)) ∧
    DryDone twoInRange twoInRange.dryrun := by
  obtain ⟨hrun, hdry⟩ := reproducible twoInRange_configured
  exact ⟨hrun threeDispatches (by decide +kernel), hdry (by decide +kernel)⟩

/-- **The end of a file while a run waits to be tried again.**  Run 0 is put back behind run 2, at which
    the file has come to its end; `set_num_runs` deletes run 0.  Run 2 stays in the queue, and its
    values are drawn at every pass of the loop. -/
theorem eofWithRetry_run :
    twoLines.Configured ∧
      ¬ ∃ m, Dispersions twoLines.monteVariables m (Trick.Lib.run MonteCarlo.step twoLines
        (twoRunning ++ [.checkTimeout 0, .accept 1 (.status 1), .dispatch true, .dispatch true])) := by
  refine ⟨twoLines_configured, ?_⟩
  rintro ⟨m, h⟩
  have hrows := congrArg List.length h.rows
  rw [List.length_map, List.length_range] at hrows
  have hlen : (Trick.Lib.run MonteCarlo.step twoLines (twoRunning ++ [.checkTimeout 0,
      .accept 1 (.status 1), .dispatch true, .dispatch true])).runDataFile.length = 2 := by
    decide +kernel
  -- both variables have been asked for a fourth value
  have hdrawn : ∃ v ∈ (Trick.Lib.run MonteCarlo.step twoLines (twoRunning ++ [.checkTimeout 0,
      .accept 1 (.status 1), .dispatch true, .dispatch true])).monteVariables, v.drawn = 4 := by
    decide +kernel
  obtain ⟨v, hv, hv4⟩ := hdrawn
  rcases h.drawn with hd | ⟨-, -, hd⟩
  · have := hd v hv
    omega
  · have := hd v hv
    omega

end Trick.Monte.MonteCarlo
