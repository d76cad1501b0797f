/-
  No run of a Monte Carlo simulation is lost, and none is counted twice.

  A run moves between the queue, the slaves and the results.  `Accounted` says where it can be at the
  top of the master loop.  `Inv s x` is the invariant with one run `x` taken out: in the middle of
  `handle_run_data` and of `dispatch_run_to_slave` the run at hand is in none of the places.

  A run is really lost when a slave does not accept the connection over which it is sent, and when the
  connection over which its result comes in breaks: it has been taken from the queue by then and is
  not put back.  A run that times out on two slaves may stand in the queue twice, and is tried more
  often than `max_tries`.  At the end of a file the number of runs is worked out anew, and a slave
  that still runs a resolved run counts as one more.

  `run_accounting` is the result for runs whose events meet `EventOk`; `refusedConnection_run` is a run
  in which a slave does not accept a connection.
-/
import Trick.MonteCarlo.Queue

namespace Trick.Monte.MonteCarlo

open Trick.Lib

/-! ## Where a run can be -/

/-- The run has a result. -/
def Resolved (s : MonteCarlo) (r : Nat) : Prop := (s.run r).exitStatus ≠ .runIncomplete

instance (s : MonteCarlo) (r : Nat) : Decidable (s.Resolved r) := inferInstanceAs (Decidable (_ ≠ _))

/-- The run is the current run of a slave that is running it. -/
def RunningOn (s : MonteCarlo) (r : Nat) : Prop :=
  ∃ sl ∈ s.slaves, sl.Active ∧ sl.currentRun = some r

instance (s : MonteCarlo) (r : Nat) : Decidable (s.RunningOn r) :=
  inferInstanceAs (Decidable (∃ sl ∈ s.slaves, _))

/-- The run is resolved, waits in the queue, or is running. -/
def Accounted (s : MonteCarlo) (r : Nat) : Prop := s.Resolved r ∨ r ∈ s.runs ∨ s.RunningOn r

/-- **The invariant**, with the run `x` left out. -/
structure Inv (s : MonteCarlo) (x : Option Nat) : Prop where
  shape : ∃ m, s.Shape m
  accounted : ∀ r, r < s.numRuns → s.inRange r = true → x ≠ some r → s.Accounted r
  counted : s.numResults = s.resolved.length
  once : (s.resolved.map Prod.fst).Nodup
  status : ∀ r, s.Resolved r ↔ r ∈ s.resolved.map Prod.fst
  within : ∀ r, s.Resolved r → r < s.numRuns ∧ s.inRange r = true
  tries : ∀ r, (s.run r).numTries = (s.sent.filter fun d => d.2.1 = r).length
  limit : 0 < s.maxTries → ∀ r, (s.run r).numTries ≤ s.maxTries
  waiting : 0 < s.maxTries → s.runs.Nodup ∧ ∀ r ∈ s.runs, (s.run r).numTries < s.maxTries
  active : ∀ sl ∈ s.slaves, sl.Active → ∃ r, sl.currentRun = some r
  actual : s.actualNumRuns = ((List.range s.numRuns).filter fun r => s.inRange r).length
  running : s.hung = false

variable {s : MonteCarlo} {x : Option Nat} {m r i : Nat} {rest : List RunId}

/-- The run that was left out is accounted for after all. -/
theorem Inv.restore (h : s.Inv (some r)) (hr : s.Accounted r) : s.Inv none :=
  { h with
    accounted := fun r' hlt hin _ => by
      by_cases hrr : r' = r
      · rw [hrr]; exact hr
      · exact h.accounted r' hlt hin fun heq => hrr (Option.some.inj heq).symm }

/-! ## Changing the slaves -/

/-- **A change of the slaves** that gives no slave another run and starts none.  A run that is not
    running any more must have a result or wait in the queue. -/
theorem Inv.setSlaves (h : s.Inv x) {l : List MonteSlave}
    (hback : ∀ sl' ∈ l, ∃ sl ∈ s.slaves, sl'.currentRun = sl.currentRun ∧ (sl'.Active → sl.Active))
    (hforth : ∀ r, x ≠ some r → s.RunningOn r →
      s.Resolved r ∨ r ∈ s.runs ∨ RunningOn { s with slaves := l } r) :
    Inv { s with slaves := l } x := by
  obtain ⟨m, hshape⟩ := h.shape
  refine { h with
    shape := ⟨m, hshape.setSlaves fun sl' hsl' => ?_⟩
    accounted := ?_
    active := ?_ }
  · obtain ⟨sl, hsl, hrun, _⟩ := hback sl' hsl'
    exact ⟨sl, hsl, hrun⟩
  · intro r hlt hin hx
    rcases h.accounted r hlt hin hx with hres | hq | hrun
    · exact Or.inl hres
    · exact Or.inr (Or.inl hq)
    · exact hforth r hx hrun
  · intro sl' hsl' hact
    obtain ⟨sl, hsl, hrun, hact'⟩ := hback sl' hsl'
    obtain ⟨r, hr⟩ := h.active sl hsl (hact' hact)
    exact ⟨r, hrun.trans hr⟩

/-- A change of slave `i` that leaves its run alone. -/
theorem Inv.setSlave (h : s.Inv x) {f : MonteSlave → MonteSlave}
    (hrun : ∀ sl, (f sl).currentRun = sl.currentRun)
    (hact : ∀ sl, s.slaves[i]? = some sl → (f sl).Active → sl.Active)
    (hend : ∀ sl, s.slaves[i]? = some sl → sl.Active → (f sl).Active ∨
      ∀ r, sl.currentRun = some r → x ≠ some r → s.Resolved r ∨ r ∈ s.runs ∨
        ∃ j sl', j ≠ i ∧ s.slaves[j]? = some sl' ∧ sl'.Active ∧ sl'.currentRun = some r) :
    Inv (s.setSlave i f) x := by
  refine h.setSlaves ?_ ?_
  · intro sl' hsl'
    rcases mem_modify hsl' with hmem | ⟨sl, hsl, rfl⟩
    · exact ⟨sl', hmem, rfl, id⟩
    · exact ⟨sl, List.mem_of_getElem? hsl, hrun sl, hact sl hsl⟩
  · rintro r hx ⟨sl, hsl, hactive, hr⟩
    obtain ⟨j, hj⟩ := List.mem_iff_getElem?.mp hsl
    by_cases hij : i = j
    · subst hij
      rcases hend sl hj hactive with hf | hother
      · exact Or.inr (Or.inr ⟨f sl, modify_self_mem hj, hf, (hrun sl).trans hr⟩)
      · rcases hother r hr hx with hres | hq | ⟨j, sl', hne, hj', ha, hr'⟩
        · exact Or.inl hres
        · exact Or.inr (Or.inl hq)
        · exact Or.inr (Or.inr ⟨sl', mem_modify_of_ne (Ne.symm hne) hj', ha, hr'⟩)
    · exact Or.inr (Or.inr ⟨sl, mem_modify_of_ne hij hj, hactive, hr⟩)

/-! ## The operations on a run -/

/-- **Taking a run from the queue.** -/
theorem Inv.dequeueRun (h : s.Inv none) (hshape : s.Shape m) (hr : s.Tried m r) :
    Inv (s.dequeueRun r) (some r) := by
  refine { h with
    shape := ⟨m, hshape.dequeueRun hr⟩
    accounted := ?_
    waiting := ?_ }
  · intro r' hlt hin hx
    have hne : r' ≠ r := fun heq => hx (by rw [heq])
    rcases h.accounted r' hlt hin nofun with hres | hmem | hrun
    · exact Or.inl hres
    · exact Or.inr (Or.inl (mem_dequeue_of_ne hne hmem))
    · exact Or.inr (Or.inr hrun)
  · intro hmax
    obtain ⟨hnodup, hlt⟩ := h.waiting hmax
    exact ⟨hnodup.sublist (dequeue_sublist r s.runs),
      fun r' hr' => hlt r' ((dequeue_sublist r s.runs).subset hr')⟩

/-- **Putting a run back into the queue.** -/
theorem Inv.requeue (h : s.Inv x) (hx : x = none ∨ x = some r) (hshape : s.Shape m)
    (hr : s.Tried m r)
    (hlim : 0 < s.maxTries → r ∉ s.runs ∧ (s.run r).numTries < s.maxTries) :
    Inv { s with runs := s.runs ++ [r] } none := by
  refine { h with
    shape := ⟨m, hshape.requeue hr⟩
    accounted := ?_
    waiting := ?_ }
  · intro r' hlt hin _
    by_cases hrr : r' = r
    · rw [hrr]
      exact Or.inr (Or.inl (List.mem_append_right _ (List.mem_singleton_self r)))
    · have hne : x ≠ some r' := by
        rcases hx with hx | hx
        · rw [hx]; exact nofun
        · rw [hx]; exact fun heq => hrr (Option.some.inj heq).symm
      rcases h.accounted r' hlt hin hne with hres | hmem | hrun
      · exact Or.inl hres
      · exact Or.inr (Or.inl (List.mem_append_left _ hmem))
      · exact Or.inr (Or.inr hrun)
  · intro hmax
    obtain ⟨hnodup, hlt⟩ := h.waiting hmax
    obtain ⟨hnot, hrlt⟩ := hlim hmax
    refine ⟨?_, fun r' hr' => ?_⟩
    · rw [List.nodup_append]
      refine ⟨hnodup, List.nodup_singleton r, ?_⟩
      intro a ha b hb
      rw [List.mem_singleton.mp hb]
      exact fun hab => hnot (hab ▸ ha)
    · rcases List.mem_append.mp hr' with hr' | hr'
      · exact hlt r' hr'
      · rw [List.mem_singleton.mp hr']
        exact hrlt

/-- **A run gets its result.** -/
theorem Inv.resolveRun (h : s.Inv x) (hx : x = none ∨ x = some r) (hshape : s.Shape m)
    (hr : s.Tried m r) (hinc : ¬ s.Resolved r) {status : ExitStatus}
    (hst : status ≠ .runIncomplete) : Inv (s.resolveRun i r status) none := by
  have hshape' := hshape.resolveRun hr i status
  obtain ⟨failed, errors, heq⟩ := resolveRun_eq s i r status
  rw [heq] at hshape' ⊢
  have htries : ∀ r', (Function.update s.run r { s.run r with exitStatus := status } r').numTries =
      (s.run r').numTries := by
    intro r'
    by_cases hrr : r' = r
    · rw [hrr, Function.update_self]
    · rw [Function.update_of_ne hrr]
  have hres : ∀ r', ((Function.update s.run r { s.run r with exitStatus := status }) r').exitStatus
      ≠ .runIncomplete ↔ r' = r ∨ s.Resolved r' := by
    intro r'
    by_cases hrr : r' = r
    · rw [hrr, Function.update_self]
      exact ⟨fun _ => Or.inl rfl, fun _ => hst⟩
    · rw [Function.update_of_ne hrr]
      exact ⟨Or.inr, fun hor => hor.resolve_left hrr⟩
  -- the slave has one more result, and runs what it ran before
  have hslaves : ∀ sl' ∈ s.slaves.modify i fun sl => { sl with numResults := sl.numResults + 1 },
      ∃ sl ∈ s.slaves, sl'.currentRun = sl.currentRun ∧ (sl'.Active → sl.Active) := by
    intro sl' hsl'
    rcases mem_modify hsl' with hmem | ⟨sl, hsl, rfl⟩
    · exact ⟨sl', hmem, rfl, id⟩
    · exact ⟨sl, List.mem_of_getElem? hsl, rfl, id⟩
  have hrunning : ∀ r', s.RunningOn r' →
      ∃ sl ∈ s.slaves.modify i fun sl => { sl with numResults := sl.numResults + 1 },
        sl.Active ∧ sl.currentRun = some r' := by
    rintro r' ⟨sl, hsl, hact, hr'⟩
    obtain ⟨j, hj⟩ := List.mem_iff_getElem?.mp hsl
    by_cases hij : i = j
    · subst hij
      exact ⟨_, modify_self_mem hj, hact, hr'⟩
    · exact ⟨sl, mem_modify_of_ne hij hj, hact, hr'⟩
  refine { h with
    shape := ⟨m, hshape'⟩
    accounted := ?_
    counted := ?_
    once := ?_
    status := ?_
    within := ?_
    tries := ?_
    limit := ?_
    waiting := ?_
    active := ?_ }
  · intro r' hlt hin _
    by_cases hrr : r' = r
    · exact Or.inl ((hres r').mpr (Or.inl hrr))
    · have hne : x ≠ some r' := by
        rcases hx with hx | hx
        · rw [hx]; exact nofun
        · rw [hx]; exact fun heq => hrr (Option.some.inj heq).symm
      rcases h.accounted r' hlt hin hne with hres' | hmem | hrun
      · exact Or.inl ((hres r').mpr (Or.inr hres'))
      · exact Or.inr (Or.inl hmem)
      · exact Or.inr (Or.inr (hrunning r' hrun))
  · show s.numResults + 1 = (s.resolved ++ [(r, status)]).length
    rw [h.counted, List.length_append]
    rfl
  · show ((s.resolved ++ [(r, status)]).map Prod.fst).Nodup
    rw [List.map_append, List.nodup_append]
    refine ⟨h.once, List.nodup_singleton r, ?_⟩
    intro a ha b hb
    rw [List.mem_singleton.mp hb]
    intro hab
    refine hinc ((h.status r).mpr ?_)
    rw [← show a = r from hab]
    exact ha
  · intro r'
    refine (hres r').trans ?_
    show _ ↔ r' ∈ (s.resolved ++ [(r, status)]).map Prod.fst
    rw [List.map_append, List.mem_append, h.status r', or_comm]
    exact or_congr_right (List.mem_singleton (b := r)).symm
  · intro r' hr'
    rcases (hres r').mp hr' with rfl | hold
    · exact ⟨lt_of_lt_of_le hr.1 hshape.le, hr.2.2⟩
    · exact h.within r' hold
  · intro r'
    exact (htries r').trans (h.tries r')
  · intro hmax r'
    exact le_of_eq_of_le (htries r') (h.limit hmax r')
  · intro hmax
    refine ⟨(h.waiting hmax).1, fun r' hr' => ?_⟩
    exact lt_of_eq_of_lt (htries r') ((h.waiting hmax).2 r' hr')
  · intro sl' hsl' hact
    obtain ⟨sl, hsl, hrun, hact'⟩ := hslaves sl' hsl'
    obtain ⟨r', hr'⟩ := h.active sl hsl (hact' hact)
    exact ⟨r', hrun.trans hr'⟩

/-- `handle_retry` -/
theorem Inv.handleRetry (h : s.Inv x) (hx : x = none ∨ x = some r) (hshape : s.Shape m)
    (hr : s.Tried m r) (hinc : ¬ s.Resolved r) (hq : 0 < s.maxTries → r ∉ s.runs)
    {status : ExitStatus} (hst : status ≠ .runIncomplete) :
    Inv (s.handleRetry i r status) none := by
  unfold MonteCarlo.handleRetry
  split
  · rename_i hor
    refine h.requeue hx hshape hr fun hmax => ⟨hq hmax, ?_⟩
    exact hor.resolve_left (Nat.pos_iff_ne_zero.mp hmax)
  · exact h.resolveRun hx hshape hr hinc hst

/-! ## Reports and timeouts -/

theorem resolveRun_resolved {status : ExitStatus} (hst : status ≠ .runIncomplete) :
    (s.resolveRun i r status).Resolved r := by
  obtain ⟨failed, errors, heq⟩ := resolveRun_eq s i r status
  rw [heq]
  show (Function.update s.run r _ r).exitStatus ≠ _
  rw [Function.update_self]
  exact hst

/-- After `handle_retry` the run has a result or waits in the queue. -/
theorem handleRetry_done {status : ExitStatus} (hst : status ≠ .runIncomplete) :
    (s.handleRetry i r status).Resolved r ∨ r ∈ (s.handleRetry i r status).runs := by
  unfold MonteCarlo.handleRetry
  split
  · exact Or.inr (List.mem_append_right _ (List.mem_singleton_self r))
  · exact Or.inl (resolveRun_resolved hst)

theorem resolveRun_currentRun {status : ExitStatus} {sl : MonteSlave}
    (hsl : (s.resolveRun i r status).slaves[i]? = some sl) :
    ∃ sl', s.slaves[i]? = some sl' ∧ sl.currentRun = sl'.currentRun := by
  obtain ⟨failed, errors, heq⟩ := resolveRun_eq s i r status
  rw [heq] at hsl
  have hsl' : (s.slaves.modify i fun sl => { sl with numResults := sl.numResults + 1 })[i]? =
      some sl := hsl
  rw [getElem?_modify_self, Option.map_eq_some_iff] at hsl'
  obtain ⟨sl', h', rfl⟩ := hsl'
  exact ⟨sl', h', rfl⟩

theorem handleRetry_currentRun {status : ExitStatus} {sl : MonteSlave}
    (hsl : (s.handleRetry i r status).slaves[i]? = some sl) :
    ∃ sl', s.slaves[i]? = some sl' ∧ sl.currentRun = sl'.currentRun := by
  unfold MonteCarlo.handleRetry at hsl
  split at hsl
  · exact ⟨sl, hsl, rfl⟩
  · exact resolveRun_currentRun hsl

/-- A slave whose run has a result or waits in the queue may stop running it. -/
theorem Inv.setState (h : s.Inv none) {f : MonteSlave → MonteSlave}
    (hrun : ∀ sl, (f sl).currentRun = sl.currentRun)
    (hact : ∀ sl, (f sl).Active → sl.Active)
    (hcur : ∀ sl, s.slaves[i]? = some sl → sl.currentRun = some r)
    (hdone : s.Resolved r ∨ r ∈ s.runs) : Inv (s.setSlave i f) none := by
  refine h.setSlave hrun (fun sl _ => hact sl) fun sl hsl _ => Or.inr fun r' hr' _ => ?_
  rw [hcur sl hsl] at hr'
  obtain rfl := Option.some.inj hr'
  rcases hdone with hres | hq
  · exact Or.inl hres
  · exact Or.inr (Or.inl hq)

/-- The state of a slave that has reported is not a running one. -/
theorem not_active_reported (sl : MonteSlave) :
    ¬ MonteSlave.Active { sl with state := sl.state.reported } := by
  unfold MonteSlave.Active SlaveState.reported
  cases sl.state <;> simp

/-- Another slave is running the run. -/
def RunningElsewhere (s : MonteCarlo) (i r : Nat) : Prop :=
  ∃ j ∈ List.range s.slaves.length, j ≠ i ∧
    ∃ sl ∈ s.slaves[j]?, sl.Active ∧ sl.currentRun = some r

instance (s : MonteCarlo) (i r : Nat) : Decidable (s.RunningElsewhere i r) :=
  inferInstanceAs (Decidable (∃ j ∈ List.range s.slaves.length, _))

/-- **A report**, if it can be read or the run is not lost with it. -/
theorem Inv.handleRunData (h : s.Inv none) {sl : MonteSlave} (hi : s.slaves[i]? = some sl)
    (hr : sl.currentRun = some r) {msg : Message}
    (hok : msg.firstInt = none → s.Resolved r ∨ s.RunningElsewhere i r) :
    Inv (s.handleRunData i r msg) none := by
  obtain ⟨m, hshape⟩ := h.shape
  have htried := hshape.slaves sl (List.mem_of_getElem? hi) r hr
  have hex := h.dequeueRun hshape htried
  have hcur : ∀ sl', (s.dequeueRun r).slaves[i]? = some sl' → sl'.currentRun = some r := by
    intro sl' hsl'
    have heq : some sl = some sl' := hi.symm.trans hsl'
    rw [← Option.some.inj heq]
    exact hr
  unfold MonteCarlo.handleRunData
  simp only
  split
  · -- it was resolved by another slave, or before
    rename_i hres
    exact (hex.restore (Or.inl hres)).setState (fun _ => rfl)
      (fun sl hf => absurd hf (not_active_reported sl)) hcur (Or.inl hres)
  · rename_i hinc
    obtain ⟨m', hshape'⟩ := hex.shape
    have htried' : (s.dequeueRun r).Tried m' r :=
      hshape'.slaves sl (List.mem_of_getElem? hi) r hr
    have hq : 0 < s.maxTries → r ∉ dequeue r s.runs := fun hmax =>
      not_mem_dequeue (h.waiting hmax).1
    split
    · -- the connection is lost, but another slave is running the run
      rename_i hlost
      rcases hok hlost with hres | ⟨j, -, hne, sl', hj, hact, hr'⟩
      · exact absurd hres hinc
      · have hset := hex.setSlave (i := i)
          (f := fun sl => { sl with state := .disconnected }) (fun _ => rfl)
          (fun sl _ hf => by rcases hf with hf | hf <;> cases hf)
          (fun sl hsl _ => Or.inr fun r' hr' hx => by
            rw [hcur sl hsl] at hr'
            exact absurd hr' hx)
        refine hset.restore (Or.inr (Or.inr ⟨sl', ?_, hact, hr'⟩))
        exact mem_modify_of_ne (Ne.symm hne) hj
    · rename_i code _
      split
      · rename_i status hout
        have hst : status ≠ .runIncomplete := by
          unfold outcome at hout
          split_ifs at hout <;> cases hout <;> exact nofun
        refine (hex.resolveRun (Or.inr rfl) hshape' htried' hinc hst).setState (fun _ => rfl)
          (fun sl hf => absurd hf (not_active_reported sl)) ?_ (Or.inl (resolveRun_resolved hst))
        intro sl' hsl'
        obtain ⟨sl'', h'', heq⟩ := resolveRun_currentRun hsl'
        rw [heq]
        exact hcur sl'' h''
      · rename_i status hout
        have hst : status ≠ .runIncomplete := by
          unfold outcome at hout
          split_ifs at hout <;> cases hout <;> exact nofun
        refine (hex.handleRetry (Or.inr rfl) hshape' htried' hinc hq hst).setState (fun _ => rfl)
          (fun sl hf => absurd hf (not_active_reported sl)) ?_ (handleRetry_done hst)
        intro sl' hsl'
        obtain ⟨sl'', h'', heq⟩ := handleRetry_currentRun hsl'
        rw [heq]
        exact hcur sl'' h''

/-- The condition on a report: if it cannot be read, its run has a result or is running elsewhere. -/
def ReportOk (s : MonteCarlo) (i : Nat) (msg : Message) : Prop :=
  msg.firstInt = none → ∀ sl ∈ s.slaves[i]?, sl.state ≠ .initializing → ∀ r ∈ sl.currentRun,
    s.Resolved r ∨ s.RunningElsewhere i r

instance (s : MonteCarlo) (i : Nat) (msg : Message) : Decidable (s.ReportOk i msg) :=
  inferInstanceAs (Decidable (_ → ∀ sl ∈ s.slaves[i]?, _ → ∀ r ∈ sl.currentRun, _))

/-- `receive_results` -/
theorem Inv.accept (h : s.Inv none) {msg : Message} (hok : s.ReportOk i msg) :
    Inv (s.accept i msg) none := by
  unfold MonteCarlo.accept
  split
  · exact h
  · rename_i sl hi
    split
    · -- an initializing slave is not running anything
      rename_i hinit
      have hactive : ∀ sl', s.slaves[i]? = some sl' → ¬ sl'.Active := by
        intro sl' hsl' hact
        have heq : some sl = some sl' := hi.symm.trans hsl'
        rw [← Option.some.inj heq] at hact
        rcases hact with hf | hf <;> rw [hinit] at hf <;> cases hf
      unfold handleInitialization
      split
      · exact h.setSlave (fun _ => rfl) (fun sl _ hf => by rcases hf with hf | hf <;> cases hf)
          fun sl' hsl' hact => absurd hact (hactive sl' hsl')
      · exact h.setSlave (fun _ => rfl) (fun sl _ hf => by rcases hf with hf | hf <;> cases hf)
          fun sl' hsl' hact => absurd hact (hactive sl' hsl')
    · rename_i hinit
      split
      · exact h
      · rename_i r hr
        exact h.handleRunData hi hr fun hlost => hok hlost sl hi hinit r hr

/-- The condition on a timeout: with a limit on the tries, a run that has no result does not wait in
    the queue already. -/
def TimeoutOk (s : MonteCarlo) (i : Nat) : Prop :=
  0 < s.maxTries → ∀ sl ∈ s.slaves[i]?, sl.Active → ∀ r ∈ sl.currentRun,
    ¬ s.Resolved r → r ∉ s.runs

instance (s : MonteCarlo) (i : Nat) : Decidable (s.TimeoutOk i) :=
  inferInstanceAs (Decidable (_ → ∀ sl ∈ s.slaves[i]?, _ → ∀ r ∈ sl.currentRun, _))

/-- `check_timeouts` -/
theorem Inv.checkTimeout (h : s.Inv none) (hok : s.TimeoutOk i) : Inv (s.checkTimeout i) none := by
  unfold MonteCarlo.checkTimeout
  split
  · exact h
  · rename_i sl hi
    split
    · rename_i hact
      split
      · exact h
      · rename_i r hr
        obtain ⟨m, hshape⟩ := h.shape
        have htried := hshape.slaves sl (List.mem_of_getElem? hi) r hr
        have hcur : ∀ sl', s.slaves[i]? = some sl' → sl'.currentRun = some r := by
          intro sl' hsl'
          have heq : some sl = some sl' := hi.symm.trans hsl'
          rw [← Option.some.inj heq]
          exact hr
        have hnot : ∀ sl' : MonteSlave, ¬ MonteSlave.Active { sl' with
            state := if sl'.state = .running then .unresponsiveRunning
              else .unresponsiveStopping } := by
          intro sl' hf
          rcases hf with hf | hf <;> simp only at hf <;> split at hf <;> cases hf
        by_cases hinc : (s.run r).exitStatus = .runIncomplete
        · rw [if_pos hinc]
          have hst : ExitStatus.runTimedOut ≠ .runIncomplete := nofun
          refine (h.handleRetry (Or.inl rfl) hshape htried (not_not.mpr hinc)
            (fun hmax => hok hmax sl hi hact r hr (not_not.mpr hinc)) hst).setState (fun _ => rfl)
            (fun sl hf => absurd hf (hnot sl)) ?_ (handleRetry_done hst)
          intro sl' hsl'
          obtain ⟨sl'', h'', heq⟩ := handleRetry_currentRun hsl'
          rw [heq]
          exact hcur sl'' h''
        · rw [if_neg hinc]
          exact h.setState (fun _ => rfl) (fun sl hf => absurd hf (hnot sl)) hcur (Or.inl hinc)
    · exact h

/-! ## Starting and stopping slaves -/

theorem Inv.spawnSlaves (h : s.Inv none) : Inv s.spawnSlaves none := by
  refine h.setSlaves ?_ ?_
  · intro sl' hsl'
    obtain ⟨sl, hsl, rfl⟩ := List.mem_map.mp hsl'
    refine ⟨sl, hsl, ?_⟩
    split
    · exact ⟨rfl, fun hf => by rcases hf with hf | hf <;> cases hf⟩
    · exact ⟨rfl, id⟩
  · rintro r - ⟨sl, hsl, hact, hr⟩
    refine Or.inr (Or.inr ⟨sl, List.mem_map.mpr ⟨sl, hsl, ?_⟩, hact, hr⟩)
    rw [if_neg]
    rcases hact with hst | hst <;> rw [hst] <;> exact nofun

theorem Inv.startSlave (h : s.Inv none) : Inv (s.startSlave i) none := by
  refine h.setSlave (fun _ => rfl) ?_ ?_
  · intro sl _
    unfold MonteSlave.Active SlaveState.started
    cases sl.state <;> simp
  · intro sl _ hact
    left
    revert hact
    unfold MonteSlave.Active SlaveState.started
    cases sl.state <;> simp

theorem Inv.stopSlave (h : s.Inv none) : Inv (s.stopSlave i) none := by
  refine h.setSlave (fun _ => rfl) ?_ ?_
  · intro sl _
    unfold MonteSlave.Active SlaveState.stoppedBy
    cases sl.state <;> simp
  · intro sl _ hact
    left
    revert hact
    unfold MonteSlave.Active SlaveState.stoppedBy
    cases sl.state <;> simp

/-! ## Dispatch -/

/-- A slave that is ready. -/
theorem getReadySlave_some (h : s.getReadySlave = some i) :
    ∃ sl, s.slaves[i]? = some sl ∧ sl.state = .ready := by
  unfold getReadySlave at h
  rw [List.findIdx?_eq_some_iff_getElem] at h
  obtain ⟨hlt, hready, _⟩ := h
  exact ⟨s.slaves[i], List.getElem?_eq_getElem hlt, of_decide_eq_true hready⟩

/-- **Sending a run** that has been taken from the queue. -/
theorem Inv.send (h : s.Inv (some r)) (hshape : s.Shape m) (hr : r < m)
    (hin : s.inRange r = true) (hi : s.getReadySlave = some i)
    (hlim : 0 < s.maxTries → (s.run r).numTries < s.maxTries ∧ r ∉ s.runs) :
    Inv (s.connectAndSend r i true) none := by
  obtain ⟨sl₀, hsl₀, hready⟩ := getReadySlave_some hi
  have hshape' := hshape.connectAndSend hr hin i true
  rw [connectAndSend_true] at hshape' ⊢
  have htries : ∀ r', (Function.update s.run r
      { s.run r with numTries := (s.run r).numTries + 1 } r').numTries =
        (s.run r').numTries + if r' = r then 1 else 0 := by
    intro r'
    by_cases hrr : r' = r
    · rw [hrr, Function.update_self, if_pos rfl]
    · rw [Function.update_of_ne hrr, if_neg hrr, Nat.add_zero]
  have hres : ∀ r', ((Function.update s.run r
      { s.run r with numTries := (s.run r).numTries + 1 }) r').exitStatus ≠ .runIncomplete ↔
        s.Resolved r' := by
    intro r'
    unfold Resolved
    by_cases hrr : r' = r
    · rw [hrr, Function.update_self]
    · rw [Function.update_of_ne hrr]
  refine { h with
    shape := ⟨m, hshape'⟩
    accounted := ?_
    status := ?_
    within := ?_
    tries := ?_
    limit := ?_
    waiting := ?_
    active := ?_ }
  · intro r' hlt hin' _
    by_cases hrr : r' = r
    · -- the run is running on the slave now
      rw [hrr]
      exact Or.inr (Or.inr ⟨_, modify_self_mem hsl₀, Or.inl rfl, rfl⟩)
    · rcases h.accounted r' hlt hin' fun heq => hrr (Option.some.inj heq).symm with
        hres' | hmem | ⟨sl, hsl, hact, hr'⟩
      · exact Or.inl ((hres r').mpr hres')
      · exact Or.inr (Or.inl hmem)
      · obtain ⟨j, hj⟩ := List.mem_iff_getElem?.mp hsl
        have hij : i ≠ j := by
          intro hij
          rw [← hij, hsl₀] at hj
          rw [← Option.some.inj hj] at hact
          rcases hact with hf | hf <;> rw [hready] at hf <;> cases hf
        exact Or.inr (Or.inr ⟨sl, mem_modify_of_ne hij hj, hact, hr'⟩)
  · intro r'
    exact (hres r').trans (h.status r')
  · intro r' hr'
    exact h.within r' ((hres r').mp hr')
  · intro r'
    show (Function.update s.run r _ r').numTries =
      ((s.sent ++ [(i, r, (s.run r).runVariables)]).filter fun d => d.2.1 = r').length
    rw [htries, h.tries r', List.filter_append, List.length_append]
    by_cases hrr : r' = r
    · rw [hrr, if_pos rfl]
      simp
    · rw [if_neg hrr]
      simp [Ne.symm hrr]
  · intro hmax r'
    show (Function.update s.run r _ r').numTries ≤ _
    rw [htries]
    have hle := h.limit hmax r'
    split
    · rename_i hrr
      rw [hrr]
      exact (hlim hmax).1
    · exact hle
  · intro hmax
    refine ⟨(h.waiting hmax).1, fun r' hr' => ?_⟩
    show (Function.update s.run r _ r').numTries < _
    have hne : r' ≠ r := fun heq => (hlim hmax).2 (heq ▸ hr')
    rw [htries, if_neg hne]
    exact (h.waiting hmax).2 r' hr'
  · intro sl' hsl' hact
    rcases mem_modify hsl' with hmem | ⟨sl, -, rfl⟩
    · exact h.active sl' hmem hact
    · exact ⟨r, rfl⟩

/-- **A connection that is refused**, when the run has a result or is running elsewhere. -/
theorem Inv.refused (h : s.Inv (some r)) (hi : s.getReadySlave = some i)
    (hr : s.Resolved r ∨ s.RunningOn r) : Inv (s.connectAndSend r i false) none := by
  obtain ⟨sl₀, hsl₀, hready⟩ := getReadySlave_some hi
  have hidle : ∀ sl, s.slaves[i]? = some sl → ¬ sl.Active := by
    intro sl hsl hact
    rw [hsl₀] at hsl
    rw [← Option.some.inj hsl] at hact
    rcases hact with hf | hf <;> rw [hready] at hf <;> cases hf
  rw [connectAndSend_false]
  have hset := h.setSlave (i := i) (f := fun sl => { sl with state := .disconnected })
    (fun _ => rfl) (fun sl _ hf => by rcases hf with hf | hf <;> cases hf)
    fun sl hsl hact => absurd hact (hidle sl hsl)
  refine hset.restore ?_
  rcases hr with hres | ⟨sl, hsl, hact, hr⟩
  · exact Or.inl hres
  · obtain ⟨j, hj⟩ := List.mem_iff_getElem?.mp hsl
    have hij : i ≠ j := fun hij => hidle sl (hij ▸ hj) hact
    exact Or.inr (Or.inr ⟨sl, mem_modify_of_ne hij hj, hact, hr⟩)

/-! ## The front of the queue -/

/-- **The front of the queue is prepared** and taken out. -/
theorem Inv.preparedFirst (h : s.Inv none) (hf : s.Front m rest)
    (heof : ¬ EofAt s.monteVariables m) : Inv (s.preparedFirst m rest) (some m) := by
  have hrun := preparedFirst_run hf
  have hres : ∀ r, (s.preparedFirst m rest).Resolved r ↔ s.Resolved r := by
    intro r
    unfold Resolved
    rw [(hrun r).2]
  refine { h with
    shape := ⟨m + 1, (hf.prepareRun_first heof).2⟩
    accounted := ?_
    status := fun r => (hres r).trans (h.status r)
    within := fun r hr => h.within r ((hres r).mp hr)
    tries := fun r => (hrun r).1.trans (h.tries r)
    limit := fun hmax r => le_of_eq_of_le (hrun r).1 (h.limit hmax r)
    waiting := ?_ }
  · intro r hlt hin hx
    rcases h.accounted r hlt hin nofun with hr | hmem | hon
    · exact Or.inl ((hres r).mpr hr)
    · rw [hf.runs] at hmem
      rcases List.mem_cons.mp hmem with rfl | hmem
      · exact absurd rfl hx
      · exact Or.inr (Or.inl hmem)
    · exact Or.inr (Or.inr hon)
  · intro hmax
    obtain ⟨hnodup, hlt⟩ := h.waiting hmax
    rw [hf.runs] at hnodup hlt
    refine ⟨(List.nodup_cons.mp hnodup).2, fun r hr => ?_⟩
    exact lt_of_eq_of_lt (hrun r).1 (hlt r (List.mem_cons_of_mem _ hr))

/-- A run that is tried again is taken out. -/
theorem Inv.preparedAgain (h : s.Inv none) (hshape : s.Shape m) (hr : s.Tried m r) :
    Inv (s.preparedAgain r) (some r) := by
  have hex := h.dequeueRun hshape hr
  obtain ⟨m', hshape'⟩ := hex.shape
  exact { hex with shape := ⟨m', { hshape' with }⟩ }

/-! ## The end of a file -/

/-- The runs of the slaves that are running one. -/
def activeRuns (s : MonteCarlo) : List RunId :=
  (s.slaves.filter fun sl => sl.Active).filterMap MonteSlave.currentRun

theorem mem_activeRuns : r ∈ s.activeRuns ↔ s.RunningOn r := by
  unfold activeRuns RunningOn
  rw [List.mem_filterMap]
  constructor
  · rintro ⟨sl, hsl, hr⟩
    rw [List.mem_filter, decide_eq_true_eq] at hsl
    exact ⟨sl, hsl.1, hsl.2, hr⟩
  · rintro ⟨sl, hsl, hact, hr⟩
    exact ⟨sl, List.mem_filter.mpr ⟨hsl, decide_eq_true hact⟩, hr⟩

/-- Every slave that is running has a run. -/
theorem Inv.length_activeRuns (h : s.Inv none) :
    s.activeRuns.length = (s.slaves.filter fun sl => sl.Active).length := by
  have hsome : ∀ sl ∈ s.slaves.filter fun sl => sl.Active, sl.currentRun.isSome := by
    intro sl hsl
    rw [List.mem_filter, decide_eq_true_eq] at hsl
    obtain ⟨r, hr⟩ := h.active sl hsl.1 hsl.2
    rw [hr]
    rfl
  unfold activeRuns
  generalize s.slaves.filter (fun sl => decide sl.Active) = l at hsome
  induction l with
  | nil => rfl
  | cons sl l ih =>
    rw [List.forall_mem_cons] at hsome
    obtain ⟨r, hr⟩ := Option.isSome_iff_exists.mp hsome.1
    rw [List.filterMap_cons_some hr, List.length_cons, List.length_cons, ih hsome.2]

/-- **The condition at the end of a file**: no run waits to be tried again, and the slaves that are
    running run different runs without a result. -/
def EofOk (s : MonteCarlo) : Prop :=
  s.NoRetryWaiting ∧ s.activeRuns.Nodup ∧ ∀ r ∈ s.activeRuns, ¬ s.Resolved r

instance (s : MonteCarlo) : Decidable s.EofOk := inferInstanceAs (Decidable (_ ∧ _ ∧ _))

/-- **The number of runs is right after the end of a file.** -/
theorem Inv.preparedEof (h : s.Inv none) (hf : s.Front m rest) (heof : EofAt s.monteVariables m)
    (hok : s.EofOk) : Inv (s.preparedEof m) none := by
  obtain ⟨hno, hnodup, hunres⟩ := hok
  have hrun := preparedEof_run hf
  have hres : ∀ r, (s.preparedEof m).Resolved r ↔ s.Resolved r := by
    intro r
    unfold Resolved
    rw [(hrun r).2]
  have hlt : ∀ r, s.Resolved r → r < m := by
    intro r hr
    by_contra hge
    exact hr (by rw [hf.shape.fresh r (not_lt.mp hge) (h.within r hr).1])
  have hacc : ∀ r, r < m → s.inRange r = true → s.Resolved r ∨ s.RunningOn r := by
    intro r hr hin
    rcases h.accounted r (lt_trans hr hf.lt) hin nofun with hres | hmem | hon
    · exact Or.inl hres
    · rw [hf.shape.runs_of_noRetry hno, List.mem_range'_1] at hmem
      omega
    · exact Or.inr hon
  -- the runs in range are those with a result and those that are running
  have hperm : (s.resolved.map Prod.fst ++ s.activeRuns).Perm
      ((List.range m).filter fun r => s.inRange r) := by
    rw [List.perm_ext_iff_of_nodup]
    · intro r
      rw [List.mem_append, ← h.status r, mem_activeRuns, List.mem_filter, List.mem_range]
      constructor
      · rintro (hr | ⟨sl, hsl, -, hr⟩)
        · exact ⟨hlt r hr, (h.within r hr).2⟩
        · have htried := hf.shape.slaves sl hsl r hr
          exact ⟨htried.1, htried.2.2⟩
      · rintro ⟨hr, hin⟩
        exact hacc r hr hin
    · rw [List.nodup_append]
      refine ⟨h.once, hnodup, ?_⟩
      intro a ha b hb hab
      exact hunres b hb ((h.status b).mpr (hab ▸ ha))
    · exact List.nodup_range.filter _
  refine { h with
    shape := ⟨m, (hf.prepareRun_eof heof hno).2⟩
    accounted := ?_
    status := fun r => (hres r).trans (h.status r)
    within := fun r hr => ⟨hlt r ((hres r).mp hr), (h.within r ((hres r).mp hr)).2⟩
    tries := fun r => (hrun r).1.trans (h.tries r)
    limit := fun hmax r => le_of_eq_of_le (hrun r).1 (h.limit hmax r)
    waiting := fun _ => ⟨List.nodup_nil, fun r hr => by cases hr⟩
    actual := ?_ }
  · intro r hr hin _
    rcases hacc r hr hin with hr' | hon
    · exact Or.inl ((hres r).mpr hr')
    · exact Or.inr (Or.inr hon)
  · show s.numResults + (s.slaves.filter fun sl => sl.Active).length =
      ((List.range m).filter fun r => s.inRange r).length
    rw [← hperm.length_eq, List.length_append, List.length_map, ← h.counted, h.length_activeRuns]

/-! ## Every event -/

/-- **The condition on a dispatch**: a file does not come to its end at a bad moment, and the slave
    does not refuse a run that is nowhere else. -/
def DispatchOk (s : MonteCarlo) (connects : Bool) : Prop :=
  (s.ReachesEof → s.EofOk) ∧
    (connects = false → s.getReadySlave.isSome → ¬ s.ReachesEof → ∀ r ∈ s.nextInRange,
      s.Resolved r ∨ s.RunningOn r)

instance (s : MonteCarlo) (connects : Bool) : Decidable (s.DispatchOk connects) :=
  inferInstanceAs (Decidable (_ ∧ (_ → _ → _ → ∀ r ∈ s.nextInRange, _)))

/-- **The condition on an event.** -/
def EventOk (s : MonteCarlo) : Event → Prop
  | .accept i msg => s.ReportOk i msg
  | .checkTimeout i => s.TimeoutOk i
  | .dispatch connects => s.DispatchOk connects
  | .spawnSlaves | .startSlave _ | .stopSlave _ => True

instance (s : MonteCarlo) : (e : Event) → Decidable (s.EventOk e)
  | .accept i msg => inferInstanceAs (Decidable (s.ReportOk i msg))
  | .checkTimeout i => inferInstanceAs (Decidable (s.TimeoutOk i))
  | .dispatch connects => inferInstanceAs (Decidable (s.DispatchOk connects))
  | .spawnSlaves | .startSlave _ | .stopSlave _ => inferInstanceAs (Decidable True)

/-- The condition on a dispatch still holds when a run has been skipped. -/
theorem DispatchOk.skip {connects : Bool} (h : s.DispatchOk connects) (hf : s.Front m rest)
    (hout : s.inRange m = false) (heof : ¬ EofAt s.monteVariables m) :
    (s.preparedFirst m rest).DispatchOk connects := by
  have hres : ∀ r, (s.preparedFirst m rest).Resolved r ↔ s.Resolved r := by
    intro r
    unfold Resolved
    rw [(preparedFirst_run hf r).2]
  refine ⟨fun hreach => ?_, fun hc hready hreach r hr => ?_⟩
  · obtain ⟨hno, hnodup, hunres⟩ := h.1 ((hf.reachesEof_skip hout heof).mp hreach)
    refine ⟨fun r hr => ?_, hnodup, fun r hr hf' => hunres r hr ((hres r).mp hf')⟩
    rw [(preparedFirst_run hf r).1]
    refine hno r ?_
    rw [hf.runs]
    exact List.mem_cons_of_mem _ hr
  · rw [(hf.skip hout).2] at hr
    have hreach' : ¬ s.ReachesEof := fun hf' => hreach ((hf.reachesEof_skip hout heof).mpr hf')
    rcases h.2 hc hready hreach' r hr with hr' | hon
    · exact Or.inl ((hres r).mpr hr')
    · exact Or.inr hon

/-- **Dispatch.** -/
theorem Inv.dispatch (h : s.Inv none) {connects : Bool} (hok : s.DispatchOk connects) :
    Inv (s.dispatch connects) none := by
  refine dispatch_rule (I := fun s => s.Inv none ∧ s.DispatchOk connects) (J := fun s => s.Inv none)
    ?_ ?_ ?_ ?_ ?_ ?_ ?_ s ⟨h, hok⟩
  · rintro s ⟨h, -⟩
    exact h.shape
  · rintro s m rest ⟨-, hok⟩ hf heof hpr
    refine (hok.1 ⟨m, hf.mem_toPrepare hpr, ?_, heof⟩).1
    rw [hf.shape.fresh m (le_refl m) hf.lt]
  · -- a run that is out of range is skipped
    rintro s m rest ⟨h, hok⟩ hf heof hout
    refine ⟨{ h.preparedFirst hf heof with accounted := ?_ }, hok.skip hf hout heof⟩
    intro r hlt hin _
    refine (h.preparedFirst hf heof).accounted r hlt hin fun heq => ?_
    rw [← Option.some.inj heq] at hin
    have hin' : s.inRange m = true := hin
    rw [hout] at hin'
    cases hin'
  · rintro s m rest ⟨h, hok⟩ hf heof hpr
    refine h.preparedEof hf heof (hok.1 ⟨m, hf.mem_toPrepare hpr, ?_, heof⟩)
    rw [hf.shape.fresh m (le_refl m) hf.lt]
  · rintro s ⟨h, -⟩
    exact h
  · -- a run is sent for the first time
    rintro s m rest i ⟨h, hok⟩ hf heof hin hi
    have hnext : s.nextInRange = some m := by
      unfold nextInRange
      rw [hf.runs, List.dropWhile_cons_of_neg (by rw [hin]; exact nofun)]
      rfl
    have hprep := h.preparedFirst hf heof
    cases connects with
    | true =>
      refine hprep.send (hf.prepareRun_first heof).2 (Nat.lt_succ_self m) hin hi fun hmax => ?_
      have hwait := h.waiting hmax
      rw [hf.runs] at hwait
      refine ⟨?_, (List.nodup_cons.mp hwait.1).1⟩
      rw [(preparedFirst_run hf m).1]
      exact hwait.2 m (List.mem_cons_self ..)
    | false =>
      refine hprep.refused hi ?_
      have hreach : ¬ s.ReachesEof := by
        rintro ⟨r, hr, -, hr'⟩
        unfold toPrepare at hr
        rw [hnext, hf.runs, List.takeWhile_cons_of_neg (by rw [hin]; exact nofun),
          List.nil_append] at hr
        split at hr
        · rw [List.mem_singleton.mp hr] at hr'
          exact heof hr'
        · cases hr
      rcases hok.2 rfl (by rw [hi]; rfl) hreach m hnext with hres | hon
      · exact absurd (by rw [hf.shape.fresh m (le_refl m) hf.lt]) hres
      · exact Or.inr hon
  · -- a run is sent again
    rintro s m r rest i ⟨h, hok⟩ hshape hruns htried hi
    have hprep := h.preparedAgain hshape htried
    cases connects with
    | true =>
      have hshape' : (s.preparedAgain r).Shape m := by
        rcases hshape.head hruns with ⟨rfl, -, -⟩ | ⟨hm, -, hall⟩
        · exact absurd htried.1 (lt_irrefl r)
        · exact (hshape.prepareRun_again htried hall hm).2
      refine hprep.send hshape' htried.1 htried.2.2 hi fun hmax => ?_
      have hwait := h.waiting hmax
      exact ⟨hwait.2 r (by rw [hruns]; exact List.mem_cons_self ..), not_mem_dequeue hwait.1⟩
    | false =>
      refine hprep.refused hi ?_
      have hnext : s.nextInRange = some r := by
        unfold nextInRange
        rw [hruns, List.dropWhile_cons_of_neg (by rw [htried.2.2]; exact nofun)]
        rfl
      have hreach : ¬ s.ReachesEof := by
        rintro ⟨r', hr', htries, -⟩
        unfold toPrepare at hr'
        rw [hnext, hruns, List.takeWhile_cons_of_neg (by rw [htried.2.2]; exact nofun),
          List.nil_append] at hr'
        split at hr'
        · rw [List.mem_singleton.mp hr'] at htries
          have := htried.2.1
          omega
        · cases hr'
      exact hok.2 rfl (by rw [hi]; rfl) hreach r hnext

/-- **Step lemma.** -/
theorem step_inv (h : s.Inv none) {e : Event} (hok : s.EventOk e) : Inv (s.step e) none := by
  unfold MonteCarlo.step
  rw [h.running]
  cases e with
  | spawnSlaves => exact h.spawnSlaves
  | accept i msg => exact h.accept hok
  | checkTimeout i => exact h.checkTimeout hok
  | dispatch connects => exact h.dispatch hok
  | startSlave i => exact h.startSlave
  | stopSlave i => exact h.stopSlave

/-! ## The result -/

theorem Configured.inv (h : s.Configured) : s.Inv none := by
  have hres : ∀ r, ¬ s.Resolved r := fun r hr => hr (by rw [h.fresh r])
  refine
    { shape := ⟨0, h.shape⟩
      accounted := ?_
      counted := ?_
      once := ?_
      status := ?_
      within := fun r hr => absurd hr (hres r)
      tries := ?_
      limit := ?_
      waiting := ?_
      active := ?_
      actual := h.actual
      running := h.running }
  · intro r hlt _ _
    refine Or.inr (Or.inl ?_)
    rw [h.runs, List.mem_range]
    exact hlt
  · rw [h.numResults, h.resolved]
    rfl
  · rw [h.resolved]
    exact List.nodup_nil
  · intro r
    rw [h.resolved]
    exact ⟨fun hr => absurd hr (hres r), fun hr => by cases hr⟩
  · intro r
    rw [h.fresh r, h.sent]
    rfl
  · intro _ r
    rw [h.fresh r]
    exact Nat.zero_le _
  · intro hmax
    refine ⟨?_, fun r _ => ?_⟩
    · rw [h.runs]
      exact List.nodup_range
    · rw [h.fresh r]
      exact hmax
  · intro sl hsl hact
    rcases hact with hst | hst <;>
      rcases (h.slaves sl hsl).2 with hst' | hst' <;> rw [hst'] at hst <;> cases hst

/-- **What holds of the runs at the top of the master loop.** -/
structure RunAccounting (s : MonteCarlo) : Prop where
  /-- A run in range is resolved, waits in the queue, or is running. -/
  accounted : ∀ r, r < s.numRuns → s.inRange r = true → s.Accounted r
  /-- No run is resolved twice. -/
  once : (s.resolved.map Prod.fst).Nodup
  /-- No run is sent to slaves more than `max_tries` times. -/
  tries : 0 < s.maxTries → ∀ r, (s.sent.filter fun d => d.2.1 = r).length ≤ s.maxTries
  /-- `num_results` is the number of runs with a result. -/
  results : s.numResults = ((List.range s.numRuns).filter fun r => s.Resolved r).length
  /-- The loop goes on exactly as long as a run in range has no result. -/
  loop : s.numResults < s.actualNumRuns ↔
    ∃ r, r < s.numRuns ∧ s.inRange r = true ∧ ¬ s.Resolved r

theorem Inv.accounting (h : s.Inv none) : s.RunAccounting := by
  have hperm : (s.resolved.map Prod.fst).Perm
      ((List.range s.numRuns).filter fun r => s.Resolved r) := by
    rw [List.perm_ext_iff_of_nodup h.once (List.nodup_range.filter _)]
    intro r
    rw [← h.status r, List.mem_filter, List.mem_range, decide_eq_true_eq]
    exact ⟨fun hr => ⟨(h.within r hr).1, hr⟩, fun hr => hr.2⟩
  have hresults : s.numResults = ((List.range s.numRuns).filter fun r => s.Resolved r).length := by
    rw [← hperm.length_eq, List.length_map, h.counted]
  -- the runs with a result are those among the runs in range that have one
  have hsub : ((List.range s.numRuns).filter fun r => s.Resolved r) =
      (((List.range s.numRuns).filter fun r => s.inRange r).filter fun r => s.Resolved r) := by
    rw [List.filter_filter]
    refine List.filter_congr fun r _ => ?_
    by_cases hr : s.Resolved r
    · rw [decide_eq_true hr, (h.within r hr).2]
      rfl
    · rw [decide_eq_false hr]
      rfl
  refine ⟨fun r hlt hin => h.accounted r hlt hin nofun, h.once, ?_, hresults, ?_⟩
  · intro hmax r
    rw [← h.tries r]
    exact h.limit hmax r
  · rw [hresults, hsub, h.actual, List.length_filter_lt_length_iff_exists]
    constructor
    · rintro ⟨r, hr, hres⟩
      rw [List.mem_filter, List.mem_range] at hr
      exact ⟨r, hr.1, hr.2, fun hf => hres (decide_eq_true hf)⟩
    · rintro ⟨r, hlt, hin, hres⟩
      exact ⟨r, List.mem_filter.mpr ⟨List.mem_range.mpr hlt, hin⟩,
        fun hf => hres (of_decide_eq_true hf)⟩

/-- **Run accounting.**  No run is lost or counted twice, whatever the slaves do. -/
theorem run_accounting (hs : s.Configured) (es : List Event)
    (hok : Guarded EventOk MonteCarlo.step s es) :
    RunAccounting (Trick.Lib.run MonteCarlo.step s es) := by
  have hstep : ∀ s e, Inv s none → EventOk s e → Inv (MonteCarlo.step s e) none :=
    fun _ _ hi hc => step_inv hi hc
  exact (Guarded.invariant hstep es s hs.inv hok).accounting

/-- A master with runs 0 to 2, of which 1 and 2 are in range, and two slaves. -/
def twoSlaves : MonteCarlo := (({ slaves := [{}, {}] } : MonteCarlo).setNumRuns 3).addRange 1 2

theorem twoSlaves_configured : twoSlaves.Configured := by
  refine (Configured.setNumRuns ?_ 3).addRange 1 2
  refine ⟨rfl, fun _ => rfl, ?_, ?_, rfl, rfl, rfl, rfl, rfl, rfl, rfl⟩
  · intro v hv
    cases hv
  · decide

/-- Both slaves are given run 1, which the first of them is late for: it reports it twice. -/
def lateResult : List Event :=
  [.spawnSlaves, .accept 1 (.initialization 4), .accept 0 (.initialization 4), .dispatch true,
    .checkTimeout 0, .dispatch true, .accept 0 (.status 1), .accept 0 (.status 4),
    .dispatch true, .accept 1 (.status 2)]

theorem run_accounting_lateResult :
    RunAccounting (Trick.Lib.run MonteCarlo.step twoSlaves lateResult) :=
  run_accounting twoSlaves_configured lateResult (by decide +kernel)

/-- **A slave that refuses the connection takes the run with it.**  Run 1 has been taken from the queue
    when the connection fails; nothing puts it back, and the loop goes on for ever. -/
theorem refusedConnection_run :
    twoSlaves.Configured ∧
      (let s := Trick.Lib.run MonteCarlo.step twoSlaves
        [.spawnSlaves, .accept 0 (.initialization 4), .dispatch false]
       1 < s.numRuns ∧ s.inRange 1 = true ∧ ¬ s.Accounted 1) := by
  refine ⟨twoSlaves_configured, ?_⟩
  unfold Accounted
  decide +kernel

end Trick.Monte.MonteCarlo
