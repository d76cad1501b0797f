/-
  The master of a Monte Carlo simulation together with its slaves.

  A slave is two processes.  The parent accepts one run after another and forks a child for each; the
  child sends an exit status in its shutdown job, and when it is ended by a signal the parent sends a
  status for it.  A report holds the slave's id and the status, but not the run: the master takes it
  for a report on the run that it has dispatched to the slave last.  `Report.run` is the run that was
  really executed.

  A child that is ended by a signal after it has sent its status, in the post jobs, makes the slave
  report twice, and the master may have dispatched the next run to the slave by then.

  `results_belong` is the result for runs whose events meet `EventOk`; `secondReport_run` is a run in which
  a child dumps core in its post jobs.
-/
import Trick.MonteCarlo.Queue

namespace Trick.Monte

open Trick.Lib

/-! ## The system -/

/-- A status on its way to the master. -/
structure Report where
  slave : Nat
  code : Int
  /-- The run that the child of the slave executed. -/
  run : RunId
deriving DecidableEq

/-- The child of a slave: its run, and whether it has sent its status. -/
structure Child where
  run : RunId
  reported : Bool := false
deriving DecidableEq

/-- A slave, as it is on its own machine. -/
structure Process where
  /-- Dispatches of the master that the parent has not accepted yet. -/
  inbox : List RunId := []
  child : Option Child := none
  /-- The parent has shut down. -/
  down : Bool := false
deriving DecidableEq

/-- A status that `handle_run_data` has recorded. -/
structure Recorded where
  /-- The run that it was recorded for. -/
  run : RunId
  /-- The run that was executed. -/
  executed : RunId
deriving DecidableEq

/-- The master, its slaves, and the reports between them. -/
structure System where
  master : MonteCarlo
  procs : Nat → Process := fun _ => {}
  inFlight : List Report := []
  recorded : List Recorded := []

/-- What happens, one thing at a time. -/
inductive SystemEvent where
  | spawnSlaves
  | checkTimeout (i : Nat)
  | startSlave (i : Nat)
  | stopSlave (i : Nat)
  /-- The master accepts the initial connection of a slave. -/
  | initialized (i : Nat) (m : Message)
  | dispatch (connects : Bool)
  /-- The master accepts the `k`-th report on its way; the status may be lost. -/
  | receive (k : Nat) (readable : Bool)
  /-- The parent of slave `i` accepts a run and forks. -/
  | acceptRun (i : Nat)
  /-- The child sends its exit status. -/
  | report (i : Nat) (failed : Bool)
  /-- The child ends by itself. -/
  | childExit (i : Nat)
  /-- The child is ended by a signal, and the parent reports that. -/
  | childKilled (i : Nat) (alarm : Bool)
  | slaveDown (i : Nat)
deriving DecidableEq

namespace System

def setProc (s : System) (i : Nat) (f : Process → Process) : System :=
  { s with procs := Function.update s.procs i (f (s.procs i)) }

/-- `dispatch_run_to_slave` of the master: what was sent arrives at the slave. -/
def dispatch (s : System) (connects : Bool) : System :=
  let master := s.master.dispatch connects
  match master.sent.drop s.master.sent.length with
  | (i, r, _) :: _ =>
    { s with master := master }.setProc i fun p => { p with inbox := p.inbox ++ [r] }
  | [] => { s with master := master }

/-- `receive_results` of the master, for one report. -/
def receive (s : System) (k : Nat) (readable : Bool) : System :=
  match s.inFlight[k]? with
  | none => s
  | some rep =>
    let master := s.master.accept rep.slave (if readable then .status rep.code else .lost)
    { s with
      master := master
      inFlight := s.inFlight.eraseIdx k
      recorded := s.recorded ++
        (master.resolved.drop s.master.resolved.length).map fun d => ⟨d.1, rep.run⟩ }

/-- `slave_process_run` of the parent up to the fork. -/
def acceptRun (s : System) (i : Nat) : System :=
  match (s.procs i).inbox with
  | [] => s
  | r :: rest =>
    if (s.procs i).child.isNone ∧ (s.procs i).down = false then
      s.setProc i fun p => { p with
        inbox := rest
        child := some { run := r } }
    else s

/-- `shutdown` of the child, run once. -/
def report (s : System) (i : Nat) (failed : Bool) : System :=
  match (s.procs i).child with
  | none => s
  | some c =>
    if c.reported then s
    else
      let code := if failed then ExitStatus.runFailed.code else ExitStatus.runComplete.code
      { s.setProc i fun p => { p with child := some { c with reported := true } } with
        inFlight := s.inFlight ++ [⟨i, code, c.run⟩] }

/-- `slave_process_run` of the parent, when the child has been ended by a signal. -/
def childKilled (s : System) (i : Nat) (alarm : Bool) : System :=
  match (s.procs i).child with
  | none => s
  | some c =>
    let code := if alarm then ExitStatus.runTimedOut.code else ExitStatus.runDumpedCore.code
    { s.setProc i fun p => { p with child := none } with
      inFlight := s.inFlight ++ [⟨i, code, c.run⟩] }

/-- The initial connection of a slave that is starting up. -/
def initialized (s : System) (i : Nat) (m : Message) : System :=
  if (s.master.slaves[i]?).any fun sl => sl.state = .initializing then
    { s with master := s.master.handleInitialization i m }
  else s

/-- **One event.** -/
def step (s : System) : SystemEvent → System
  | .spawnSlaves => { s with master := s.master.spawnSlaves }
  | .checkTimeout i => { s with master := s.master.checkTimeout i }
  | .startSlave i => { s with master := s.master.startSlave i }
  | .stopSlave i => { s with master := s.master.stopSlave i }
  | .initialized i m => s.initialized i m
  | .dispatch connects => s.dispatch connects
  | .receive k readable => s.receive k readable
  | .acceptRun i => s.acceptRun i
  | .report i failed => s.report i failed
  | .childExit i => s.setProc i fun p => { p with child := none }
  | .childKilled i alarm => s.childKilled i alarm
  | .slaveDown i =>
    if (s.procs i).child.isNone then
      s.setProc i fun p => { p with
        inbox := []
        down := true }
    else s

/-! ## The condition on the events -/

/-- The slave has a report on its way. -/
def ReportPending (s : System) (i : Nat) : Prop := ∃ rep ∈ s.inFlight, rep.slave = i

instance (s : System) (i : Nat) : Decidable (s.ReportPending i) :=
  inferInstanceAs (Decidable (∃ rep ∈ s.inFlight, _))

/-- **The condition on an event.**  No run is dispatched to a slave that has a report on its way, and a
    child that has sent its status is not ended by a signal when the next run has already been
    dispatched to the slave.  (Nor is a run deleted that a slave may still report on.) -/
def EventOk (s : System) : SystemEvent → Prop
  | .dispatch _ => (∀ i ∈ s.master.getReadySlave, s.master.runs ≠ [] → ¬ s.ReportPending i) ∧
      (s.master.ReachesEof → s.master.NoRetryWaiting)
  | .childKilled i _ => ∀ c ∈ (s.procs i).child, c.reported = true → (s.procs i).inbox = []
  | _ => True

instance (s : System) : (e : SystemEvent) → Decidable (s.EventOk e)
  | .dispatch _ => inferInstanceAs (Decidable ((∀ i ∈ s.master.getReadySlave, _) ∧ (_ → _)))
  | .childKilled i _ => inferInstanceAs (Decidable (∀ c ∈ (s.procs i).child, _))
  | .spawnSlaves | .checkTimeout _ | .startSlave _ | .stopSlave _ | .initialized _ _
  | .receive _ _ | .acceptRun _ | .report _ _ | .childExit _ | .slaveDown _ =>
    inferInstanceAs (Decidable True)

end System

/-! ## What the master does to its slaves -/

/-- A slave in this state is not given a run, and has been initialized. -/
def SlaveState.Busy : SlaveState → Prop
  | .uninitialized | .initializing | .ready | .stopped => False
  | _ => True

namespace MonteCarlo

/-- The run that was dispatched last to slave `i`. -/
def runOf (s : MonteCarlo) (i : Nat) : Option RunId := s.slaves[i]?.bind MonteSlave.currentRun

/-- Slave `i` may be executing a run. -/
def BusySlave (s : MonteCarlo) (i : Nat) : Prop :=
  ∃ sl, s.slaves[i]? = some sl ∧ sl.state.Busy

variable {s : MonteCarlo} {i j r : Nat}

theorem runOf_setSlave {f : MonteSlave → MonteSlave} (hf : ∀ sl, (f sl).currentRun = sl.currentRun) :
    (s.setSlave i f).runOf j = s.runOf j := by
  show (s.slaves.modify i f)[j]?.bind _ = _
  by_cases hij : i = j
  · subst hij
    rw [getElem?_modify_self]
    unfold runOf
    cases s.slaves[i]? with
    | none => rfl
    | some sl => exact hf sl
  · rw [getElem?_modify_of_ne hij]
    rfl

theorem busySlave_setSlave {f : MonteSlave → MonteSlave}
    (hf : ∀ sl, sl.state.Busy → (f sl).state.Busy) (h : s.BusySlave j) :
    (s.setSlave i f).BusySlave j := by
  obtain ⟨sl, hsl, hbusy⟩ := h
  by_cases hij : i = j
  · subst hij
    refine ⟨f sl, ?_, hf sl hbusy⟩
    show (s.slaves.modify i f)[i]? = _
    rw [getElem?_modify_self, hsl]
    rfl
  · refine ⟨sl, ?_, hbusy⟩
    show (s.slaves.modify i f)[j]? = _
    rw [getElem?_modify_of_ne hij]
    exact hsl

theorem busySlave_setSlave_of_ne {f : MonteSlave → MonteSlave} (hij : i ≠ j) (h : s.BusySlave j) :
    (s.setSlave i f).BusySlave j := by
  obtain ⟨sl, hsl, hbusy⟩ := h
  refine ⟨sl, ?_, hbusy⟩
  show (s.slaves.modify i f)[j]? = _
  rw [getElem?_modify_of_ne hij]
  exact hsl

/-- Preparing a run has nothing to do with the slaves. -/
theorem prepareRun_slaves (s : MonteCarlo) (r : Nat) :
    (s.prepareRun r).1.slaves = s.slaves ∧ (s.prepareRun r).1.sent = s.sent := by
  unfold prepareRun
  simp only
  split
  · split
    · exact ⟨rfl, rfl⟩
    · exact ⟨rfl, rfl⟩
  · exact ⟨rfl, rfl⟩

theorem getNextDispatchLoop_slaves (fuel : Nat) (s : MonteCarlo) :
    (getNextDispatchLoop fuel s).1.slaves = s.slaves ∧
      (getNextDispatchLoop fuel s).1.sent = s.sent := by
  induction fuel generalizing s with
  | zero => exact ⟨rfl, rfl⟩
  | succ fuel ih =>
    unfold getNextDispatchLoop
    split
    · exact ⟨rfl, rfl⟩
    · rename_i r _ _
      split
      · exact ⟨rfl, rfl⟩
      · obtain ⟨h1, h2⟩ := ih (s.prepareRun r).1
        exact ⟨h1.trans (prepareRun_slaves s r).1, h2.trans (prepareRun_slaves s r).2⟩

/-- **What a dispatch does to the slaves**: nothing, or the ready slave is lost, or it is sent a run. -/
theorem dispatch_slaves (s : MonteCarlo) (connects : Bool) :
    ((s.dispatch connects).slaves = s.slaves ∧ (s.dispatch connects).sent = s.sent) ∨
    (∃ i, s.getReadySlave = some i ∧
      (s.dispatch connects).slaves =
        s.slaves.modify i (fun sl => { sl with state := .disconnected }) ∧
      (s.dispatch connects).sent = s.sent) ∨
    ∃ i r texts, s.getReadySlave = some i ∧ s.runs ≠ [] ∧
      (s.dispatch connects).slaves = s.slaves.modify i (fun sl => { sl with
        state := .running
        numDispatches := sl.numDispatches + 1
        currentRun := some r }) ∧
      (s.dispatch connects).sent = s.sent ++ [(i, r, texts)] := by
  obtain ⟨hslaves, hsent⟩ := getNextDispatchLoop_slaves (s.runs.length + 1) s
  have hempty : s.runs = [] → s.getNextDispatch.2 = none := by
    intro hnil
    unfold getNextDispatch getNextDispatchLoop
    rw [hnil]
  unfold dispatch dispatchRunToSlave
  split
  · rename_i i r hi hr
    obtain ⟨hs', ht'⟩ := prepareRun_slaves { s.getNextDispatch.1 with currentRun := r } r
    have hs'' := hs'.trans hslaves
    have ht'' := ht'.trans hsent
    generalize MonteCarlo.prepareRun { s.getNextDispatch.1 with currentRun := r } r = p at hs'' ht''
    obtain ⟨s', prepared⟩ := p
    simp only
    cases prepared with
    | false => exact Or.inl ⟨hs'', ht''⟩
    | true =>
      right
      simp only [if_true]
      cases connects with
      | false =>
        left
        rw [connectAndSend_false]
        exact ⟨i, hi, by rw [← hs'']; rfl, ht''⟩
      | true =>
        right
        rw [connectAndSend_true]
        refine ⟨i, r, _, hi, ?_, by rw [← hs''], by rw [← ht'']⟩
        intro hnil
        rw [hempty hnil] at hr
        cases hr
  · exact Or.inl ⟨hslaves, hsent⟩

/-- **What a report does**: it changes the state of its slave, and may resolve the slave's run. -/
theorem accept_slaves (s : MonteCarlo) (i : Nat) (msg : Message) :
    (∀ j, (s.accept i msg).runOf j = s.runOf j) ∧
    (∀ j, j ≠ i → s.BusySlave j → (s.accept i msg).BusySlave j) ∧
    ((s.accept i msg).resolved = s.resolved ∨
      ∃ r status, s.runOf i = some r ∧ (s.accept i msg).resolved = s.resolved ++ [(r, status)]) := by
  have hset : ∀ (s : MonteCarlo) (f : MonteSlave → MonteSlave),
      (∀ sl, (f sl).currentRun = sl.currentRun) →
      (∀ j, (s.setSlave i f).runOf j = s.runOf j) ∧
      (∀ j, j ≠ i → s.BusySlave j → (s.setSlave i f).BusySlave j) ∧
      (s.setSlave i f).resolved = s.resolved := fun s f hf =>
    ⟨fun j => runOf_setSlave hf, fun j hj => busySlave_setSlave_of_ne (Ne.symm hj), rfl⟩
  have hresolve : ∀ (s : MonteCarlo) (r : Nat) (status : ExitStatus),
      (∀ j, (s.resolveRun i r status).runOf j = s.runOf j) ∧
      (∀ j, j ≠ i → s.BusySlave j → (s.resolveRun i r status).BusySlave j) ∧
      (s.resolveRun i r status).resolved = s.resolved ++ [(r, status)] := by
    intro s r status
    obtain ⟨failed, errors, heq⟩ := resolveRun_eq s i r status
    rw [heq]
    obtain ⟨h1, h2, -⟩ := hset s (fun sl => { sl with numResults := sl.numResults + 1 }) fun _ => rfl
    exact ⟨h1, h2, rfl⟩
  unfold accept
  split
  · exact ⟨fun _ => rfl, fun _ _ => id, Or.inl rfl⟩
  · rename_i sl hsl
    split
    · unfold handleInitialization
      split
      · obtain ⟨h1, h2, h3⟩ := hset s (fun sl => { sl with state := .ready }) fun _ => rfl
        exact ⟨h1, h2, Or.inl h3⟩
      · obtain ⟨h1, h2, h3⟩ := hset s (fun sl => { sl with state := .disconnected }) fun _ => rfl
        exact ⟨h1, h2, Or.inl h3⟩
    · split
      · exact ⟨fun _ => rfl, fun _ _ => id, Or.inl rfl⟩
      · rename_i r hr
        have hrun : s.runOf i = some r := by
          unfold runOf
          rw [hsl]
          exact hr
        have hfinish := fun s => hset s (fun sl => { sl with state := sl.state.reported }) fun _ => rfl
        unfold handleRunData
        simp only
        split
        · obtain ⟨h1, h2, h3⟩ := hfinish (s.dequeueRun r)
          exact ⟨h1, h2, Or.inl h3⟩
        · split
          · obtain ⟨h1, h2, h3⟩ := hset (s.dequeueRun r) (fun sl => { sl with
              state := .disconnected }) fun _ => rfl
            exact ⟨h1, h2, Or.inl h3⟩
          · split
            · rename_i status _
              obtain ⟨h1, h2, h3⟩ := hfinish ((s.dequeueRun r).resolveRun i r status)
              obtain ⟨h1', h2', h3'⟩ := hresolve (s.dequeueRun r) r status
              refine ⟨fun j => (h1 j).trans (h1' j), fun j hj hb => h2 j hj (h2' j hj hb), Or.inr ?_⟩
              exact ⟨r, status, hrun, h3.trans h3'⟩
            · rename_i status _
              obtain ⟨h1, h2, h3⟩ := hfinish ((s.dequeueRun r).handleRetry i r status)
              by_cases hretry : s.maxTries = 0 ∨ (s.run r).numTries < s.maxTries
              · have heq : (s.dequeueRun r).handleRetry i r status =
                    { s.dequeueRun r with runs := (s.dequeueRun r).runs ++ [r] } := if_pos hretry
                rw [heq] at h1 h2 h3 ⊢
                exact ⟨h1, h2, Or.inl h3⟩
              · have heq : (s.dequeueRun r).handleRetry i r status =
                    (s.dequeueRun r).resolveRun i r status := if_neg hretry
                rw [heq] at h1 h2 h3 ⊢
                obtain ⟨h1', h2', h3'⟩ := hresolve (s.dequeueRun r) r status
                refine ⟨fun j => (h1 j).trans (h1' j), fun j hj hb => h2 j hj (h2' j hj hb),
                  Or.inr ?_⟩
                exact ⟨r, status, hrun, h3.trans h3'⟩

/-- **What a timeout does to the slaves**: nothing that matters to the slave itself. -/
theorem checkTimeout_slaves (s : MonteCarlo) (i : Nat) :
    (∀ j, (s.checkTimeout i).runOf j = s.runOf j) ∧
    (∀ j, s.BusySlave j → (s.checkTimeout i).BusySlave j) := by
  unfold checkTimeout
  split
  · exact ⟨fun _ => rfl, fun _ => id⟩
  · split
    · split
      · exact ⟨fun _ => rfl, fun _ => id⟩
      · rename_i r _
        simp only
        have hslaves : (∀ j, (if (s.run r).exitStatus = .runIncomplete then
              s.handleRetry i r .runTimedOut else s).runOf j = s.runOf j) ∧
            ∀ j, s.BusySlave j → (if (s.run r).exitStatus = .runIncomplete then
              s.handleRetry i r .runTimedOut else s).BusySlave j := by
          split
          · unfold handleRetry
            split
            · exact ⟨fun _ => rfl, fun _ => id⟩
            · obtain ⟨failed, errors, heq⟩ := resolveRun_eq s i r .runTimedOut
              rw [heq]
              have hf : ∀ sl : MonteSlave,
                  ({ sl with numResults := sl.numResults + 1 } : MonteSlave).currentRun =
                    sl.currentRun := fun _ => rfl
              exact ⟨fun j => runOf_setSlave (s := s) hf,
                fun j => busySlave_setSlave (s := s) (f := fun sl => { sl with
                  numResults := sl.numResults + 1 }) fun _ => id⟩
          · exact ⟨fun _ => rfl, fun _ => id⟩
        refine ⟨fun j => Eq.trans (runOf_setSlave ?_) (hslaves.1 j), fun j hj => ?_⟩
        · intro sl
          rfl
        · apply busySlave_setSlave _ (hslaves.2 j hj)
          intro sl _
          show SlaveState.Busy (if _ then _ else _)
          split
          · exact trivial
          · exact trivial
    · exact ⟨fun _ => rfl, fun _ => id⟩

theorem spawnSlaves_slaves (s : MonteCarlo) (j : Nat) :
    s.spawnSlaves.runOf j = s.runOf j ∧ (s.BusySlave j → s.spawnSlaves.BusySlave j) := by
  have hget : s.spawnSlaves.slaves[j]? = s.slaves[j]?.map fun sl =>
      if sl.state = .uninitialized then { sl with state := .initializing } else sl :=
    List.getElem?_map
  constructor
  · unfold runOf
    rw [hget]
    cases s.slaves[j]? with
    | none => rfl
    | some sl =>
      show MonteSlave.currentRun (if _ then _ else _) = _
      split
      · rfl
      · rfl
  · rintro ⟨sl, hsl, hbusy⟩
    have hne : sl.state ≠ .uninitialized := fun hst => by rw [hst] at hbusy; exact hbusy
    refine ⟨sl, ?_, hbusy⟩
    rw [hget, hsl]
    exact congrArg some (if_neg hne)

/-- A slave that is ready is not busy. -/
theorem not_busySlave_of_ready (hi : s.getReadySlave = some i) : ¬ s.BusySlave i := by
  rintro ⟨sl, hsl, hbusy⟩
  obtain ⟨hlt, hready, -⟩ := List.findIdx?_eq_some_iff_getElem.mp hi
  rw [List.getElem?_eq_getElem hlt, Option.some.injEq] at hsl
  rw [hsl] at hready
  rw [of_decide_eq_true hready] at hbusy
  exact hbusy

end MonteCarlo

/-! ## The invariant -/

namespace System

/-- The child of a slave has not sent its status yet. -/
def Process.Unreported (p : Process) : Prop := ∃ r, p.child = some { run := r }

/-- **What holds of one slave**, `cur` being the run that the master has dispatched to it last. -/
structure SlaveInv (s : System) (i : Nat) : Prop where
  /-- A report on its way is about the run that was dispatched last. -/
  flight : ∀ rep ∈ s.inFlight, rep.slave = i → s.master.runOf i = some rep.run
  /-- While a report is on its way, no run is waiting or being executed. -/
  quiet : s.ReportPending i → (s.procs i).inbox = [] ∧ ¬ Process.Unreported (s.procs i)
  /-- At most one run is waiting, the one that was dispatched last. -/
  waiting : ∀ r rest, (s.procs i).inbox = r :: rest → rest = [] ∧ s.master.runOf i = some r
  /-- The child executes the run that was dispatched last, if no run is waiting. -/
  child : ∀ c, (s.procs i).child = some c → (s.procs i).inbox = [] →
    s.master.runOf i = some c.run
  /-- No run is waiting while a run is being executed. -/
  alone : Process.Unreported (s.procs i) → (s.procs i).inbox = []
  /-- The master does not give a slave a run that has one. -/
  busy : (s.procs i).inbox ≠ [] ∨ Process.Unreported (s.procs i) → s.master.BusySlave i

/-- **The invariant.** -/
structure Inv (s : System) : Prop where
  slave : ∀ i, s.SlaveInv i
  recorded : ∀ p ∈ s.recorded, p.run = p.executed

variable {s : System} {i j : Nat}

/-- The master has done something that matters to no slave. -/
theorem SlaveInv.setMaster (h : s.SlaveInv j) {m : MonteCarlo} (hrun : m.runOf j = s.master.runOf j)
    (hbusy : s.master.BusySlave j → m.BusySlave j) : SlaveInv { s with master := m } j :=
  { h with
    flight := fun rep hrep hi => hrun.trans (h.flight rep hrep hi)
    waiting := fun r rest hr => ⟨(h.waiting r rest hr).1, hrun.trans (h.waiting r rest hr).2⟩
    child := fun c hc hnil => hrun.trans (h.child c hc hnil)
    busy := fun hb => hbusy (h.busy hb) }

theorem Inv.setMaster (h : s.Inv) {m : MonteCarlo} (hrun : ∀ j, m.runOf j = s.master.runOf j)
    (hbusy : ∀ j, s.master.BusySlave j → m.BusySlave j) : Inv { s with master := m } :=
  ⟨fun j => (h.slave j).setMaster (hrun j) (hbusy j), h.recorded⟩

/-- Something has happened at another slave. -/
theorem SlaveInv.of_eq (h : s.SlaveInv j) {s' : System} (hproc : s'.procs j = s.procs j)
    (hmaster : s'.master = s.master)
    (hflight : ∀ rep, rep.slave = j → (rep ∈ s'.inFlight → rep ∈ s.inFlight)) : s'.SlaveInv j := by
  refine ⟨?_, ?_, ?_, ?_, ?_, ?_⟩
  · intro rep hrep hi
    rw [hmaster]
    exact h.flight rep (hflight rep hi hrep) hi
  · rintro ⟨rep, hrep, hi⟩
    rw [hproc]
    exact h.quiet ⟨rep, hflight rep hi hrep, hi⟩
  · rw [hproc, hmaster]
    exact h.waiting
  · rw [hproc, hmaster]
    exact h.child
  · rw [hproc]
    exact h.alone
  · rw [hproc, hmaster]
    exact h.busy

@[simp] theorem setProc_self (f : Process → Process) : (s.setProc i f).procs i = f (s.procs i) :=
  Function.update_self _ _ _

theorem setProc_of_ne (f : Process → Process) (hij : j ≠ i) :
    (s.setProc i f).procs j = s.procs j :=
  Function.update_of_ne hij _ _

/-! ## One event -/

theorem Inv.acceptRun (h : s.Inv) (i : Nat) : (s.acceptRun i).Inv := by
  unfold System.acceptRun
  split
  · exact h
  · rename_i r rest hinbox
    split
    · rename_i hidle
      obtain ⟨hrest, hcur⟩ := (h.slave i).waiting r rest hinbox
      have hne : (s.procs i).inbox ≠ [] := by
        rw [hinbox]
        exact List.cons_ne_nil _ _
      refine ⟨fun j => ?_, h.recorded⟩
      by_cases hij : j = i
      · subst hij
        refine ⟨(h.slave j).flight, ?_, ?_, ?_, ?_, ?_⟩
        · intro hpending
          exact absurd ((h.slave j).quiet hpending).1 hne
        · intro r' rest' hr'
          rw [setProc_self, hrest] at hr'
          cases hr'
        · intro c hc _
          rw [setProc_self] at hc
          cases hc
          exact hcur
        · intro _
          rw [setProc_self]
          exact hrest
        · intro _
          exact (h.slave j).busy (Or.inl hne)
      · exact (h.slave j).of_eq (setProc_of_ne _ hij) rfl fun _ _ => id
    · exact h

/-- A report is sent, by the child or for it. -/
theorem Inv.send (h : s.Inv) {c : Child} {s' : System} (hchild : (s.procs i).child = some c)
    (hnil : (s.procs i).inbox = []) (hmaster : s'.master = s.master)
    (hrecorded : s'.recorded = s.recorded)
    (hflight : ∃ code, s'.inFlight = s.inFlight ++ [⟨i, code, c.run⟩])
    {child : Option Child} (hnext : child = none ∨ child = some { c with reported := true })
    (hprocs : s'.procs = Function.update s.procs i { s.procs i with child := child }) : s'.Inv := by
  obtain ⟨code, hflight⟩ := hflight
  have hproc : s'.procs i = { s.procs i with child := child } := by
    rw [hprocs]
    exact Function.update_self _ _ _
  have hother : ∀ j, j ≠ i → s'.procs j = s.procs j := by
    intro j hij
    rw [hprocs]
    exact Function.update_of_ne hij _ _
  have hcur : s.master.runOf i = some c.run := (h.slave i).child c hchild hnil
  have hnil' : (s'.procs i).inbox = [] := by
    rw [hproc]
    exact hnil
  have hreported : ¬ Process.Unreported (s'.procs i) := by
    rw [hproc]
    rintro ⟨r, hr⟩
    rcases hnext with rfl | rfl
    · cases hr
    · cases hr
  refine ⟨fun j => ?_, ?_⟩
  · by_cases hij : j = i
    · subst hij
      refine ⟨?_, ?_, ?_, ?_, ?_, ?_⟩
      · intro rep hrep hi
        rw [hmaster]
        rw [hflight] at hrep
        rcases List.mem_append.mp hrep with hrep | hrep
        · exact (h.slave j).flight rep hrep hi
        · rw [List.mem_singleton.mp hrep]
          exact hcur
      · exact fun _ => ⟨hnil', hreported⟩
      · intro r rest hr
        rw [hnil'] at hr
        cases hr
      · intro c' hc' _
        rw [hmaster]
        rw [hproc] at hc'
        rcases hnext with rfl | rfl
        · cases hc'
        · cases hc'
          exact hcur
      · exact fun _ => hnil'
      · rintro (hb | hb)
        · exact absurd hnil' hb
        · exact absurd hb hreported
    · apply (h.slave j).of_eq (hother j hij) hmaster
      intro rep hi hrep
      rw [hflight] at hrep
      rcases List.mem_append.mp hrep with hrep | hrep
      · exact hrep
      · rw [List.mem_singleton.mp hrep] at hi
        exact absurd hi.symm hij
  · rw [hrecorded]
    exact h.recorded

theorem Inv.report (h : s.Inv) (i : Nat) (failed : Bool) : (s.report i failed).Inv := by
  unfold System.report
  split
  · exact h
  · rename_i c hchild
    split
    · exact h
    · rename_i hnew
      have hunreported : Process.Unreported (s.procs i) := by
        refine ⟨c.run, ?_⟩
        rw [hchild, ← Bool.eq_false_of_not_eq_true hnew]
      exact h.send hchild ((h.slave i).alone hunreported) rfl rfl ⟨_, rfl⟩ (Or.inr rfl) rfl

theorem Inv.childKilled (h : s.Inv) {alarm : Bool} (hok : s.EventOk (.childKilled i alarm)) :
    (s.childKilled i alarm).Inv := by
  unfold System.childKilled
  split
  · exact h
  · rename_i c hchild
    have hnil : (s.procs i).inbox = [] := by
      cases hrep : c.reported with
      | true => exact hok c hchild hrep
      | false =>
        -- the child has been ended before its shutdown jobs
        apply (h.slave i).alone
        exact ⟨c.run, by rw [hchild, ← hrep]⟩
    exact h.send hchild hnil rfl rfl ⟨_, rfl⟩ (Or.inl rfl) rfl

/-- A process that loses its child, or its inbox too, has less to do. -/
theorem Inv.forget (h : s.Inv) {f : Process → Process} (hchild : (f (s.procs i)).child = none)
    (hinbox : (f (s.procs i)).inbox = (s.procs i).inbox ∨ (f (s.procs i)).inbox = []) :
    (s.setProc i f).Inv := by
  have hdone : ¬ Process.Unreported (f (s.procs i)) := by
    rintro ⟨r, hr⟩
    rw [hchild] at hr
    cases hr
  have hkeep : (f (s.procs i)).inbox ≠ [] → (f (s.procs i)).inbox = (s.procs i).inbox := fun hne =>
    hinbox.resolve_right hne
  refine ⟨fun j => ?_, h.recorded⟩
  by_cases hij : j = i
  · subst hij
    refine ⟨(h.slave j).flight, ?_, ?_, ?_, ?_, ?_⟩
    · intro hpending
      rw [setProc_self]
      refine ⟨?_, hdone⟩
      rcases hinbox with heq | hnil
      · exact heq.trans ((h.slave j).quiet hpending).1
      · exact hnil
    · intro r rest hr
      rw [setProc_self] at hr
      refine (h.slave j).waiting r rest ?_
      rw [← hkeep (by rw [hr]; exact List.cons_ne_nil _ _)]
      exact hr
    · intro c hc
      rw [setProc_self, hchild] at hc
      cases hc
    · intro hb
      rw [setProc_self] at hb
      exact absurd hb hdone
    · intro hb
      rw [setProc_self] at hb
      have hne := hb.resolve_right hdone
      apply (h.slave j).busy
      rw [← hkeep hne]
      exact Or.inl hne
  · exact (h.slave j).of_eq (setProc_of_ne _ hij) rfl fun _ _ => id

theorem Inv.initialized (h : s.Inv) (i : Nat) (m : Message) : (s.initialized i m).Inv := by
  unfold System.initialized
  split
  · rename_i hinit
    -- a slave that is starting up has no run
    have hidle : ¬ s.master.BusySlave i := by
      rintro ⟨sl, hsl, hbusy⟩
      rw [hsl] at hinit
      rw [of_decide_eq_true hinit] at hbusy
      exact hbusy
    have hset : ∀ f : MonteSlave → MonteSlave, (∀ sl, (f sl).currentRun = sl.currentRun) →
        Inv { s with master := s.master.setSlave i f } := by
      intro f hf
      apply h.setMaster
      · exact fun j => MonteCarlo.runOf_setSlave hf
      · intro j hb
        have hij : i ≠ j := fun heq => hidle (heq ▸ hb)
        exact MonteCarlo.busySlave_setSlave_of_ne hij hb
    unfold MonteCarlo.handleInitialization
    split
    · exact hset _ fun _ => rfl
    · exact hset _ fun _ => rfl
  · exact h

/-- The master has given the ready slave a run. -/
theorem Inv.dispatched (h : s.Inv) {m : MonteCarlo} {r : RunId} {f : MonteSlave → MonteSlave}
    (hready : s.master.getReadySlave = some i) (hpending : ¬ s.ReportPending i)
    (hslaves : m.slaves = s.master.slaves.modify i f) (hcur : ∀ sl, (f sl).currentRun = some r)
    (hstate : ∀ sl, (f sl).state.Busy) :
    (System.setProc { s with master := m } i fun p => { p with inbox := p.inbox ++ [r] }).Inv := by
  obtain ⟨hlt, -⟩ := List.findIdx?_eq_some_iff_getElem.mp hready
  obtain ⟨sl, hsl⟩ : ∃ sl, s.master.slaves[i]? = some sl := ⟨_, List.getElem?_eq_getElem hlt⟩
  have hget : m.slaves[i]? = some (f sl) := by
    rw [hslaves, getElem?_modify_self, hsl]
    rfl
  have hrun : m.runOf i = some r := by
    unfold MonteCarlo.runOf
    rw [hget]
    exact hcur sl
  have hidle := fun hb => MonteCarlo.not_busySlave_of_ready hready ((h.slave i).busy hb)
  have hnil : (s.procs i).inbox = [] := by
    by_contra hne
    exact hidle (Or.inl hne)
  have hdone : ¬ Process.Unreported (s.procs i) := fun hu => hidle (Or.inr hu)
  refine ⟨fun j => ?_, h.recorded⟩
  by_cases hij : j = i
  · subst hij
    have hproc : (System.setProc { s with master := m } j fun p =>
        { p with inbox := p.inbox ++ [r] }).procs j = { s.procs j with inbox := [r] } := by
      rw [setProc_self, hnil]
      rfl
    refine ⟨?_, ?_, ?_, ?_, ?_, ?_⟩
    · exact fun rep hrep hi => absurd ⟨rep, hrep, hi⟩ hpending
    · exact fun hp => absurd hp hpending
    · intro r' rest hr'
      rw [hproc] at hr'
      cases hr'
      exact ⟨rfl, hrun⟩
    · intro c _ hne
      rw [hproc] at hne
      cases hne
    · intro hu
      rw [hproc] at hu
      exact absurd hu hdone
    · intro _
      exact ⟨f sl, hget, hstate sl⟩
  · have hother : m.slaves[j]? = s.master.slaves[j]? := by
      rw [hslaves, getElem?_modify_of_ne (Ne.symm hij)]
    have hmaster : SlaveInv { s with master := m } j := by
      apply (h.slave j).setMaster
      · unfold MonteCarlo.runOf
        rw [hother]
      · rintro ⟨sl', hsl', hbusy⟩
        exact ⟨sl', hother.trans hsl', hbusy⟩
    exact hmaster.of_eq (setProc_of_ne _ hij) rfl fun _ _ => id

theorem Inv.dispatch (h : s.Inv) {connects : Bool} (hok : s.EventOk (.dispatch connects)) :
    (s.dispatch connects).Inv := by
  unfold System.dispatch
  simp only
  rcases s.master.dispatch_slaves connects with ⟨hslaves, hsent⟩ |
    ⟨i, hready, hslaves, hsent⟩ | ⟨i, r, texts, hready, hruns, hslaves, hsent⟩
  · -- there was nothing to dispatch
    rw [hsent, List.drop_length]
    refine h.setMaster (fun j => ?_) fun j hb => ?_
    · unfold MonteCarlo.runOf
      rw [hslaves]
    · obtain ⟨sl, hsl, hbusy⟩ := hb
      exact ⟨sl, by rw [hslaves]; exact hsl, hbusy⟩
  · -- the slave does not answer
    rw [hsent, List.drop_length]
    refine h.setMaster (fun j => ?_) fun j hb => ?_
    · have hrun : (s.master.setSlave i fun sl => { sl with state := .disconnected }).runOf j =
          s.master.runOf j := MonteCarlo.runOf_setSlave fun _ => rfl
      rw [← hrun]
      unfold MonteCarlo.runOf
      rw [hslaves]
      rfl
    · have hbusy : (s.master.setSlave i fun sl => { sl with state := .disconnected }).BusySlave j :=
        MonteCarlo.busySlave_setSlave (fun _ _ => trivial) hb
      obtain ⟨sl, hsl, hbusy⟩ := hbusy
      exact ⟨sl, by rw [hslaves]; exact hsl, hbusy⟩
  · rw [hsent, List.drop_left]
    refine h.dispatched hready (hok.1 i hready hruns) hslaves (fun _ => rfl) fun _ => trivial

theorem Inv.receive (h : s.Inv) (k : Nat) (readable : Bool) : (s.receive k readable).Inv := by
  unfold System.receive
  split
  · exact h
  · rename_i rep hrep
    have hmem : rep ∈ s.inFlight := List.mem_of_getElem? hrep
    generalize (if readable then Message.status rep.code else Message.lost) = msg
    obtain ⟨hrun, hbusy, hresolved⟩ := s.master.accept_slaves rep.slave msg
    have hsub : ∀ rep', rep' ∈ s.inFlight.eraseIdx k → rep' ∈ s.inFlight := fun rep' h =>
      (List.eraseIdx_sublist s.inFlight k).subset h
    refine ⟨fun j => ?_, ?_⟩
    · have hmaster : SlaveInv { s with master := s.master.accept rep.slave msg } j := by
        by_cases hij : j = rep.slave
        · -- the slave that has reported has nothing to do
          obtain ⟨hnil, hdone⟩ := (h.slave j).quiet ⟨rep, hmem, hij.symm⟩
          refine { (h.slave j) with
            flight := fun rep' hrep' hi => (hrun j).trans ((h.slave j).flight rep' hrep' hi)
            waiting := fun r rest hr => by
              rw [hnil] at hr
              cases hr
            child := fun c hc hn => (hrun j).trans ((h.slave j).child c hc hn)
            busy := fun hb => ?_ }
          exact absurd (hb.resolve_left fun hne => hne hnil) hdone
        · exact (h.slave j).setMaster (hrun j) (hbusy j hij)
      exact hmaster.of_eq rfl rfl fun rep' _ hrep' => hsub rep' hrep'
    · intro p hp
      rcases List.mem_append.mp hp with hp | hp
      · exact h.recorded p hp
      · rcases hresolved with heq | ⟨r, status, hr, heq⟩
        · rw [heq, List.drop_length] at hp
          cases hp
        · rw [heq, List.drop_left] at hp
          rw [List.mem_singleton.mp hp]
          have hcur := (h.slave rep.slave).flight rep hmem rfl
          rw [hr] at hcur
          exact Option.some.inj hcur

/-- **Step lemma.** -/
theorem Inv.step (h : s.Inv) {e : SystemEvent} (hok : s.EventOk e) : (s.step e).Inv := by
  cases e with
  | spawnSlaves =>
    exact h.setMaster (fun j => (s.master.spawnSlaves_slaves j).1)
      fun j => (s.master.spawnSlaves_slaves j).2
  | checkTimeout i =>
    exact h.setMaster (s.master.checkTimeout_slaves i).1 (s.master.checkTimeout_slaves i).2
  | startSlave i =>
    apply h.setMaster
    · exact fun j => MonteCarlo.runOf_setSlave fun _ => rfl
    · refine fun j => MonteCarlo.busySlave_setSlave fun sl hb => ?_
      show sl.state.started.Busy
      cases hst : sl.state <;> rw [hst] at hb <;> first | exact trivial | exact hb
  | stopSlave i =>
    apply h.setMaster
    · exact fun j => MonteCarlo.runOf_setSlave fun _ => rfl
    · refine fun j => MonteCarlo.busySlave_setSlave fun sl hb => ?_
      show sl.state.stoppedBy.Busy
      cases hst : sl.state <;> rw [hst] at hb <;> first | exact trivial | exact hb
  | initialized i m => exact h.initialized i m
  | dispatch connects => exact h.dispatch hok
  | receive k readable => exact h.receive k readable
  | acceptRun i => exact h.acceptRun i
  | report i failed => exact h.report i failed
  | childExit i =>
    show System.Inv (s.setProc i fun p => { p with child := none })
    exact h.forget rfl (Or.inl rfl)
  | childKilled i alarm => exact h.childKilled hok
  | slaveDown i =>
    show System.Inv (if _ then _ else _)
    split
    · rename_i hnone
      apply h.forget _ (Or.inr rfl)
      exact Option.isNone_iff_eq_none.mp hnone
    · exact h

/-! ## The result -/

/-- The slaves have just been started. -/
structure Started (s : System) : Prop where
  procs : ∀ i, s.procs i = {}
  inFlight : s.inFlight = []
  recorded : s.recorded = []

theorem Started.inv (h : s.Started) : s.Inv := by
  refine ⟨fun i => ?_, ?_⟩
  · have hdone : ¬ Process.Unreported (s.procs i) := by
      rintro ⟨r, hr⟩
      rw [h.procs i] at hr
      cases hr
    refine ⟨?_, ?_, ?_, ?_, ?_, ?_⟩
    · intro rep hrep
      rw [h.inFlight] at hrep
      cases hrep
    · rintro ⟨rep, hrep, -⟩
      rw [h.inFlight] at hrep
      cases hrep
    · intro r rest hr
      rw [h.procs i] at hr
      cases hr
    · intro c hc
      rw [h.procs i] at hc
      cases hc
    · exact fun hu => absurd hu hdone
    · rintro (hb | hb)
      · rw [h.procs i] at hb
        exact absurd rfl hb
      · exact absurd hb hdone
  · intro p hp
    rw [h.recorded] at hp
    cases hp

/-- A status has only been recorded for the run that was executed for it. -/
def ResultsBelong (s : System) : Prop := ∀ p ∈ s.recorded, p.run = p.executed

/-- **Results belong to their run.**  In every run whose events meet the condition, a status is only
    recorded for the run that was executed for it. -/
theorem results_belong (hs : s.Started) (es : List SystemEvent)
    (hok : Guarded EventOk System.step s es) :
    ResultsBelong (Trick.Lib.run System.step s es) := by
  have hstep : ∀ s e, Inv s → EventOk s e → Inv (System.step s e) := fun _ _ hi hc => hi.step hc
  exact (Guarded.invariant hstep es s hs.inv hok).recorded

/-- A master with three runs and two slaves. -/
def twoProcesses : System := { master := ({ slaves := [{}, {}] } : MonteCarlo).setNumRuns 3 }

/-- Run 0 times out at the first slave, which is late with its report.  The second slave executes run 1
    and dumps core in its shutdown jobs, then it executes run 2. -/
def lateReport : List SystemEvent :=
  [.spawnSlaves, .initialized 0 (.initialization 4), .initialized 1 (.initialization 4),
    .dispatch true, .dispatch true, .acceptRun 0, .acceptRun 1, .checkTimeout 0, .childKilled 1 false,
    .report 0 false, .receive 0 true, .dispatch true, .acceptRun 1, .childExit 0, .receive 0 true,
    .report 1 true, .receive 0 true]

theorem results_belong_lateReport :
    ResultsBelong (Trick.Lib.run System.step twoProcesses lateReport) :=
  results_belong ⟨fun _ => rfl, rfl, rfl⟩ lateReport (by decide +kernel)

/-- The child dumps core in its post jobs, after its status has been sent and the next run has been
    dispatched. -/
def secondReport : List SystemEvent :=
  [.spawnSlaves, .initialized 0 (.initialization 4), .dispatch true, .acceptRun 0, .report 0 false,
    .receive 0 true, .dispatch true, .childKilled 0 false, .receive 0 true]

/-- **The second report of a slave is taken for a report on the next run.** -/
theorem secondReport_run :
    let s : System := { master := ({ slaves := [{}] } : MonteCarlo).setNumRuns 2 }
    s.Started ∧ ¬ ResultsBelong (Trick.Lib.run System.step s secondReport) := by
  refine ⟨⟨fun _ => rfl, rfl, rfl⟩, fun h => ?_⟩
  have hmem : ⟨1, 0⟩ ∈ (Trick.Lib.run System.step
      { master := ({ slaves := [{}] } : MonteCarlo).setNumRuns 2 } secondReport).recorded := by
    decide +kernel
  exact absurd (h _ hmem) (by decide)

end System

end Trick.Monte
