/-
  The sessions of the variable server while a checkpoint is reloaded and afterwards.

  Program:        `CheckpointReload`, with its invariant in `ReloadInvariant`.
  Specification:  while the checkpoint is loaded no session works and all references are disconnected; afterwards
                  every session can go on, as its client has left it.
  Result:         `quiet_while_loading` and `sessions_resume`; `suspend_stuck_iff` says when the main thread waits for
                  a session for ever: when the session has to have `map_mutex` before it comes to `test_pause` again.
-/
import Mathlib.Logic.Relation
import Trick.VariableServer.ReloadInvariant

namespace Trick.VarServer.Reload

open Trick.Threads Trick.Lib

variable {listeners : List Nat} {v : Server} {i : Nat} {x : Session}

/-! ## While the checkpoint is loaded -/

/-- **A session that is suspended**: its thread is in `test_pause`, its references are disconnected, and nothing is
    sent to its client. -/
structure Session.Suspended (x : Session) : Prop where
  stage : x.stage = .testPause
  place : x.thread.place ≠ .working
  connected : x.connected = false
  pauseCmd : x.pauseCmd = true

/-- **No session works while the checkpoint is loaded**, for every order of the steps: the sessions in the map are
    suspended, and there are no others, but for those that are cleaned up. -/
theorem quiet_while_loading (hnodup : listeners.Nodup) (h : Reachable listeners v) (hloading : v.main = .loading)
    (i : Nat) :
    (i ∈ v.varServerThreads ∧ (v.session i).Suspended) ∨
      (i ∉ v.varServerThreads ∧ ((v.session i).stage = .absent ∨ (v.session i).stage = .cleanup ∨
        (v.session i).stage = .gone)) := by
  have hinv := h.inv hnodup
  have hok := hinv.sessions i
  rw [hloading] at hok
  simp only [Main.expect] at hok
  by_cases hi : i ∈ v.varServerThreads
  · left
    rw [if_pos hi] at hok
    obtain ⟨hcaller, hstage, hpause, -, hconnected⟩ := hok.expect
    exact ⟨hi, hstage, hok.sound.not_working (by rw [hcaller]; rfl), hconnected, hpause⟩
  · right
    have hpending := hinv.not_pending (i := i) fun l hl => by simp only [hloading, Main.expectListener, if_pos hl]
    have hregistered : (v.session i).stage.registered = false := by
      rw [← Bool.not_eq_true, ← hinv.registered i]
      exact hi
    refine ⟨hi, ?_⟩
    revert hpending hregistered
    cases (v.session i).stage <;> simp [Stage.pending, Stage.registered]

/-- A client connects, and its session comes to `handleMessage`. -/
def connect : List Action :=
  List.replicate 3 (.listener 0 none) ++ .listener 0 (some 3) :: List.replicate 9 (.session 3 .yes) ++
    [.listener 0 none]

/-- The main thread pauses the listen thread, locks the map, and waits for the session. -/
def suspend : List Action := List.replicate 4 .main ++ List.replicate 2 (.listener 0 none) ++ List.replicate 9 .main

/-- The session comes to `test_pause`. -/
def pause : List Action :=
  [.session 3 .yes, .session 3 .yes, .session 3 .no, .session 3 .no] ++ List.replicate 4 (.session 3 .yes)

/-- A session is suspended. -/
def loadingServer : Server := run (Server.step [0]) {} (connect ++ suspend ++ pause ++ List.replicate 6 .main)

theorem quiet_while_loading_session :
    (3 ∈ loadingServer.varServerThreads ∧ (loadingServer.session 3).Suspended) ∨
      (3 ∉ loadingServer.varServerThreads ∧ ((loadingServer.session 3).stage = .absent ∨
        (loadingServer.session 3).stage = .cleanup ∨ (loadingServer.session 3).stage = .gone)) :=
  quiet_while_loading (List.nodup_singleton 0) ⟨_, rfl⟩ (by decide +kernel) 3

/-! ## After the checkpoint is loaded -/

/-- A step of a session thread that does not use the map. -/
theorem step_testPause (hstage : (v.session i).stage = .testPause) (choice : Choice) :
    (v.step listeners (.session i choice)).session i = (v.session i).step choice := by
  simp only [Server.step, Server.sessionStep, hstage, Server.setSession, Function.update_self]

theorem stage_step_testPause (hstage : x.stage = .testPause) (choice : Choice) :
    (x.step choice).stage = if x.thread.testPause.place = .working then .enabled else .testPause := by
  simp only [Session.step, hstage]

theorem thread_step_testPause (hstage : x.stage = .testPause) (choice : Choice) :
    (x.step choice).thread = x.thread.testPause := by
  simp only [Session.step, hstage]

/-- A thread that has not been told to pause comes out of `test_pause` in two steps. -/
theorem comes_out {t : SysThread} (h : t.Sound) (haway : t.caller = .away) (hstarting : t.place ≠ .starting)
    (hworking : t.place ≠ .working) :
    t.testPause.place = .working ∨
      (t.testPause.place ≠ .working ∧ t.testPause.testPause.place = .working) := by
  have hshould := h.away haway
  cases hplace : t.place with
  | starting => exact absurd hplace hstarting
  | working => exact absurd hplace hworking
  | asleep =>
    have hasleep := h.asleep_should_pause hplace
    rw [hshould] at hasleep
    cases hasleep
  | locking =>
    have hfree := h.mutex_free (by rw [hplace]; rfl) (by rw [haway]; rfl)
    right
    simp [SysThread.testPause, hplace, hfree, hshould]
  | awake =>
    have hfree := h.mutex_free (by rw [hplace]; rfl) (by rw [haway]; rfl)
    right
    simp [SysThread.testPause, hplace, hfree, hshould]
  | testing =>
    left
    simp [SysThread.testPause, hplace, hshould]
  | retesting =>
    left
    simp [SysThread.testPause, hplace, hshould]

/-- **The sessions go on**, for every order of the steps: where the main thread has come back, no thread has been told
    to pause, none waits for a signal, a thread in `test_pause` comes out of it by itself, and its session is paused
    if its client has said so. -/
theorem sessions_resume (hnodup : listeners.Nodup) (h : Reachable listeners v) (hrunning : v.main = .running)
    (i : Nat) :
    (v.session i).thread.threadShouldPause = false ∧ (v.session i).thread.place ≠ .asleep ∧
      (v.session i).pauseCmd = (v.session i).clientPause ∧
      ((v.session i).stage = .testPause → ∃ n,
        ((Lib.run (Server.step listeners) v (List.replicate n (.session i .yes))).session i).stage = .enabled) := by
  have hok := (h.inv hnodup).sessions i
  rw [hrunning] at hok
  obtain ⟨haway, hpause⟩ : (v.session i).thread.caller = .away ∧ _ := hok.expect
  have hshould := hok.sound.away haway
  refine ⟨hshould, ?_, hpause, ?_⟩
  · intro hasleep
    rw [hok.sound.asleep_should_pause hasleep] at hshould
    cases hshould
  · intro hstage
    have hplace := hok.place
    rw [hstage] at hplace
    rcases comes_out hok.sound haway hplace.1 hplace.2 with hfirst | ⟨hfirst, hsecond⟩
    · refine ⟨1, ?_⟩
      show ((v.step listeners (.session i .yes)).session i).stage = _
      rw [step_testPause hstage, stage_step_testPause hstage, if_pos hfirst]
    · have hstage' : ((v.step listeners (.session i .yes)).session i).stage = .testPause := by
        rw [step_testPause hstage, stage_step_testPause hstage, if_neg hfirst]
      refine ⟨2, ?_⟩
      show (((v.step listeners (.session i .yes)).step listeners (.session i .yes)).session i).stage = _
      rw [step_testPause hstage', stage_step_testPause hstage', step_testPause hstage, thread_step_testPause hstage,
        if_pos hsecond]

/-- The checkpoint has been loaded. -/
def resumedServer : Server :=
  run (Server.step [0]) {} (connect ++ suspend ++ pause ++ List.replicate 19 .main)

theorem sessions_resume_session :
    (resumedServer.session 3).thread.threadShouldPause = false ∧ (resumedServer.session 3).thread.place ≠ .asleep ∧
      (resumedServer.session 3).pauseCmd = (resumedServer.session 3).clientPause ∧
      ((resumedServer.session 3).stage = .testPause → ∃ n,
        ((Lib.run (Server.step [0]) resumedServer (List.replicate n (.session 3 .yes))).session 3).stage = .enabled) :=
  sessions_resume (List.nodup_singleton 0) ⟨_, rfl⟩ (by decide +kernel) 3

/-! ## When the main thread waits for ever -/

/-- **The session needs the map** before it comes to `test_pause` again: for a command of its client, or because it is
    about to exit. -/
def Session.NeedsMap (x : Session) : Prop :=
  match x.stage with
  | .getSession _ _ | .deleteSession _ | .deleteVst _ => True
  | .handleMessage | .getExitCmd => x.exitCmd = true
  | .command command => (command.apply x).exitCmd = true
  | _ => False

/-- The session thread is about to use the map, or does so. -/
def Stage.usesMap : Stage → Bool
  | .addVst _ | .deleteFailed _ | .addSession _ | .getSession _ _ | .deleteSession _ | .deleteVst _ => true
  | _ => false

/-- A session that needs the map works. -/
theorem Session.NeedsMap.working (h : x.NeedsMap) {e : Expect} (hok : SessionOk e x) : x.thread.place = .working := by
  have hplace := hok.place
  unfold Session.NeedsMap at h
  cases hstage : x.stage <;> rw [hstage] at h hplace <;> first | exact hplace | cases h

/-- A session that needs the map and cannot have it still needs it. -/
theorem Session.NeedsMap.sessionStep (h : (v.session i).NeedsMap) (hholds : (v.session i).stage.holdsMap = false)
    (hheld : v.mapMutex ≠ none) (choice : Choice) :
    ((v.sessionStep i choice).session i).NeedsMap := by
  unfold Session.NeedsMap at h
  cases hstage : (v.session i).stage with
  | getSession c locked =>
    cases locked with
    | true =>
      rw [hstage] at hholds
      cases hholds
    | false =>
      simp only [Server.sessionStep, hstage, if_neg hheld]
      simp only [Session.NeedsMap, hstage]
  | deleteSession locked =>
    cases locked with
    | true =>
      rw [hstage] at hholds
      cases hholds
    | false =>
      simp only [Server.sessionStep, hstage, if_neg hheld]
      simp only [Session.NeedsMap, hstage]
  | deleteVst locked =>
    cases locked with
    | true =>
      rw [hstage] at hholds
      cases hholds
    | false =>
      simp only [Server.sessionStep, hstage, if_neg hheld]
      simp only [Session.NeedsMap, hstage]
  | handleMessage =>
    rw [hstage] at h
    simp only [Server.sessionStep, hstage, Server.setSession, Function.update_self]
    cases choice with
    | yes => simpa only [Session.step, hstage, Session.NeedsMap] using h
    | no => simp only [Session.step, hstage, Session.NeedsMap]
    | command c => simp only [Session.step, hstage, Session.NeedsMap]
  | getExitCmd =>
    rw [hstage] at h
    simp only [Server.sessionStep, hstage, Server.setSession, Function.update_self]
    simp only [Session.step, hstage, if_pos h, Session.NeedsMap]
  | command c =>
    rw [hstage] at h
    simp only [Server.sessionStep, hstage, Server.setSession, Function.update_self]
    simpa only [Session.step, hstage, Session.NeedsMap] using h
  | _ =>
    rw [hstage] at h
    cases h

theorem Session.NeedsMap.onThread (h : x.NeedsMap) (t : SysThread) : ({ x with thread := t } : Session).NeedsMap := by
  unfold Session.NeedsMap at h ⊢
  cases hstage : x.stage with
  | command c =>
    rw [hstage] at h
    cases c <;> exact h
  | _ =>
    rw [hstage] at h
    exact h

theorem main_sessionStep (v : Server) (j : Nat) (choice : Choice) : (v.sessionStep j choice).main = v.main := by
  unfold Server.sessionStep
  split <;> (try split) <;> rfl

theorem session_sessionStep_of_ne {j : Nat} (hj : i ≠ j) (choice : Choice) :
    (v.sessionStep j choice).session i = v.session i := by
  have hupdate : ∀ x : Session, Function.update v.session j x i = v.session i := fun x =>
    Function.update_of_ne hj x v.session
  unfold Server.sessionStep
  split <;> (try split) <;> first | exact hupdate _ | rfl

theorem main_listenerStep (v : Server) (l : Nat) (client : Option Nat) : (v.listenerStep l client).main = v.main := by
  unfold Server.listenerStep
  dsimp only
  split <;> (try split) <;> (try split) <;> rfl

/-- A listen thread only makes sessions that have been absent. -/
theorem session_listenerStep (hpresent : (v.session i).stage ≠ .absent) (l : Nat) (client : Option Nat) :
    (v.listenerStep l client).session i = v.session i := by
  unfold Server.listenerStep
  dsimp only
  split
  · rfl
  · rfl
  · split
    · rfl
    · split
      · rename_i j habsent
        have hj : i ≠ j := by
          rintro rfl
          exact hpresent habsent
        simp only [Server.setStage, Server.setSession, Function.update_of_ne hj]
        rfl
      · rfl
  · split <;> rfl
  · split <;> rfl

/-- **The main thread waits for a session that needs the map**, which it has itself. -/
structure Stuck (listeners : List Nat) (i : Nat) (rest : List Nat) (v : Server) : Prop where
  inv : Inv listeners v
  main : v.main = .suspending i rest
  needsMap : (v.session i).NeedsMap

/-- **It will wait for ever.** -/
theorem Stuck.step {rest : List Nat} (h : Stuck listeners i rest v) (hnodup : listeners.Nodup) (action : Action) :
    Stuck listeners i rest (v.step listeners action) := by
  have hinv := h.inv.step hnodup action
  have hok := h.inv.sessions i
  have hheld : v.mapMutex = some .main := h.inv.heldByMain.mpr (by rw [h.main]; rfl)
  cases action with
  | main =>
    have hcaller : (v.session i).thread.caller ≠ .paused := by
      intro hpaused
      exact hok.sound.not_working (by rw [hpaused]; rfl) (h.needsMap.working hok)
    have hstep : v.step listeners .main = v.onSession i SysThread.callerStep := by
      simp only [Server.step, Server.mainStep, h.main, if_neg hcaller]
    rw [hstep] at hinv ⊢
    refine ⟨hinv, h.main, ?_⟩
    simp only [Server.onSession, Server.setSession, Function.update_self]
    exact h.needsMap.onThread _
  | session j choice =>
    refine ⟨hinv, (main_sessionStep v j choice).trans h.main, ?_⟩
    by_cases hj : i = j
    · subst hj
      refine h.needsMap.sessionStep ?_ ?_ choice
      · rw [← Bool.not_eq_true, ← h.inv.heldBySession i, hheld]
        exact fun hsession => by cases hsession
      · rw [hheld]
        exact fun hfree => by cases hfree
    · show ((v.sessionStep j choice).session i).NeedsMap
      rw [session_sessionStep_of_ne hj choice]
      exact h.needsMap
  | listener l client =>
    have hpresent : (v.session i).stage ≠ .absent := by
      intro habsent
      have hneeds := h.needsMap
      unfold Session.NeedsMap at hneeds
      rw [habsent] at hneeds
      exact hneeds
    simp only [Server.step] at hinv ⊢
    by_cases hl : l ∈ listeners
    · rw [if_pos hl] at hinv ⊢
      refine ⟨hinv, (main_listenerStep v l client).trans h.main, ?_⟩
      rw [session_listenerStep hpresent l client]
      exact h.needsMap
    · rw [if_neg hl]
      exact h
  | mainWakes =>
    have hstep : v.step listeners .mainWakes = v.onSession i SysThread.spuriousHasPaused := by
      simp only [Server.step, Server.mainWakes, h.main]
    rw [hstep] at hinv ⊢
    refine ⟨hinv, h.main, ?_⟩
    simp only [Server.onSession, Server.setSession, Function.update_self]
    exact h.needsMap.onThread _
  | sessionWakes j =>
    refine ⟨hinv, h.main, ?_⟩
    by_cases hj : i = j
    · subst hj
      simp only [Server.step, Server.onSession, Server.setSession, Function.update_self]
      exact h.needsMap.onThread _
    · simp only [Server.step, Server.onSession, Server.setSession, Function.update_of_ne hj]
      exact h.needsMap
  | listenerWakes l => exact ⟨hinv, h.main, h.needsMap⟩

theorem Stuck.run {rest : List Nat} (h : Stuck listeners i rest v) (hnodup : listeners.Nodup) (actions : List Action) :
    Stuck listeners i rest (Lib.run (Server.step listeners) v actions) := by
  induction actions generalizing v with
  | nil => exact h
  | cons action actions ih => exact ih (h.step hnodup action)

/-! ## When the main thread gets on -/

/-- A step of the session thread that does not use the map, or of the main thread that waits for it. -/
inductive Move : Session → Session → Prop where
  | own (x : Session) (choice : Choice) (h : x.stage.usesMap = false) : Move x (x.step choice)
  | main (x : Session) (h : x.thread.caller ≠ .paused) : Move x { x with thread := x.thread.callerStep }

/-- **The main thread waits for a session** that does not need the map. -/
structure Waited (x : Session) : Prop where
  ok : SessionOk .forcing x
  registered : x.stage.registered = true
  pending : x.stage.pending = false
  free : ¬ x.NeedsMap

theorem Waited.own (h : Waited x) (choice : Choice) (hfree : ¬ (x.step choice).NeedsMap) : Waited (x.step choice) where
  ok := h.ok.step choice
  registered := (registered_step x choice).trans h.registered
  pending := by
    rw [← Bool.not_eq_true]
    intro hpending
    have hbefore := pending_of_step hpending
    rw [h.pending] at hbefore
    cases hbefore
  free := hfree

theorem Waited.main (h : Waited x) : Waited { x with thread := x.thread.callerStep } where
  ok := h.ok.force
  registered := h.registered
  pending := h.pending
  free := fun hneeds => h.free (hneeds.onThread x.thread)

/-- How far the session thread is from `test_pause`. -/
def Stage.distance : Stage → Nat
  | .enabled | .command _ => 7
  | .handleMessage => 6
  | .getExitCmd => 5
  | .copyAndWrite | .copySimData => 4
  | .writeData => 3
  | .prepareForWrite | .write => 2
  | .usleep => 1
  | _ => 0

/-- A session that does not need the map gets nearer to `test_pause`. -/
theorem Waited.nearer (h : Waited x) (hstage : x.stage ≠ .testPause) :
    ∃ choice, x.stage.usesMap = false ∧ Waited (x.step choice) ∧
      (x.step choice).thread.threadShouldPause = x.thread.threadShouldPause ∧
      (x.step choice).stage.distance < x.stage.distance := by
  have hfree := h.free
  have hregistered := h.registered
  have hpending := h.pending
  have hexit := h.ok.exit
  unfold Session.NeedsMap at hfree
  cases hs : x.stage with
  | testPause => exact absurd hs hstage
  | absent | addVst _ | tellFail | cleanup | gone =>
    rw [hs] at hregistered
    cases hregistered
  | connecting | deleteFailed _ | addSession _ | tellSuccess =>
    rw [hs] at hpending
    cases hpending
  | getSession _ _ | deleteSession _ | deleteVst _ =>
    rw [hs] at hfree
    exact absurd trivial hfree
  | enabled =>
    rw [hs] at hexit
    refine ⟨.yes, rfl, h.own .yes ?_, ?_, ?_⟩
    · simp only [Session.step, hs, if_true, Session.NeedsMap]
      exact fun hx => Bool.noConfusion (hexit hx)
    · simp only [Session.step, hs]
    · simp only [Session.step, hs, if_true, Stage.distance]
      omega
  | command c =>
    rw [hs] at hfree
    refine ⟨.yes, rfl, h.own .yes ?_, ?_, ?_⟩
    · simpa only [Session.step, hs, Session.NeedsMap] using hfree
    · simp only [Session.step, hs]
      cases c <;> rfl
    · simp only [Session.step, hs, Stage.distance]
      omega
  | handleMessage =>
    rw [hs] at hfree
    refine ⟨.yes, rfl, h.own .yes ?_, ?_, ?_⟩
    · simpa only [Session.step, hs, Session.NeedsMap] using hfree
    · simp only [Session.step, hs]
    · simp only [Session.step, hs, Stage.distance]
      omega
  | getExitCmd =>
    rw [hs] at hfree
    refine ⟨.yes, rfl, h.own .yes ?_, ?_, ?_⟩
    · simp only [Session.step, hs, if_neg hfree, Session.NeedsMap, not_false_eq_true]
    · simp only [Session.step, hs]
    · simp only [Session.step, hs, if_neg hfree, Stage.distance]
      omega
  | copyAndWrite =>
    have hno : ¬ (Choice.no = .yes ∧ x.copyMutex = false) := fun hyes => by cases hyes.1
    refine ⟨.no, rfl, h.own .no ?_, ?_, ?_⟩
    · simp only [Session.step, hs, if_neg hno, Session.NeedsMap, not_false_eq_true]
    · simp only [Session.step, hs, if_neg hno]
    · simp only [Session.step, hs, if_neg hno, Stage.distance]
      omega
  | copySimData =>
    refine ⟨.yes, rfl, h.own .yes ?_, ?_, ?_⟩
    · simp only [Session.step, hs, Session.NeedsMap, not_false_eq_true]
    · simp only [Session.step, hs]
    · simp only [Session.step, hs, Stage.distance]
      omega
  | writeData =>
    have hno : ¬ (Choice.no = .yes ∧ x.pauseCmd = false ∧ x.copyMutex = false) := fun hyes => by cases hyes.1
    refine ⟨.no, rfl, h.own .no ?_, ?_, ?_⟩
    · simp only [Session.step, hs, if_neg hno, Session.NeedsMap, not_false_eq_true]
    · simp only [Session.step, hs, if_neg hno]
    · simp only [Session.step, hs, if_neg hno, Stage.distance]
      omega
  | prepareForWrite =>
    have hno : ¬ Choice.no = .yes := by decide
    refine ⟨.no, rfl, h.own .no ?_, ?_, ?_⟩
    · simp only [Session.step, hs, if_neg hno, Session.NeedsMap, not_false_eq_true]
    · simp only [Session.step, hs]
    · simp only [Session.step, hs, if_neg hno, Stage.distance]
      omega
  | write =>
    refine ⟨.yes, rfl, h.own .yes ?_, ?_, ?_⟩
    · simp only [Session.step, hs, if_true, Session.NeedsMap, not_false_eq_true]
    · simp only [Session.step, hs, if_true]
    · simp only [Session.step, hs, if_true, Stage.distance]
      omega
  | usleep =>
    refine ⟨.yes, rfl, h.own .yes ?_, ?_, ?_⟩
    · simp only [Session.step, hs, Session.NeedsMap, not_false_eq_true]
    · simp only [Session.step, hs, SysThread.callTestPause]
    · simp only [Session.step, hs, Stage.distance]
      omega

open Relation (ReflTransGen)

/-- **It comes to `test_pause`.** -/
theorem Waited.comes (h : Waited x) :
    ∃ x', ReflTransGen Move x x' ∧ Waited x' ∧ x'.stage = .testPause ∧
      x'.thread.threadShouldPause = x.thread.threadShouldPause := by
  induction hd : x.stage.distance using Nat.strong_induction_on generalizing x with
  | _ d ih =>
    by_cases hstage : x.stage = .testPause
    · exact ⟨x, .refl, h, hstage, rfl⟩
    · obtain ⟨choice, hmap, hwaited, hshould, hnearer⟩ := h.nearer hstage
      obtain ⟨x', hmoves, hwaited', hstage', hshould'⟩ := ih _ (hd ▸ hnearer) hwaited rfl
      exact ⟨x', .head (.own x choice hmap) hmoves, hwaited', hstage', hshould'.trans hshould⟩

/-- The main thread has the mutex next. -/
theorem Waited.locks (h : Waited x) (hcaller : x.thread.caller = .forceLocking)
    (hfree : x.thread.restartPauseMutex = none) :
    ∃ x', ReflTransGen Move x x' ∧ Waited x' ∧ x'.thread.threadShouldPause = true := by
  have hfirst : x.thread.callerStep = { x.thread with restartPauseMutex := some .mainThread, caller := .forcing } := by
    simp only [SysThread.callerStep, hcaller, if_pos hfree]
  have hmove : Move x { x with thread := x.thread.callerStep } := .main x (by rw [hcaller]; decide)
  have hwaited := h.main
  rw [hfirst] at hmove hwaited
  exact ⟨_, .tail (.single hmove) (.main _ (fun hc => by cases hc)), hwaited.main, rfl⟩

/-- **It is told to pause.** -/
theorem Waited.told (h : Waited x) :
    ∃ x', ReflTransGen Move x x' ∧ Waited x' ∧ x'.thread.threadShouldPause = true := by
  have hsound := h.ok.sound
  obtain ⟨haway, hlocking, hunpausing, -⟩ := h.ok.expect
  by_cases hshould : x.thread.threadShouldPause = true
  · exact ⟨x, .refl, h, hshould⟩
  · cases hcaller : x.thread.caller with
    | away => exact absurd hcaller haway
    | unpauseLocking => exact absurd hcaller hlocking
    | unpausing => exact absurd hcaller hunpausing
    | asleep | awake | retesting | paused => exact absurd (hsound.forces (by rw [hcaller]; rfl)) hshould
    | forcing =>
      refine ⟨_, .single (.main x (by rw [hcaller]; decide)), h.main, ?_⟩
      simp only [SysThread.callerStep, hcaller]
    | forceLocking =>
      by_cases hholds : SysThread.Place.holds x.thread.place = true
      · -- the thread has the mutex, and goes on
        have hplace := h.ok.place
        have hstage : x.stage = .testPause := by
          cases hs : x.stage with
          | testPause => rfl
          | gone =>
            have hregistered := h.registered
            rw [hs] at hregistered
            cases hregistered
          | _ =>
            rw [hs] at hplace
            rw [hplace] at hholds
            cases hholds
        have hgoes : x.thread.testPause =
            { x.thread with threadHasPaused := false, restartPauseMutex := none, place := .working } := by
          cases hp : x.thread.place with
          | testing | retesting => simp only [SysThread.testPause, hp, if_neg hshould]
          | _ =>
            rw [hp] at hholds
            cases hholds
        have hstep : x.step .yes = { x with thread := x.thread.testPause, stage := .enabled } := by
          simp only [Session.step, hstage, hgoes, if_true]
        have hwaited : Waited (x.step .yes) := h.own .yes (by rw [hstep]; exact fun hneeds => hneeds)
        obtain ⟨x', hmoves, hwaited', hshould'⟩ := hwaited.locks (by rw [hstep, hgoes]; exact hcaller)
          (by rw [hstep, hgoes])
        exact ⟨x', .head (.own x .yes (by rw [hstage]; rfl)) hmoves, hwaited', hshould'⟩
      · exact h.locks hcaller (hsound.mutex_free (Bool.not_eq_true _ ▸ hholds) (by rw [hcaller]; rfl))

/-- The main thread sees that the thread has paused. -/
theorem Waited.seen (h : Waited x) (hplace : SysThread.Place.holds x.thread.place = false)
    (hpaused : x.thread.threadHasPaused = true) :
    ∃ x', ReflTransGen Move x x' ∧ x'.thread.caller = .paused := by
  have hsound := h.ok.sound
  obtain ⟨haway, hlocking, hunpausing, -⟩ := h.ok.expect
  cases hcaller : x.thread.caller with
  | away => exact absurd hcaller haway
  | unpauseLocking => exact absurd hcaller hlocking
  | unpausing => exact absurd hcaller hunpausing
  | paused => exact ⟨x, .refl, hcaller⟩
  | asleep =>
    rw [hsound.caller_asleep hcaller] at hpaused
    cases hpaused
  | forcing | retesting =>
    refine ⟨_, .single (.main x (by rw [hcaller]; decide)), ?_⟩
    simp only [SysThread.callerStep, hcaller, hpaused, if_true]
  | forceLocking =>
    have hfree := hsound.mutex_free hplace (by rw [hcaller]; rfl)
    have hfirst : x.thread.callerStep = { x.thread with restartPauseMutex := some .mainThread, caller := .forcing } := by
      simp only [SysThread.callerStep, hcaller, if_pos hfree]
    have hmove : Move x { x with thread := x.thread.callerStep } := .main x (by rw [hcaller]; decide)
    rw [hfirst] at hmove
    refine ⟨_, .tail (.single hmove) (.main _ (fun hc => by cases hc)), ?_⟩
    simp only [SysThread.callerStep, hpaused, if_true]
  | awake =>
    have hfree := hsound.mutex_free hplace (by rw [hcaller]; rfl)
    have hfirst : x.thread.callerStep =
        { x.thread with restartPauseMutex := some .mainThread, caller := .retesting } := by
      simp only [SysThread.callerStep, hcaller, if_pos hfree]
    have hmove : Move x { x with thread := x.thread.callerStep } := .main x (by rw [hcaller]; decide)
    rw [hfirst] at hmove
    refine ⟨_, .tail (.single hmove) (.main _ (fun hc => by cases hc)), ?_⟩
    simp only [SysThread.callerStep, hpaused, if_true]

/-- A session thread that has the mutex, and has been told to pause, falls asleep. -/
theorem Waited.fallsAsleep (h : Waited x) (hstage : x.stage = .testPause)
    (hshould : x.thread.threadShouldPause = true)
    (hplace : x.thread.place = .testing ∨ x.thread.place = .retesting) :
    ∃ x', ReflTransGen Move x x' ∧ x'.thread.caller = .paused := by
  have hasleep : x.thread.testPause.place = .asleep := by
    rcases hplace with hp | hp <;> simp only [SysThread.testPause, hp, if_pos hshould]
  have hstep : x.step .yes = { x with thread := x.thread.testPause } := by
    have hnot : x.thread.testPause.place ≠ .working := by
      rw [hasleep]
      decide
    simp only [Session.step, hstage, if_neg hnot]
  have hwaited : Waited (x.step .yes) := by
    refine h.own .yes ?_
    rw [hstep]
    exact fun hneeds => h.free (hneeds.onThread x.thread)
  obtain ⟨x', hmoves, hpaused⟩ := hwaited.seen (by rw [hstep, hasleep]; rfl)
    (hwaited.ok.sound.pauses (by rw [hstep, hasleep]; rfl))
  exact ⟨x', .head (.own x .yes (by rw [hstage]; rfl)) hmoves, hpaused⟩

/-- It comes to the mutex and falls asleep. -/
theorem Waited.takesMutex (h : Waited x) (hstage : x.stage = .testPause)
    (hshould : x.thread.threadShouldPause = true) (hplace : x.thread.place = .locking)
    (hfree : x.thread.restartPauseMutex = none) :
    ∃ x', ReflTransGen Move x x' ∧ x'.thread.caller = .paused := by
  have hlocks : x.thread.testPause =
      { x.thread with restartPauseMutex := some .sysThread, place := .testing } := by
    simp only [SysThread.testPause, hplace, if_pos hfree]
  have hstep : x.step .yes = { x with thread := x.thread.testPause } := by
    have hnot : x.thread.testPause.place ≠ .working := by
      rw [hlocks]
      exact fun hp => by cases hp
    simp only [Session.step, hstage, if_neg hnot]
  have hwaited : Waited (x.step .yes) := by
    refine h.own .yes ?_
    rw [hstep]
    exact fun hneeds => h.free (hneeds.onThread x.thread)
  obtain ⟨x', hmoves, hpaused⟩ := hwaited.fallsAsleep (by rw [hstep]; exact hstage)
    (by rw [hstep, hlocks]; exact hshould) (Or.inl (by rw [hstep, hlocks]))
  exact ⟨x', .head (.own x .yes (by rw [hstage]; rfl)) hmoves, hpaused⟩

/-- **A thread in `test_pause` that has been told to pause is seen to do so.** -/
theorem Waited.pauses (h : Waited x) (hstage : x.stage = .testPause) (hshould : x.thread.threadShouldPause = true) :
    ∃ x', ReflTransGen Move x x' ∧ x'.thread.caller = .paused := by
  have hsound := h.ok.sound
  have hat := h.ok.place
  rw [hstage] at hat
  cases hplace : x.thread.place with
  | starting => exact absurd hplace hat.1
  | working => exact absurd hplace hat.2
  | asleep | awake => exact h.seen (by rw [hplace]; rfl) (hsound.pauses (by rw [hplace]; rfl))
  | testing => exact h.fallsAsleep hstage hshould (Or.inl hplace)
  | retesting => exact h.fallsAsleep hstage hshould (Or.inr hplace)
  | locking =>
    by_cases hholds : SysThread.Caller.holds x.thread.caller = true
    · -- the main thread has the mutex, and lets it go
      obtain ⟨haway, hlocking, hunpausing, -⟩ := h.ok.expect
      have hlooks : x.thread.callerStep.restartPauseMutex = none ∧ x.thread.callerStep.place = .locking ∧
          x.thread.callerStep.threadShouldPause = true := by
        cases hcaller : x.thread.caller with
        | forcing => simp only [SysThread.callerStep, hcaller, hplace, and_self]
        | retesting => simp only [SysThread.callerStep, hcaller, hplace, hshould, and_self]
        | unpausing => exact absurd hcaller hunpausing
        | _ =>
          rw [hcaller] at hholds
          cases hholds
      have hne : x.thread.caller ≠ .paused := by
        intro hcaller
        rw [hcaller] at hholds
        cases hholds
      obtain ⟨x', hmoves, hpaused⟩ := h.main.takesMutex hstage hlooks.2.2 hlooks.2.1 hlooks.1
      exact ⟨x', .head (.main x hne) hmoves, hpaused⟩
    · exact h.takesMutex hstage hshould hplace
        (hsound.mutex_free (by rw [hplace]; rfl) (Bool.not_eq_true _ ▸ hholds))

/-- **A session that does not need the map is seen to pause.** -/
theorem Waited.exists_paused (h : Waited x) : ∃ x', ReflTransGen Move x x' ∧ x'.thread.caller = .paused := by
  obtain ⟨x₁, hmoves₁, hwaited₁, hshould₁⟩ := h.told
  obtain ⟨x₂, hmoves₂, hwaited₂, hstage₂, hshould₂⟩ := hwaited₁.comes
  obtain ⟨x₃, hmoves₃, hpaused⟩ := hwaited₂.pauses hstage₂ (hshould₂.trans hshould₁)
  exact ⟨x₃, (hmoves₁.trans hmoves₂).trans hmoves₃, hpaused⟩

/-- A move of the session is a step of the system. -/
theorem Move.run (listeners : List Nat) {rest : List Nat} {x x' : Session} (hmoves : ReflTransGen Move x x')
    (hm : v.main = .suspending i rest) (hx : v.session i = x) :
    ∃ actions, Lib.run (Server.step listeners) v actions = v.setSession i x' := by
  induction hmoves using ReflTransGen.head_induction_on generalizing v with
  | refl =>
    refine ⟨[], ?_⟩
    rw [← hx, Server.setSession, Function.update_eq_self]
    rfl
  | @head x₀ x₁ hmove _ ih =>
    have hself : (v.setSession i x₁).setSession i x' = v.setSession i x' := by
      simp only [Server.setSession, Function.update_idem]
    obtain ⟨actions, hactions⟩ := ih (v := v.setSession i x₁) hm (by
      simp only [Server.setSession, Function.update_self])
    cases hmove with
    | own choice hmap =>
      refine ⟨.session i choice :: actions, ?_⟩
      have hstep : v.step listeners (.session i choice) = v.setSession i (x₀.step choice) := by
        rw [← hx] at hmap ⊢
        cases hs : (v.session i).stage with
        | addVst _ | deleteFailed _ | addSession _ | getSession _ _ | deleteSession _ | deleteVst _ =>
          rw [hs] at hmap
          cases hmap
        | _ => simp only [Server.step, Server.sessionStep, hs]
      rw [Lib.run_cons, hstep, hactions, hself]
    | main hcaller =>
      refine ⟨.main :: actions, ?_⟩
      have hstep : v.step listeners .main = v.setSession i { x₀ with thread := x₀.thread.callerStep } := by
        rw [← hx] at hcaller ⊢
        simp only [Server.step, Server.mainStep, hm, if_neg hcaller]
        rfl
      rw [Lib.run_cons, hstep, hactions, hself]

/-- **When the main thread waits for ever.**  In `suspendPreCheckpointReload` it waits for a session, whatever happens,
    exactly if the session has to have `map_mutex`, which the main thread has, before it comes to `test_pause`. -/
theorem suspend_stuck_iff (hnodup : listeners.Nodup) (h : Reachable listeners v) {rest : List Nat}
    (hm : v.main = .suspending i rest) :
    (∀ actions, (Lib.run (Server.step listeners) v actions).main = .suspending i rest) ↔ (v.session i).NeedsMap := by
  have hinv := h.inv hnodup
  constructor
  · intro hever
    by_contra hfree
    have hok := hinv.sessions i
    have hfollows := hinv.follows
    rw [hm] at hok hfollows
    simp only [Main.expect, if_true] at hok
    have hwaited : Waited (v.session i) := {
      ok := hok
      registered := (hinv.registered i).mp (head_of_suffix hinv.distinct hfollows).1
      pending := hinv.not_pending fun l hl => by simp only [hm, Main.expectListener, if_pos hl]
      free := hfree }
    obtain ⟨x', hmoves, hpaused⟩ := hwaited.exists_paused
    obtain ⟨actions, hactions⟩ := Move.run listeners hmoves hm rfl
    have hpast := hever (actions ++ [.main])
    rw [Lib.run_append, hactions] at hpast
    have hstep : (v.setSession i x').step listeners .main =
        { v.setSession i x' with main := .preloading i rest } := by
      have hcaller : ((v.setSession i x').session i).thread.caller = .paused := by
        simpa only [Server.setSession, Function.update_self] using hpaused
      have hmain : (v.setSession i x').main = .suspending i rest := hm
      simp only [Server.step, Server.mainStep, hmain, if_pos hcaller]
    rw [Lib.run_cons, Lib.run_nil, hstep] at hpast
    cases hpast
  · intro hneeds actions
    exact (Stuck.run ⟨hinv, hm, hneeds⟩ hnodup actions).main

/-- The client has sent a command. -/
def stuckServer : Server := run (Server.step [0]) {} (connect ++ .session 3 (.command .add) :: suspend)

/-- A command while the main thread suspends the sessions is a deadlock. -/
theorem suspend_stuck_iff_command :
    (∀ actions, (Lib.run (Server.step [0]) stuckServer actions).main = .suspending 3 []) ↔
      (stuckServer.session 3).NeedsMap :=
  suspend_stuck_iff (List.nodup_singleton 0) ⟨_, rfl⟩ (by decide +kernel)

end Trick.VarServer.Reload
