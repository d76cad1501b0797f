/-
  What holds while a checkpoint is reloaded, whatever the order of the steps.

  `Inv`: each thread is as the main thread has made it (`Expect`), the mutex of the map is with the one that uses the
  map, and a listen thread waits for every session thread that it has not been told of.  Each step keeps it
  (`Inv.step`), so that it holds of every state that is come to (`Reachable.inv`).
-/
import Trick.VariableServer.CheckpointReload

namespace Trick.VarServer.Reload

open Trick.Threads

/-! ## What holds of a session -/

/-- The session thread has `map_mutex`. -/
def Stage.holdsMap : Stage → Bool
  | .addVst locked | .deleteFailed locked | .addSession locked | .getSession _ locked | .deleteSession locked
  | .deleteVst locked => locked
  | _ => false

/-- The session thread is in the map. -/
def Stage.registered : Stage → Bool
  | .absent | .addVst _ | .tellFail | .cleanup | .gone => false
  | _ => true

/-- A listen thread waits for the session thread. -/
def Stage.pending : Stage → Bool
  | .addVst _ | .connecting | .deleteFailed _ | .tellFail | .addSession _ | .tellSuccess => true
  | _ => false

/-- The listen thread has not been told of the session thread. -/
def Stage.untold : Stage → Bool
  | .absent | .addVst _ | .connecting | .deleteFailed _ | .tellFail | .addSession _ | .tellSuccess => true
  | _ => false

/-- The listen thread has been told that there is a session, and the thread has not ended. -/
def Stage.told : Stage → Bool
  | .absent | .addVst _ | .connecting | .deleteFailed _ | .tellFail | .addSession _ | .tellSuccess | .gone => false
  | _ => true

/-- The session has `_copy_mutex`. -/
def Stage.copies : Stage → Bool
  | .copySimData | .prepareForWrite => true
  | _ => false

/-- The session may be about to exit. -/
def Stage.mayExit : Stage → Bool
  | .handleMessage | .getSession _ _ | .command _ | .getExitCmd | .deleteSession _ | .deleteVst _ | .cleanup
  | .gone => true
  | _ => false

/-- Where the thread is in `test_pause`, at a stage. -/
def Stage.At (stage : Stage) (place : Place) : Prop :=
  match stage with
  | .absent | .addVst _ | .connecting | .deleteFailed _ | .tellFail | .addSession _ | .tellSuccess =>
    place = .starting
  | .testPause => place ≠ .starting ∧ place ≠ .working
  | .gone => True
  | _ => place = .working

/-- How far the main thread is with a thread. -/
inductive Expect where
  | free
  | forcing
  | forced
  | suspended
  | unpausing
  deriving DecidableEq

/-- **What the main thread has made of a session.** -/
def Expect.Meets (e : Expect) (x : Session) : Prop :=
  match e with
  | .free => x.thread.caller = .away ∧ x.pauseCmd = x.clientPause
  | .forcing =>
    x.thread.caller ≠ .away ∧ x.thread.caller ≠ .unpauseLocking ∧ x.thread.caller ≠ .unpausing ∧
      x.pauseCmd = x.clientPause
  | .forced => x.thread.caller = .paused ∧ x.pauseCmd = x.clientPause
  | .suspended =>
    x.thread.caller = .paused ∧ x.stage = .testPause ∧ x.pauseCmd = true ∧ x.savedPauseCmd = x.clientPause ∧
      x.connected = false
  | .unpausing =>
    (x.thread.caller = .unpauseLocking ∨ x.thread.caller = .unpausing ∨ x.thread.caller = .away) ∧
      x.pauseCmd = x.clientPause

/-- **A session as it should be.** -/
structure SessionOk (e : Expect) (x : Session) : Prop where
  sound : x.thread.Sound
  place : x.stage.At x.thread.place
  pending : x.stage.untold = true → x.connectionStatus = .pending
  success : x.stage.told = true → x.connectionStatus = .success
  copies : x.copyMutex = x.stage.copies
  exit : x.exitCmd = true → x.stage.mayExit = true
  expect : e.Meets x

/-- **What the main thread has made of a listener.** -/
def Expect.Caller (e : Expect) (c : Caller) : Prop :=
  match e with
  | .free => c = .away
  | .forcing => c ≠ .away ∧ c ≠ .unpauseLocking ∧ c ≠ .unpausing
  | .forced | .suspended => c = .paused
  | .unpausing => c = .unpauseLocking ∨ c = .unpausing ∨ c = .away

/-- Where a listen thread is in `test_pause`, at a stage. -/
def ListenStage.At (stage : ListenStage) (place : Place) : Prop :=
  match stage with
  | .starting => place = .starting
  | .testPause => place ≠ .starting ∧ place ≠ .working
  | .check | .awaiting _ | .joining _ => place = .working

/-- **A listener as it should be.** -/
structure ListenerOk (e : Expect) (y : Listener) : Prop where
  sound : y.thread.Sound
  place : y.stage.At y.thread.place
  expect : e.Caller y.thread.caller

/-- How far the main thread is with a session thread, which is in the map or is not. -/
def Main.expect (m : Main) (threads : List Nat) (i : Nat) : Expect :=
  match m with
  | .running | .pauseNext _ | .pausing _ _ | .lockMap | .reunlockMap | .listenNext _ | .listening _ _ => .free
  | .suspendNext rest => if i ∈ threads ∧ i ∉ rest then .suspended else .free
  | .suspending j rest =>
    if i = j then .forcing else if i ∈ threads ∧ i ∉ rest then .suspended else .free
  | .preloading j rest =>
    if i = j then .forced else if i ∈ threads ∧ i ∉ rest then .suspended else .free
  | .unlockMap | .loading | .relockMap => if i ∈ threads then .suspended else .free
  | .restartNext rest => if i ∈ rest then .suspended else .free
  | .unpausing j rest => if i = j then .unpausing else if i ∈ rest then .suspended else .free

/-- How far the main thread is with a listen thread. -/
def Main.expectListener (m : Main) (listeners : List Nat) (l : Nat) : Expect :=
  match m with
  | .running => .free
  | .pauseNext rest => if l ∈ listeners ∧ l ∉ rest then .suspended else .free
  | .pausing k rest => if l = k then .forcing else if l ∈ listeners ∧ l ∉ rest then .suspended else .free
  | .listenNext rest => if l ∈ rest then .suspended else .free
  | .listening k rest => if l = k then .unpausing else if l ∈ rest then .suspended else .free
  | _ => if l ∈ listeners then .suspended else .free

/-- The main thread has `map_mutex`. -/
def Main.holdsMap : Main → Bool
  | .suspendNext _ | .suspending _ _ | .preloading _ _ | .unlockMap | .restartNext _ | .unpausing _ _
  | .reunlockMap => true
  | _ => false

/-- What the main thread has left to do is the end of its list. -/
def Main.Follows (m : Main) (listeners threads : List Nat) : Prop :=
  match m with
  | .pauseNext rest | .listenNext rest => rest <:+ listeners
  | .pausing l rest | .listening l rest => l :: rest <:+ listeners
  | .suspendNext rest | .restartNext rest => rest <:+ threads
  | .suspending i rest | .preloading i rest | .unpausing i rest => i :: rest <:+ threads
  | _ => True

/-- **The invariant**: each thread is as it should be, the mutex is with the one that uses the map, the map has the
    threads that are registered, and a listen thread waits for every session that has not been told of. -/
structure Inv (listeners : List Nat) (v : Server) : Prop where
  sessions : ∀ i, SessionOk (v.main.expect v.varServerThreads i) (v.session i)
  listening : ∀ l, ListenerOk (v.main.expectListener listeners l) (v.listener l)
  registered : ∀ i, i ∈ v.varServerThreads ↔ (v.session i).stage.registered = true
  distinct : v.varServerThreads.Nodup
  heldBySession : ∀ i, v.mapMutex = some (.session i) ↔ (v.session i).stage.holdsMap = true
  heldByMain : v.mapMutex = some .main ↔ v.main.holdsMap = true
  follows : v.main.Follows listeners v.varServerThreads
  awaited : ∀ i, (v.session i).stage.pending = true → ∃ l ∈ listeners, (v.listener l).stage = .awaiting i

theorem inv_start (listeners : List Nat) : Inv listeners {} where
  sessions := fun i => {
    sound := SysThread.sound_start
    place := rfl
    pending := fun _ => rfl
    success := fun h => Bool.noConfusion h
    copies := rfl
    exit := fun h => Bool.noConfusion h
    expect := ⟨rfl, rfl⟩ }
  listening := fun l => ⟨SysThread.sound_start, rfl, rfl⟩
  registered := fun i => ⟨fun h => absurd h List.not_mem_nil, fun h => Bool.noConfusion h⟩
  distinct := List.nodup_nil
  heldBySession := fun i => iff_of_false (fun h => by cases h) (fun h => by cases h)
  heldByMain := iff_of_false (by decide) (by decide)
  follows := trivial
  awaited := fun i h => Bool.noConfusion h

/-! ## A step of a session thread -/

variable {e : Expect} {x : Session}

/-- A session that is not in `test_pause` is not suspended. -/
theorem Expect.Meets.change (h : e.Meets x) (hstage : x.stage ≠ .testPause) {x' : Session}
    (hcaller : x'.thread.caller = x.thread.caller)
    (hpause : x.pauseCmd = x.clientPause → x'.pauseCmd = x'.clientPause) : e.Meets x' := by
  cases e with
  | free => exact ⟨hcaller.trans h.1, hpause h.2⟩
  | forcing => exact ⟨by rw [hcaller]; exact h.1, by rw [hcaller]; exact h.2.1, by rw [hcaller]; exact h.2.2.1,
      hpause h.2.2.2⟩
  | forced => exact ⟨hcaller.trans h.1, hpause h.2⟩
  | suspended => exact absurd h.2.1 hstage
  | unpausing => exact ⟨by rw [hcaller]; exact h.1, hpause h.2⟩

/-- What a session does at another stage than `test_pause`. -/
theorem SessionOk.change (h : SessionOk e x) (hstage : x.stage ≠ .testPause) {x' : Session}
    (hthread : x'.thread = x.thread) (hplace : x'.stage.At x.thread.place)
    (hpending : x'.stage.untold = true → x'.connectionStatus = .pending)
    (hsuccess : x'.stage.told = true → x'.connectionStatus = .success) (hcopies : x'.copyMutex = x'.stage.copies)
    (hexit : x'.exitCmd = true → x'.stage.mayExit = true)
    (hpause : x.pauseCmd = x.clientPause → x'.pauseCmd = x'.clientPause) : SessionOk e x' where
  sound := hthread ▸ h.sound
  place := hthread ▸ hplace
  pending := hpending
  success := hsuccess
  copies := hcopies
  exit := hexit
  expect := h.expect.change hstage (congrArg SysThread.caller hthread) hpause

/-- A session comes to another stage of its work. -/
theorem SessionOk.work (h : SessionOk e x) (hwork : x.stage.told = true) (hplace : x.thread.place = .working)
    {x' : Session} (hthread : x'.thread = x.thread) (hstatus : x'.connectionStatus = x.connectionStatus)
    (hstage' : x'.stage.At .working) (hcopies : x'.copyMutex = x'.stage.copies)
    (hexit : x'.exitCmd = true → x'.stage.mayExit = true)
    (hpause : x.pauseCmd = x.clientPause → x'.pauseCmd = x'.clientPause) : SessionOk e x' := by
  have hne : x.stage ≠ .testPause := by
    intro hstage
    have hat := h.place
    rw [hstage] at hat
    exact hat.2 hplace
  have hpending : x'.stage.untold = false := by
    cases hs : x'.stage with
    | absent | addVst _ | connecting | deleteFailed _ | tellFail | addSession _ | tellSuccess =>
      rw [hs] at hstage'
      cases hstage'
    | _ => rfl
  refine h.change hne hthread (hplace.symm ▸ hstage') ?_ ?_ hcopies hexit hpause
  · intro hp
    rw [hpending] at hp
    cases hp
  · intro _
    exact hstatus.trans (h.success hwork)

/-- The session thread calls `test_pause`. -/
theorem SessionOk.callTestPause (h : SessionOk e x) (hplace : x.thread.place = .starting ∨ x.thread.place = .working)
    (hne : x.stage ≠ .testPause) {status : ConnectionStatus} (hstatus : status = .success)
    (hcopies : x.copyMutex = false) (hexit : x.exitCmd = false) :
    SessionOk e { x with connectionStatus := status, stage := .testPause, thread := x.thread.callTestPause } where
  sound := h.sound.callTestPause hplace
  place := show Place.locking ≠ .starting ∧ Place.locking ≠ .working from by decide
  pending := fun hp => Bool.noConfusion hp
  success := fun _ => hstatus
  copies := hcopies
  exit := fun hx => absurd (hexit.symm.trans hx) Bool.false_ne_true
  expect := h.expect.change hne rfl id

/-- What the main thread has made of a session is not changed in `test_pause`. -/
theorem Expect.Meets.testPause (h : e.Meets x) (hsound : x.thread.Sound) :
    e.Meets { x with thread := x.thread.testPause,
                     stage := if x.thread.testPause.place = .working then .enabled else .testPause } := by
  have hsignal : x.thread.testPause.caller = x.thread.caller ∨
      (x.thread.caller = .asleep ∧ x.thread.testPause.caller = .awake) := by
    rcases SysThread.caller_testPause x.thread with hc | hc
    · exact Or.inl hc
    · cases hcaller : x.thread.caller with
      | asleep =>
        rw [hcaller] at hc
        exact Or.inr ⟨rfl, hc⟩
      | _ =>
        rw [hcaller] at hc
        exact Or.inl hc
  cases e with
  | free =>
    rcases hsignal with hc | ⟨hasleep, -⟩
    · exact ⟨hc.trans h.1, h.2⟩
    · rw [h.1] at hasleep
      cases hasleep
  | forcing =>
    rcases hsignal with hc | ⟨-, hawake⟩
    · refine ⟨?_, ?_, ?_, h.2.2.2⟩
      · rw [hc]
        exact h.1
      · rw [hc]
        exact h.2.1
      · rw [hc]
        exact h.2.2.1
    · refine ⟨?_, ?_, ?_, h.2.2.2⟩ <;> rw [hawake] <;> decide
  | forced =>
    rcases hsignal with hc | ⟨hasleep, -⟩
    · exact ⟨hc.trans h.1, h.2⟩
    · rw [h.1] at hasleep
      cases hasleep
  | suspended =>
    rcases hsignal with hc | ⟨hasleep, -⟩
    · have hpaused : x.thread.testPause.caller = .paused := hc.trans h.1
      have hnot : x.thread.testPause.place ≠ .working := hsound.testPause.not_working (by rw [hpaused]; rfl)
      refine ⟨hpaused, ?_, h.2.2⟩
      show (if x.thread.testPause.place = .working then Stage.enabled else .testPause) = .testPause
      rw [if_neg hnot]
    · rw [h.1] at hasleep
      cases hasleep
  | unpausing =>
    rcases hsignal with hc | ⟨hasleep, -⟩
    · refine ⟨?_, h.2⟩
      rw [hc]
      exact h.1
    · rcases h.1 with hcaller | hcaller | hcaller <;> rw [hcaller] at hasleep <;> cases hasleep

/-- A session in `test_pause`. -/
theorem SessionOk.testPause (h : SessionOk e x) (hstage : x.stage = .testPause) :
    SessionOk e { x with thread := x.thread.testPause,
                         stage := if x.thread.testPause.place = .working then .enabled else .testPause } := by
  have hplace := h.place
  have hcopies := h.copies
  have hexit : x.exitCmd ≠ true := by
    intro hx
    have hmay := h.exit hx
    rw [hstage] at hmay
    cases hmay
  have hsuccess := h.success (by rw [hstage]; rfl)
  rw [hstage] at hplace hcopies
  have hexpect := h.expect.testPause h.sound
  by_cases hworking : x.thread.testPause.place = .working
  · rw [if_pos hworking] at hexpect ⊢
    exact {
      sound := h.sound.testPause
      place := hworking
      pending := fun hp => Bool.noConfusion hp
      success := fun _ => hsuccess
      copies := hcopies
      exit := fun hx => absurd hx hexit
      expect := hexpect }
  · rw [if_neg hworking] at hexpect ⊢
    exact {
      sound := h.sound.testPause
      place := ⟨SysThread.place_testPause hplace.1, hworking⟩
      pending := fun hp => Bool.noConfusion hp
      success := fun _ => hsuccess
      copies := hcopies
      exit := fun hx => absurd hx hexit
      expect := hexpect }

/-- **A step where the map is not used.** -/
theorem SessionOk.step (h : SessionOk e x) (choice : Choice) : SessionOk e (x.step choice) := by
  have hplace := h.place
  have hcopies := h.copies
  have hpending := h.pending
  have hnoExit : x.stage.mayExit = false → x.exitCmd = false := by
    intro hstage
    cases hx : x.exitCmd with
    | false => rfl
    | true => exact absurd (hstage.symm.trans (h.exit hx)) Bool.false_ne_true
  cases hstage : x.stage with
  | absent | addVst _ | deleteFailed _ | addSession _ | getSession _ _ | deleteSession _ | deleteVst _ | gone =>
    simp only [Session.step, hstage]
    exact h
  | connecting =>
    rw [hstage] at hplace hcopies hpending hnoExit
    have hx := hnoExit rfl
    simp only [Session.step, hstage]
    refine h.change (by rw [hstage]; decide) rfl ?_ ?_ ?_ ?_ ?_ id
    · by_cases hyes : choice = .yes <;> simp only [hyes, if_true, if_false] <;> exact hplace
    · intro _
      exact hpending rfl
    · by_cases hyes : choice = .yes <;> simp only [hyes, if_true, if_false] <;> exact fun ht => Bool.noConfusion ht
    · by_cases hyes : choice = .yes <;> simp only [hyes, if_true, if_false] <;> exact hcopies
    · exact fun hx' => absurd (hx.symm.trans hx') Bool.false_ne_true
  | tellFail =>
    rw [hstage] at hcopies hnoExit
    simp only [Session.step, hstage]
    exact h.change (by rw [hstage]; decide) rfl trivial (fun hp => Bool.noConfusion hp) (fun ht => Bool.noConfusion ht)
      hcopies (fun _ => rfl) id
  | tellSuccess =>
    rw [hstage] at hplace hcopies hnoExit
    simp only [Session.step, hstage]
    exact h.callTestPause (Or.inl hplace) (by rw [hstage]; decide) rfl hcopies (hnoExit rfl)
  | testPause =>
    simp only [Session.step, hstage]
    exact h.testPause hstage
  | enabled =>
    rw [hstage] at hplace hcopies
    simp only [Session.step, hstage]
    refine h.work (by rw [hstage]; rfl) hplace rfl rfl ?_ ?_ ?_ id <;>
      by_cases hyes : choice = .yes <;> simp only [hyes, if_true, if_false]
    · rfl
    · rfl
    · exact hcopies
    · exact hcopies
    · exact fun _ => rfl
    · exact fun _ => rfl
  | handleMessage =>
    rw [hstage] at hplace hcopies
    simp only [Session.step, hstage]
    cases choice with
    | yes => exact h.work (by rw [hstage]; rfl) hplace rfl rfl rfl hcopies (fun _ => rfl) id
    | no => exact h.work (by rw [hstage]; rfl) hplace rfl rfl rfl hcopies (fun _ => rfl) id
    | command c => exact h.work (by rw [hstage]; rfl) hplace rfl rfl rfl hcopies (fun _ => rfl) id
  | command c =>
    rw [hstage] at hplace hcopies
    simp only [Session.step, hstage]
    cases c with
    | pause onOff => exact h.work (by rw [hstage]; rfl) hplace rfl rfl rfl hcopies (fun _ => rfl) (fun _ => rfl)
    | add => exact h.work (by rw [hstage]; rfl) hplace rfl rfl rfl hcopies (fun _ => rfl) id
    | exit => exact h.work (by rw [hstage]; rfl) hplace rfl rfl rfl hcopies (fun _ => rfl) id
    | other => exact h.work (by rw [hstage]; rfl) hplace rfl rfl rfl hcopies (fun _ => rfl) id
  | getExitCmd =>
    rw [hstage] at hplace hcopies
    simp only [Session.step, hstage]
    cases hx : x.exitCmd with
    | true => exact h.work (by rw [hstage]; rfl) hplace rfl rfl rfl hcopies (fun _ => rfl) id
    | false =>
      exact h.work (by rw [hstage]; rfl) hplace rfl rfl rfl hcopies (fun hx' => absurd hx' Bool.false_ne_true) id
  | copyAndWrite =>
    rw [hstage] at hplace hcopies hnoExit
    have hx := hnoExit rfl
    simp only [Session.step, hstage]
    split
    · exact h.work (by rw [hstage]; rfl) hplace rfl rfl rfl rfl
        (fun hx' => absurd (hx.symm.trans hx') Bool.false_ne_true) id
    · exact h.work (by rw [hstage]; rfl) hplace rfl rfl rfl hcopies
        (fun hx' => absurd (hx.symm.trans hx') Bool.false_ne_true) id
  | copySimData =>
    rw [hstage] at hplace hnoExit
    have hx := hnoExit rfl
    simp only [Session.step, hstage]
    exact h.work (by rw [hstage]; rfl) hplace rfl rfl rfl rfl
      (fun hx' => absurd (hx.symm.trans hx') Bool.false_ne_true) id
  | writeData =>
    rw [hstage] at hplace hcopies hnoExit
    have hx := hnoExit rfl
    simp only [Session.step, hstage]
    split
    · exact h.work (by rw [hstage]; rfl) hplace rfl rfl rfl rfl
        (fun hx' => absurd (hx.symm.trans hx') Bool.false_ne_true) id
    · exact h.work (by rw [hstage]; rfl) hplace rfl rfl rfl hcopies
        (fun hx' => absurd (hx.symm.trans hx') Bool.false_ne_true) id
  | prepareForWrite =>
    rw [hstage] at hplace hnoExit
    have hx := hnoExit rfl
    simp only [Session.step, hstage]
    refine h.work (by rw [hstage]; rfl) hplace rfl rfl ?_ ?_ ?_ id
    · by_cases hyes : choice = .yes <;> simp only [hyes, if_true, if_false] <;> rfl
    · by_cases hyes : choice = .yes <;> simp only [hyes, if_true, if_false] <;> rfl
    · exact fun hx' => absurd (hx.symm.trans hx') Bool.false_ne_true
  | write =>
    rw [hstage] at hplace hcopies hnoExit
    have hx := hnoExit rfl
    simp only [Session.step, hstage]
    split
    · exact h.work (by rw [hstage]; rfl) hplace rfl rfl rfl hcopies
        (fun hx' => absurd (hx.symm.trans hx') Bool.false_ne_true) id
    · exact h.work (by rw [hstage]; rfl) hplace rfl rfl rfl hcopies (fun _ => rfl) id
  | usleep =>
    rw [hstage] at hplace hcopies hnoExit
    simp only [Session.step, hstage]
    exact h.callTestPause (Or.inr hplace) (by rw [hstage]; decide) (h.success (by rw [hstage]; rfl)) hcopies (hnoExit rfl)
  | cleanup =>
    rw [hstage] at hplace hcopies
    simp only [Session.step, hstage]
    exact h.change (by rw [hstage]; decide) rfl trivial (fun hp => Bool.noConfusion hp) (fun ht => Bool.noConfusion ht)
      hcopies (fun _ => rfl) id

@[simp] theorem registered_step (x : Session) (choice : Choice) :
    (x.step choice).stage.registered = x.stage.registered := by
  cases hstage : x.stage <;> simp only [Session.step, hstage] <;> (try split) <;> simp [Stage.registered]

@[simp] theorem holdsMap_step (x : Session) (choice : Choice) :
    (x.step choice).stage.holdsMap = x.stage.holdsMap := by
  cases hstage : x.stage <;> simp only [Session.step, hstage] <;> (try split) <;> simp [Stage.holdsMap]

theorem pending_of_step {choice : Choice} (h : (x.step choice).stage.pending = true) : x.stage.pending = true := by
  cases hstage : x.stage <;> simp only [Session.step, hstage] at h <;> (try split at h) <;>
    simp_all [Stage.pending]

/-! ## The session threads together -/

variable {listeners : List Nat} {v : Server} {i : Nat}

theorem expect_congr {m : Main} {threads threads' : List Nat} (h : i ∈ threads ↔ i ∈ threads') :
    m.expect threads i = m.expect threads' i := by
  cases m <;> simp only [Main.expect, h]

/-- Without `map_mutex` the main thread does not care about the map. -/
theorem follows_congr {m : Main} (h : m.holdsMap = false) {threads threads' : List Nat}
    (hfollows : m.Follows listeners threads) : m.Follows listeners threads' := by
  cases m <;> first | exact hfollows | cases h

/-- **A session is changed** and the map is not. -/
theorem Inv.setSession (h : Inv listeners v) {x : Session}
    (hok : SessionOk (v.main.expect v.varServerThreads i) x)
    (hregistered : x.stage.registered = (v.session i).stage.registered)
    (hholds : x.stage.holdsMap = (v.session i).stage.holdsMap)
    (hpending : x.stage.pending = true → (v.session i).stage.pending = true) : Inv listeners (v.setSession i x) where
  sessions := by
    intro j
    by_cases hj : j = i
    · subst hj
      simpa only [Server.setSession, Function.update_self] using hok
    · simpa only [Server.setSession, Function.update_of_ne hj] using h.sessions j
  listening := h.listening
  registered := by
    intro j
    by_cases hj : j = i
    · subst hj
      simpa only [Server.setSession, Function.update_self, hregistered] using h.registered j
    · simpa only [Server.setSession, Function.update_of_ne hj] using h.registered j
  distinct := h.distinct
  heldBySession := by
    intro j
    by_cases hj : j = i
    · subst hj
      simpa only [Server.setSession, Function.update_self, hholds] using h.heldBySession j
    · simpa only [Server.setSession, Function.update_of_ne hj] using h.heldBySession j
  heldByMain := h.heldByMain
  follows := h.follows
  awaited := by
    intro j hj
    by_cases hji : j = i
    · subst hji
      simp only [Server.setSession, Function.update_self] at hj
      exact h.awaited j (hpending hj)
    · simp only [Server.setSession, Function.update_of_ne hji] at hj
      exact h.awaited j hj

/-- **A session thread takes `map_mutex`.** -/
theorem Inv.lock (h : Inv listeners v) (hfree : v.mapMutex = none) {x : Session}
    (hok : SessionOk (v.main.expect v.varServerThreads i) x)
    (hregistered : x.stage.registered = (v.session i).stage.registered) (hholds : x.stage.holdsMap = true)
    (hpending : x.stage.pending = true → (v.session i).stage.pending = true) :
    Inv listeners { v.setSession i x with mapMutex := some (.session i) } where
  sessions := by
    intro j
    by_cases hj : j = i
    · subst hj
      simpa only [Server.setSession, Function.update_self] using hok
    · simpa only [Server.setSession, Function.update_of_ne hj] using h.sessions j
  listening := h.listening
  registered := by
    intro j
    by_cases hj : j = i
    · subst hj
      simpa only [Server.setSession, Function.update_self, hregistered] using h.registered j
    · simpa only [Server.setSession, Function.update_of_ne hj] using h.registered j
  distinct := h.distinct
  heldBySession := by
    intro j
    by_cases hj : j = i
    · subst hj
      simp only [Server.setSession, Function.update_self, hholds]
    · have hnot : (v.session j).stage.holdsMap ≠ true := by
        rw [ne_eq, ← h.heldBySession j, hfree]
        exact fun hheld => by cases hheld
      simp only [Server.setSession, Function.update_of_ne hj]
      exact iff_of_false (fun hheld => hj (by cases hheld; rfl)) hnot
  heldByMain := by
    have hnot : v.main.holdsMap ≠ true := by
      rw [ne_eq, ← h.heldByMain, hfree]
      exact fun hheld => by cases hheld
    exact iff_of_false (fun hheld => by cases hheld) hnot
  follows := h.follows
  awaited := by
    intro j hj
    by_cases hji : j = i
    · subst hji
      simp only [Server.setSession, Function.update_self] at hj
      exact h.awaited j (hpending hj)
    · simp only [Server.setSession, Function.update_of_ne hji] at hj
      exact h.awaited j hj

/-- While a session thread has `map_mutex` the main thread has not. -/
theorem Inv.main_not_holds (h : Inv listeners v) (hholds : (v.session i).stage.holdsMap = true) :
    v.main.holdsMap = false := by
  have hmutex := (h.heldBySession i).mpr hholds
  rw [← Bool.not_eq_true, ← h.heldByMain, hmutex]
  exact fun hheld => by cases hheld

/-- **A session thread has used the map.** -/
theorem Inv.unlock (h : Inv listeners v) (hholds : (v.session i).stage.holdsMap = true) {x : Session}
    {threads sessions : List Nat} (hok : SessionOk (v.main.expect threads i) x)
    (hregistered : i ∈ threads ↔ x.stage.registered = true)
    (hthreads : ∀ j ≠ i, j ∈ threads ↔ j ∈ v.varServerThreads) (hdistinct : threads.Nodup)
    (hnot : x.stage.holdsMap = false) (hpending : x.stage.pending = true → (v.session i).stage.pending = true) :
    Inv listeners { v.setSession i x with
      mapMutex := none, varServerThreads := threads, varServerSessions := sessions } where
  sessions := by
    intro j
    by_cases hj : j = i
    · subst hj
      simpa only [Server.setSession, Function.update_self] using hok
    · simp only [Server.setSession, Function.update_of_ne hj]
      rw [expect_congr (hthreads j hj)]
      exact h.sessions j
  listening := h.listening
  registered := by
    intro j
    by_cases hj : j = i
    · subst hj
      simpa only [Server.setSession, Function.update_self] using hregistered
    · simp only [Server.setSession, Function.update_of_ne hj]
      exact (hthreads j hj).trans (h.registered j)
  distinct := hdistinct
  heldBySession := by
    intro j
    refine iff_of_false (fun hheld => by cases hheld) ?_
    by_cases hj : j = i
    · subst hj
      simp only [Server.setSession, Function.update_self, hnot]
      exact Bool.false_ne_true
    · have hother : (v.session j).stage.holdsMap ≠ true := by
        rw [ne_eq, ← h.heldBySession j, (h.heldBySession i).mpr hholds]
        exact fun hheld => hj (by cases hheld; rfl)
      simpa only [Server.setSession, Function.update_of_ne hj] using hother
  heldByMain := by
    refine iff_of_false (fun hheld => by cases hheld) ?_
    show v.main.holdsMap ≠ true
    rw [h.main_not_holds hholds]
    exact Bool.false_ne_true
  follows := follows_congr (h.main_not_holds hholds) h.follows
  awaited := by
    intro j hj
    by_cases hji : j = i
    · subst hji
      simp only [Server.setSession, Function.update_self] at hj
      exact h.awaited j (hpending hj)
    · simp only [Server.setSession, Function.update_of_ne hji] at hj
      exact h.awaited j hj

/-- **No session is being set up** while the listen threads are paused. -/
theorem Inv.not_pending (h : Inv listeners v)
    (hpaused : ∀ l ∈ listeners, v.main.expectListener listeners l = .suspended) :
    (v.session i).stage.pending = false := by
  rw [← Bool.not_eq_true]
  intro hpending
  obtain ⟨l, hl, hawaiting⟩ := h.awaited i hpending
  have hok := h.listening l
  rw [hpaused l hl] at hok
  have hplace := hok.place
  rw [hawaiting] at hplace
  have hcaller : (v.listener l).thread.caller = .paused := hok.expect
  exact hok.sound.not_working (by rw [hcaller]; rfl) hplace

/-- A session that is not in `test_pause` is left alone where the main thread has not the map. -/
theorem Inv.expect_eq_free (h : Inv listeners v) (hmain : v.main.holdsMap = false)
    (hstage : (v.session i).stage ≠ .testPause) : v.main.expect v.varServerThreads i = .free := by
  have hok := (h.sessions i).expect
  cases hm : v.main with
  | running | pauseNext _ | pausing _ _ | lockMap | listenNext _ | listening _ _ => rfl
  | suspendNext _ | suspending _ _ | preloading _ _ | unlockMap | restartNext _ | unpausing _ _ | reunlockMap =>
    rw [hm] at hmain
    cases hmain
  | loading | relockMap =>
    rw [hm] at hok
    simp only [Main.expect] at hok ⊢
    split
    · rename_i hmem
      rw [if_pos hmem] at hok
      exact absurd hok.2.1 hstage
    · rfl

/-- **A thread that is new in the map is left alone.** -/
theorem Inv.expect_insert (h : Inv listeners v) (hmain : v.main.holdsMap = false)
    (hpending : (v.session i).stage.pending = true) (threads : List Nat) : v.main.expect threads i = .free := by
  cases hm : v.main with
  | running | pauseNext _ | pausing _ _ | lockMap | listenNext _ | listening _ _ => rfl
  | suspendNext _ | suspending _ _ | preloading _ _ | unlockMap | restartNext _ | unpausing _ _ | reunlockMap =>
    rw [hm] at hmain
    cases hmain
  | loading | relockMap =>
    -- the listen threads are paused, so that nobody waits for it
    have hnot := h.not_pending (i := i) (fun l hl => by simp only [hm, Main.expectListener, if_pos hl])
    rw [hnot] at hpending
    cases hpending

/-- **A step of a session thread.** -/
theorem Inv.sessionStep (h : Inv listeners v) (i : Nat) (choice : Choice) : Inv listeners (v.sessionStep i choice) := by
  have hok := h.sessions i
  have hplace := hok.place
  have hcopies := hok.copies
  have hholds := fun hs => h.main_not_holds (i := i) hs
  have hstep : Inv listeners (v.setSession i ((v.session i).step choice)) :=
    h.setSession (hok.step choice) (registered_step _ _) (holdsMap_step _ _) pending_of_step
  have hnoExit : (v.session i).stage.mayExit = false → ∀ {b : Bool}, (v.session i).exitCmd = true → b = true := by
    intro hstage b hx
    exact absurd (hstage.symm.trans (hok.exit hx)) Bool.false_ne_true
  have hlock : v.mapMutex = none → (v.session i).stage ≠ .testPause → (v.session i).stage.lock.holdsMap = true →
      ((v.session i).stage.lock.At (v.session i).thread.place) →
      ((v.session i).stage.lock.pending = (v.session i).stage.pending) →
      ((v.session i).stage.lock.untold = (v.session i).stage.untold) →
      ((v.session i).stage.lock.told = (v.session i).stage.told) →
      ((v.session i).stage.lock.copies = (v.session i).stage.copies) →
      ((v.session i).stage.lock.mayExit = (v.session i).stage.mayExit) →
      ((v.session i).stage.lock.registered = (v.session i).stage.registered) →
      Inv listeners { v.setStage i (v.session i).stage.lock with mapMutex := some (.session i) } := by
    intro hfree hne hheld hat hpending huntold htold hcopy hmay hregistered
    refine h.lock hfree ?_ hregistered hheld (fun hp => hpending ▸ hp)
    exact hok.change hne rfl hat (fun hp => hok.pending (huntold ▸ hp)) (fun ht => hok.success (htold ▸ ht))
      (hcopies.trans hcopy.symm) (fun hx => hmay.trans (hok.exit hx)) id
  cases hstage : (v.session i).stage with
  | addVst locked =>
    rw [hstage] at hplace hcopies hholds hlock hnoExit
    have hpending := hok.pending (by rw [hstage]; rfl)
    cases locked with
    | false =>
      simp only [Server.sessionStep, hstage]
      by_cases hfree : v.mapMutex = none
      · rw [if_pos hfree]
        exact hlock hfree (by decide) rfl hplace rfl rfl rfl rfl rfl rfl
      · rw [if_neg hfree]
        exact h
    | true =>
      simp only [Server.sessionStep, hstage]
      have hnew : i ∉ v.varServerThreads := by
        rw [h.registered i, hstage]
        exact Bool.false_ne_true
      have hfree := h.expect_eq_free (i := i) (hholds rfl) (by rw [hstage]; decide)
      refine h.unlock (i := i) (by rw [hstage]; rfl) ?_ ?_ ?_ ?_ rfl (fun _ => by rw [hstage]; rfl)
      · rw [h.expect_insert (hholds rfl) (by rw [hstage]; rfl)]
        rw [hfree] at hok
        exact hok.change (by rw [hstage]; decide) rfl hplace (fun _ => hpending) (fun ht => Bool.noConfusion ht) hcopies
          (hnoExit rfl) id
      · exact iff_of_true ((List.mem_orderedInsert _).mpr (Or.inl rfl)) rfl
      · intro j hj
        rw [List.mem_orderedInsert, or_iff_right hj]
      · exact ((List.perm_orderedInsert _ _ _).nodup_iff).mpr (List.nodup_cons.mpr ⟨hnew, h.distinct⟩)
  | deleteFailed locked =>
    rw [hstage] at hplace hcopies hholds hlock hnoExit
    have hpending := hok.pending (by rw [hstage]; rfl)
    cases locked with
    | false =>
      simp only [Server.sessionStep, hstage]
      by_cases hfree : v.mapMutex = none
      · rw [if_pos hfree]
        exact hlock hfree (by decide) rfl hplace rfl rfl rfl rfl rfl rfl
      · rw [if_neg hfree]
        exact h
    | true =>
      simp only [Server.sessionStep, hstage]
      have hfree := h.expect_eq_free (i := i) (hholds rfl) (by rw [hstage]; decide)
      refine h.unlock (i := i) (by rw [hstage]; rfl) ?_ ?_ ?_ (h.distinct.erase i) rfl (fun _ => by rw [hstage]; rfl)
      · rw [h.expect_insert (hholds rfl) (by rw [hstage]; rfl)]
        rw [hfree] at hok
        exact hok.change (by rw [hstage]; decide) rfl hplace (fun _ => hpending) (fun ht => Bool.noConfusion ht) hcopies
          (hnoExit rfl) id
      · exact iff_of_false h.distinct.not_mem_erase Bool.false_ne_true
      · intro j hj
        exact List.mem_erase_of_ne hj
  | addSession locked =>
    rw [hstage] at hplace hcopies hholds hlock hnoExit
    have hpending := hok.pending (by rw [hstage]; rfl)
    cases locked with
    | false =>
      simp only [Server.sessionStep, hstage]
      by_cases hfree : v.mapMutex = none
      · rw [if_pos hfree]
        exact hlock hfree (by decide) rfl hplace rfl rfl rfl rfl rfl rfl
      · rw [if_neg hfree]
        exact h
    | true =>
      simp only [Server.sessionStep, hstage]
      refine h.unlock (i := i) (by rw [hstage]; rfl) ?_ ?_ (fun _ _ => Iff.rfl) h.distinct rfl
        (fun _ => by rw [hstage]; rfl)
      · exact hok.change (by rw [hstage]; decide) rfl hplace (fun _ => hpending) (fun ht => Bool.noConfusion ht) hcopies
          (hnoExit rfl) id
      · exact iff_of_true ((h.registered i).mpr (by rw [hstage]; rfl)) rfl
  | getSession c locked =>
    rw [hstage] at hplace hcopies hholds hlock
    cases locked with
    | false =>
      simp only [Server.sessionStep, hstage]
      by_cases hfree : v.mapMutex = none
      · rw [if_pos hfree]
        exact hlock hfree (fun hs => by cases hs) rfl hplace rfl rfl rfl rfl rfl rfl
      · rw [if_neg hfree]
        exact h
    | true =>
      simp only [Server.sessionStep, hstage]
      have hsuccess := hok.success (by rw [hstage]; rfl)
      by_cases hmem : i ∈ v.varServerSessions
      · rw [if_pos hmem]
        refine h.unlock (i := i) (by rw [hstage]; rfl) ?_ ?_ (fun _ _ => Iff.rfl) h.distinct rfl
          (fun hp => Bool.noConfusion hp)
        · exact hok.change (by rw [hstage]; exact fun hs => by cases hs) rfl hplace (fun hp => Bool.noConfusion hp) (fun _ => hsuccess)
            hcopies (fun _ => rfl) id
        · exact iff_of_true ((h.registered i).mpr (by rw [hstage]; rfl)) rfl
      · rw [if_neg hmem]
        refine h.unlock (i := i) (by rw [hstage]; rfl) ?_ ?_ (fun _ _ => Iff.rfl) h.distinct rfl
          (fun hp => Bool.noConfusion hp)
        · exact hok.change (by rw [hstage]; exact fun hs => by cases hs) rfl hplace (fun hp => Bool.noConfusion hp) (fun _ => hsuccess)
            hcopies (fun _ => rfl) id
        · exact iff_of_true ((h.registered i).mpr (by rw [hstage]; rfl)) rfl
  | deleteSession locked =>
    rw [hstage] at hplace hcopies hholds hlock
    cases locked with
    | false =>
      simp only [Server.sessionStep, hstage]
      by_cases hfree : v.mapMutex = none
      · rw [if_pos hfree]
        exact hlock hfree (by decide) rfl hplace rfl rfl rfl rfl rfl rfl
      · rw [if_neg hfree]
        exact h
    | true =>
      simp only [Server.sessionStep, hstage]
      have hsuccess := hok.success (by rw [hstage]; rfl)
      refine h.unlock (i := i) (by rw [hstage]; rfl) ?_ ?_ (fun _ _ => Iff.rfl) h.distinct rfl
        (fun hp => Bool.noConfusion hp)
      · exact hok.change (by rw [hstage]; decide) rfl hplace (fun hp => Bool.noConfusion hp) (fun _ => hsuccess)
          hcopies (fun _ => rfl) id
      · exact iff_of_true ((h.registered i).mpr (by rw [hstage]; rfl)) rfl
  | deleteVst locked =>
    rw [hstage] at hplace hcopies hholds hlock
    cases locked with
    | false =>
      simp only [Server.sessionStep, hstage]
      by_cases hfree : v.mapMutex = none
      · rw [if_pos hfree]
        exact hlock hfree (by decide) rfl hplace rfl rfl rfl rfl rfl rfl
      · rw [if_neg hfree]
        exact h
    | true =>
      simp only [Server.sessionStep, hstage]
      have hsuccess := hok.success (by rw [hstage]; rfl)
      have hfree := h.expect_eq_free (i := i) (hholds rfl) (by rw [hstage]; decide)
      have herased : v.main.expect (v.varServerThreads.erase i) i = .free := by
        have hnot : i ∉ v.varServerThreads.erase i := h.distinct.not_mem_erase
        have hmain := hholds rfl
        cases hm : v.main with
        | running | pauseNext _ | pausing _ _ | lockMap | listenNext _ | listening _ _ => rfl
        | suspendNext _ | suspending _ _ | preloading _ _ | unlockMap | restartNext _ | unpausing _ _
        | reunlockMap =>
          rw [hm] at hmain
          cases hmain
        | loading | relockMap => simp only [Main.expect, if_neg hnot]
      refine h.unlock (i := i) (by rw [hstage]; rfl) ?_ ?_ ?_ (h.distinct.erase i) rfl
        (fun hp => Bool.noConfusion hp)
      · rw [herased]
        rw [hfree] at hok
        exact hok.change (by rw [hstage]; decide) rfl hplace (fun hp => Bool.noConfusion hp) (fun _ => hsuccess)
          hcopies (fun _ => rfl) id
      · exact iff_of_false h.distinct.not_mem_erase Bool.false_ne_true
      · intro j hj
        exact List.mem_erase_of_ne hj
  | _ =>
    simp only [Server.sessionStep, hstage]
    exact hstep

/-! ## The listen threads together -/

variable {y : Listener} {l : Nat}

/-- What the main thread has made of a listener is not changed in `test_pause`. -/
theorem Expect.Caller.testPause {t : SysThread} (h : e.Caller t.caller) : e.Caller t.testPause.caller := by
  rcases SysThread.caller_testPause t with hc | hc
  · rw [hc]
    exact h
  · rw [hc]
    cases hcaller : t.caller with
    | asleep =>
      rw [hcaller] at h
      cases e with
      | forcing => exact ⟨by decide, by decide, by decide⟩
      | unpausing => rcases h with h | h | h <;> cases h
      | _ => cases h
    | _ =>
      rw [hcaller] at h
      exact h

/-- A listener at the head of its loop. -/
theorem ListenerOk.loop (h : ListenerOk e y) (hplace : y.thread.place = .starting ∨ y.thread.place = .working) :
    ListenerOk e { thread := y.thread.callTestPause, stage := .testPause } where
  sound := h.sound.callTestPause hplace
  place := show Place.locking ≠ .starting ∧ Place.locking ≠ .working from by decide
  expect := h.expect

/-- A listener in `test_pause`. -/
theorem ListenerOk.testPause (h : ListenerOk e y) (hstage : y.stage = .testPause) :
    ListenerOk e { thread := y.thread.testPause,
                   stage := if y.thread.testPause.place = .working then .check else .testPause } := by
  have hplace := h.place
  rw [hstage] at hplace
  refine ⟨h.sound.testPause, ?_, h.expect.testPause⟩
  by_cases hworking : y.thread.testPause.place = .working
  · rw [if_pos hworking]
    exact hworking
  · rw [if_neg hworking]
    exact ⟨SysThread.place_testPause hplace.1, hworking⟩

/-- A listener that works comes to another stage of its work. -/
theorem ListenerOk.work (h : ListenerOk e y) (hplace : y.thread.place = .working) {stage : ListenStage}
    (hstage : stage.At .working) : ListenerOk e { y with stage := stage } where
  sound := h.sound
  place := hplace.symm ▸ hstage
  expect := h.expect

/-- **A listener is changed**, and still waits for the session that it has waited for, until that has been told of. -/
theorem Inv.setListener (h : Inv listeners v) {y : Listener} (hok : ListenerOk (v.main.expectListener listeners l) y)
    (hawaits : ∀ i, (v.listener l).stage = .awaiting i → (v.session i).stage.pending = true →
      y.stage = .awaiting i) : Inv listeners (v.setListener l y) where
  sessions := h.sessions
  listening := by
    intro k
    by_cases hk : k = l
    · subst hk
      simpa only [Server.setListener, Function.update_self] using hok
    · simpa only [Server.setListener, Function.update_of_ne hk] using h.listening k
  registered := h.registered
  distinct := h.distinct
  heldBySession := h.heldBySession
  heldByMain := h.heldByMain
  follows := h.follows
  awaited := by
    intro i hi
    obtain ⟨k, hk, hawaiting⟩ := h.awaited i hi
    refine ⟨k, hk, ?_⟩
    by_cases hkl : k = l
    · subst hkl
      simpa only [Server.setListener, Function.update_self] using hawaits i hawaiting hi
    · simpa only [Server.setListener, Function.update_of_ne hkl] using hawaiting

/-- **A session thread is made.** -/
theorem Inv.newSession (h : Inv listeners v) (hl : l ∈ listeners) (hawaiting : (v.listener l).stage = .awaiting i)
    (habsent : (v.session i).stage = .absent) : Inv listeners (v.setStage i (.addVst false)) where
  sessions := by
    have hok := h.sessions i
    have hplace := hok.place
    have hcopies := hok.copies
    have hpending := hok.pending (by rw [habsent]; rfl)
    rw [habsent] at hplace hcopies
    intro j
    by_cases hj : j = i
    · subst hj
      simp only [Server.setStage, Server.setSession, Function.update_self]
      refine hok.change (by rw [habsent]; decide) rfl hplace (fun _ => hpending) (fun ht => Bool.noConfusion ht)
        hcopies ?_ id
      intro hx
      have hmay := hok.exit hx
      rw [habsent] at hmay
      cases hmay
    · simpa only [Server.setStage, Server.setSession, Function.update_of_ne hj] using h.sessions j
  listening := h.listening
  registered := by
    intro j
    by_cases hj : j = i
    · subst hj
      have hnot := h.registered j
      rw [habsent] at hnot
      simp only [Server.setStage, Server.setSession, Function.update_self]
      exact hnot
    · simpa only [Server.setStage, Server.setSession, Function.update_of_ne hj] using h.registered j
  distinct := h.distinct
  heldBySession := by
    intro j
    by_cases hj : j = i
    · subst hj
      have hnot := h.heldBySession j
      rw [habsent] at hnot
      simp only [Server.setStage, Server.setSession, Function.update_self]
      exact hnot
    · simpa only [Server.setStage, Server.setSession, Function.update_of_ne hj] using h.heldBySession j
  heldByMain := h.heldByMain
  follows := h.follows
  awaited := by
    intro j hj
    by_cases hji : j = i
    · subst hji
      exact ⟨l, hl, hawaiting⟩
    · simp only [Server.setStage, Server.setSession, Function.update_of_ne hji] at hj
      exact h.awaited j hj

/-- **A step of a listen thread.** -/
theorem Inv.listenerStep (h : Inv listeners v) (hl : l ∈ listeners) (client : Option Nat) :
    Inv listeners (v.listenerStep l client) := by
  have hok := h.listening l
  have hplace := hok.place
  cases hstage : (v.listener l).stage with
  | starting =>
    rw [hstage] at hplace
    simp only [Server.listenerStep, hstage]
    exact h.setListener (hok.loop (Or.inl hplace)) (fun i hi => by rw [hstage] at hi; cases hi)
  | testPause =>
    simp only [Server.listenerStep, hstage]
    exact h.setListener (hok.testPause hstage) (fun i hi => by rw [hstage] at hi; cases hi)
  | check =>
    rw [hstage] at hplace
    have hloop := h.setListener (hok.loop (Or.inr hplace)) (fun i hi => by rw [hstage] at hi; cases hi)
    simp only [Server.listenerStep, hstage]
    cases client with
    | none => exact hloop
    | some i =>
      by_cases habsent : (v.session i).stage = .absent
      · simp only [if_pos habsent]
        have hawaits : Inv listeners (v.setListener l { v.listener l with stage := .awaiting i }) :=
          h.setListener (hok.work hplace rfl) (fun j hj => by rw [hstage] at hj; cases hj)
        refine hawaits.newSession hl ?_ habsent
        simp only [Server.setListener, Function.update_self]
      · simp only [if_neg habsent]
        exact hloop
  | awaiting i =>
    rw [hstage] at hplace
    have hdone : (v.session i).connectionStatus ≠ .pending → ∀ j, (v.listener l).stage = .awaiting j →
        (v.session j).stage.pending = true → ∀ {stage : ListenStage}, stage = .awaiting j := by
      intro hstatus j hj hpending stage
      rw [hstage] at hj
      cases hj
      refine absurd ((h.sessions i).pending ?_) hstatus
      revert hpending
      cases (v.session i).stage <;> first | exact fun _ => rfl | exact fun hp => Bool.noConfusion hp
    simp only [Server.listenerStep, hstage]
    cases hstatus : (v.session i).connectionStatus with
    | pending => exact h
    | fail =>
      exact h.setListener (hok.work hplace rfl)
        (fun j hj hp => hdone (by rw [hstatus]; decide) j hj hp)
    | success =>
      exact h.setListener (hok.loop (Or.inr hplace)) (fun j hj hp => hdone (by rw [hstatus]; decide) j hj hp)
  | joining i =>
    rw [hstage] at hplace
    simp only [Server.listenerStep, hstage]
    by_cases hgone : (v.session i).stage = .gone
    · rw [if_pos hgone]
      exact h.setListener (hok.loop (Or.inr hplace)) (fun j hj => by rw [hstage] at hj; cases hj)
    · rw [if_neg hgone]
      exact h

/-! ## What the main thread does to a thread -/

theorem Stage.At.signalWakeup {stage : Stage} {place : Place} (h : stage.At place) :
    stage.At (SysThread.signalWakeup place) := by
  cases place with
  | asleep =>
    cases stage with
    | testPause => exact ⟨by decide, by decide⟩
    | gone => trivial
    | _ => cases h
  | _ => exact h

theorem ListenStage.At.signalWakeup {stage : ListenStage} {place : Place} (h : stage.At place) :
    stage.At (SysThread.signalWakeup place) := by
  cases place with
  | asleep =>
    cases stage with
    | testPause => exact ⟨by decide, by decide⟩
    | _ => cases h
  | _ => exact h

/-- The `SysThread` of a session is changed. -/
theorem SessionOk.onThread (h : SessionOk e x) {e' : Expect} {t : SysThread} (hsound : t.Sound)
    (hplace : t.place = x.thread.place ∨ t.place = SysThread.signalWakeup x.thread.place)
    (hexpect : e'.Meets { x with thread := t }) : SessionOk e' { x with thread := t } where
  sound := hsound
  place := by
    rcases hplace with hp | hp
    · rw [hp]
      exact h.place
    · rw [hp]
      exact h.place.signalWakeup
  pending := h.pending
  success := h.success
  copies := h.copies
  exit := h.exit
  expect := hexpect

/-- The `SysThread` of a listener is changed. -/
theorem ListenerOk.onThread (h : ListenerOk e y) {e' : Expect} {t : SysThread} (hsound : t.Sound)
    (hplace : t.place = y.thread.place ∨ t.place = SysThread.signalWakeup y.thread.place)
    (hexpect : e'.Caller t.caller) : ListenerOk e' { y with thread := t } where
  sound := hsound
  place := by
    rcases hplace with hp | hp
    · rw [hp]
      exact h.place
    · rw [hp]
      exact h.place.signalWakeup
  expect := hexpect

theorem SessionOk.callForce (h : SessionOk .free x) :
    SessionOk .forcing { x with thread := x.thread.callForce } :=
  h.onThread (h.sound.callForce h.expect.1) (Or.inl rfl)
    ⟨fun hc => (by cases hc), fun hc => (by cases hc), fun hc => (by cases hc), h.expect.2⟩

theorem SessionOk.force (h : SessionOk .forcing x) :
    SessionOk .forcing { x with thread := x.thread.callerStep } := by
  obtain ⟨haway, hlocking, hunpausing, hpause⟩ := h.expect
  obtain ⟨haway', hlocking', hunpausing'⟩ := SysThread.caller_callerStep_forcing ⟨haway, hlocking, hunpausing⟩
  exact h.onThread h.sound.callerStep (SysThread.place_callerStep x.thread) ⟨haway', hlocking', hunpausing', hpause⟩

theorem SessionOk.forced (h : SessionOk .forcing x) (hpaused : x.thread.caller = .paused) : SessionOk .forced x :=
  h.onThread h.sound (Or.inl rfl) ⟨hpaused, h.expect.2.2.2⟩

/-- A thread that has been made to pause is in `test_pause`. -/
theorem SessionOk.stage_eq (h : SessionOk e x) (hpaused : x.thread.caller = .paused) (htold : x.stage.told = true) :
    x.stage = .testPause := by
  have hplace := h.place
  have hnot := h.sound.not_working (by rw [hpaused]; rfl)
  cases hstage : x.stage with
  | testPause => rfl
  | absent | addVst _ | connecting | deleteFailed _ | tellFail | addSession _ | tellSuccess | gone =>
    rw [hstage] at htold
    cases htold
  | _ =>
    rw [hstage] at hplace
    exact absurd hplace hnot

/-- **The session is suspended.** -/
theorem SessionOk.preload (h : SessionOk .forced x) (htold : x.stage.told = true) : SessionOk .suspended x.preload := by
  have hstage := h.stage_eq h.expect.1 htold
  have hsuccess := h.success htold
  simp only [Session.preload, if_pos hsuccess]
  exact {
    sound := h.sound
    place := h.place
    pending := h.pending
    success := h.success
    copies := h.copies
    exit := h.exit
    expect := ⟨h.expect.1, hstage, rfl, h.expect.2, rfl⟩ }

/-- **The session is as its client has left it.** -/
theorem SessionOk.restart (h : SessionOk .suspended x) : SessionOk .unpausing x.restart := by
  obtain ⟨hcaller, hstage, -, hsaved, -⟩ := h.expect
  have hsuccess := h.success (by rw [hstage]; rfl)
  simp only [Session.restart, if_pos hsuccess]
  exact {
    sound := h.sound.callUnpause hcaller
    place := h.place
    pending := h.pending
    success := h.success
    copies := h.copies
    exit := h.exit
    expect := ⟨Or.inl rfl, hsaved⟩ }

theorem SessionOk.unpause (h : SessionOk .unpausing x) :
    SessionOk .unpausing { x with thread := x.thread.callerStep } :=
  h.onThread h.sound.callerStep (SysThread.place_callerStep x.thread)
    ⟨SysThread.caller_callerStep_unpausing h.expect.1, h.expect.2⟩

theorem SessionOk.unpaused (h : SessionOk .unpausing x) (haway : x.thread.caller = .away) : SessionOk .free x :=
  h.onThread h.sound (Or.inl rfl) ⟨haway, h.expect.2⟩

theorem ListenerOk.callForce (h : ListenerOk .free y) :
    ListenerOk .forcing { y with thread := y.thread.callForce } :=
  h.onThread (h.sound.callForce h.expect) (Or.inl rfl)
    ⟨fun hc => (by cases hc), fun hc => (by cases hc), fun hc => (by cases hc)⟩

theorem ListenerOk.force (h : ListenerOk .forcing y) :
    ListenerOk .forcing { y with thread := y.thread.callerStep } :=
  h.onThread h.sound.callerStep (SysThread.place_callerStep y.thread) (SysThread.caller_callerStep_forcing h.expect)

theorem ListenerOk.paused (h : ListenerOk .forcing y) (hpaused : y.thread.caller = .paused) :
    ListenerOk .suspended y :=
  h.onThread h.sound (Or.inl rfl) hpaused

theorem ListenerOk.callUnpause (h : ListenerOk .suspended y) :
    ListenerOk .unpausing { y with thread := y.thread.callUnpause } :=
  h.onThread (h.sound.callUnpause h.expect) (Or.inl rfl) (Or.inl rfl)

theorem ListenerOk.unpause (h : ListenerOk .unpausing y) :
    ListenerOk .unpausing { y with thread := y.thread.callerStep } :=
  h.onThread h.sound.callerStep (SysThread.place_callerStep y.thread) (SysThread.caller_callerStep_unpausing h.expect)

theorem ListenerOk.unpaused (h : ListenerOk .unpausing y) (haway : y.thread.caller = .away) : ListenerOk .free y :=
  h.onThread h.sound (Or.inl rfl) haway

/-! ## The main thread -/

/-- **A step of the main thread** that leaves the stages and the map. -/
theorem Inv.main (h : Inv listeners v) {v' : Server} (hthreads : v'.varServerThreads = v.varServerThreads)
    (hstage : ∀ i, (v'.session i).stage = (v.session i).stage)
    (hlisten : ∀ l, (v'.listener l).stage = (v.listener l).stage)
    (hsessions : ∀ i, SessionOk (v'.main.expect v.varServerThreads i) (v'.session i))
    (hlistening : ∀ l, ListenerOk (v'.main.expectListener listeners l) (v'.listener l))
    (hmutex : (v'.mapMutex = v.mapMutex ∧ v'.main.holdsMap = v.main.holdsMap) ∨
      (v.mapMutex = none ∧ v'.mapMutex = some .main ∧ v'.main.holdsMap = true) ∨
      (v.main.holdsMap = true ∧ v'.mapMutex = none ∧ v'.main.holdsMap = false))
    (hfollows : v'.main.Follows listeners v.varServerThreads) : Inv listeners v' where
  sessions := by
    rw [hthreads]
    exact hsessions
  listening := hlistening
  registered := by
    intro i
    rw [hthreads, hstage]
    exact h.registered i
  distinct := by
    rw [hthreads]
    exact h.distinct
  heldBySession := by
    intro i
    rw [hstage, ← h.heldBySession i]
    rcases hmutex with ⟨hsame, -⟩ | ⟨hfree, hlocked, -⟩ | ⟨hheld, hunlocked, -⟩
    · rw [hsame]
    · rw [hfree, hlocked]
      exact iff_of_false (fun hh => by cases hh) (fun hh => by cases hh)
    · rw [hunlocked, h.heldByMain.mpr hheld]
      exact iff_of_false (fun hh => by cases hh) (fun hh => by cases hh)
  heldByMain := by
    rcases hmutex with ⟨hsame, hholds⟩ | ⟨-, hlocked, hholds⟩ | ⟨-, hunlocked, hholds⟩
    · rw [hsame, hholds]
      exact h.heldByMain
    · exact iff_of_true hlocked hholds
    · rw [hunlocked, hholds]
      exact iff_of_false (fun hh => by cases hh) Bool.false_ne_true
  follows := by
    rw [hthreads]
    exact hfollows
  awaited := by
    intro i hi
    rw [hstage] at hi
    obtain ⟨l, hl, hawaiting⟩ := h.awaited i hi
    exact ⟨l, hl, (hlisten l).trans hawaiting⟩

/-- The main thread comes to another place. -/
theorem Inv.moveMain (h : Inv listeners v) {m : Main}
    (hexpect : ∀ i, m.expect v.varServerThreads i = v.main.expect v.varServerThreads i)
    (hexpectListener : ∀ l, m.expectListener listeners l = v.main.expectListener listeners l)
    (hholds : m.holdsMap = v.main.holdsMap) (hfollows : m.Follows listeners v.varServerThreads) :
    Inv listeners { v with main := m } :=
  h.main rfl (fun _ => rfl) (fun _ => rfl) (fun i => by rw [hexpect i]; exact h.sessions i)
    (fun l => by rw [hexpectListener l]; exact h.listening l) (Or.inl ⟨rfl, hholds⟩) hfollows

/-- The main thread is done with something of a session. -/
theorem Inv.mainSession (h : Inv listeners v) {m : Main} {x : Session}
    (hstage : x.stage = (v.session i).stage) (hok : SessionOk (m.expect v.varServerThreads i) x)
    (hothers : ∀ j ≠ i, m.expect v.varServerThreads j = v.main.expect v.varServerThreads j)
    (hexpectListener : ∀ l, m.expectListener listeners l = v.main.expectListener listeners l)
    (hholds : m.holdsMap = v.main.holdsMap) (hfollows : m.Follows listeners v.varServerThreads) :
    Inv listeners { v.setSession i x with main := m } := by
  have hstages : ∀ j, (Function.update v.session i x j).stage = (v.session j).stage := by
    intro j
    by_cases hj : j = i
    · subst hj
      rw [Function.update_self, hstage]
    · rw [Function.update_of_ne hj]
  refine h.main rfl hstages (fun _ => rfl) ?_ (fun l => by
    show ListenerOk (m.expectListener listeners l) _
    rw [hexpectListener l]
    exact h.listening l) (Or.inl ⟨rfl, hholds⟩) hfollows
  intro j
  by_cases hj : j = i
  · subst hj
    simpa only [Server.setSession, Function.update_self] using hok
  · simp only [Server.setSession, Function.update_of_ne hj]
    rw [hothers j hj]
    exact h.sessions j

/-- The main thread is done with something of a listener. -/
theorem Inv.mainListener (h : Inv listeners v) {m : Main} {y : Listener}
    (hstage : y.stage = (v.listener l).stage) (hok : ListenerOk (m.expectListener listeners l) y)
    (hothers : ∀ k ≠ l, m.expectListener listeners k = v.main.expectListener listeners k)
    (hexpect : ∀ i, m.expect v.varServerThreads i = v.main.expect v.varServerThreads i)
    (hholds : m.holdsMap = v.main.holdsMap) (hfollows : m.Follows listeners v.varServerThreads) :
    Inv listeners { v.setListener l y with main := m } := by
  have hstages : ∀ k, (Function.update v.listener l y k).stage = (v.listener k).stage := by
    intro k
    by_cases hk : k = l
    · subst hk
      rw [Function.update_self, hstage]
    · rw [Function.update_of_ne hk]
  refine h.main rfl (fun _ => rfl) hstages (fun i => by
    show SessionOk (m.expect v.varServerThreads i) _
    rw [hexpect i]
    exact h.sessions i) ?_ (Or.inl ⟨rfl, hholds⟩) hfollows
  intro k
  by_cases hk : k = l
  · subst hk
    simpa only [Server.setListener, Function.update_self] using hok
  · simp only [Server.setListener, Function.update_of_ne hk]
    rw [hothers k hk]
    exact h.listening k

/-- The main thread is done with a session, and has not changed it. -/
theorem Inv.pastSession (h : Inv listeners v) {m : Main} (i : Nat)
    (hok : SessionOk (m.expect v.varServerThreads i) (v.session i))
    (hothers : ∀ j ≠ i, m.expect v.varServerThreads j = v.main.expect v.varServerThreads j)
    (hexpectListener : ∀ l, m.expectListener listeners l = v.main.expectListener listeners l)
    (hholds : m.holdsMap = v.main.holdsMap) (hfollows : m.Follows listeners v.varServerThreads) :
    Inv listeners { v with main := m } := by
  have hsame : v.setSession i (v.session i) = v := by
    rw [Server.setSession, Function.update_eq_self]
  have hmoved := h.mainSession rfl hok hothers hexpectListener hholds hfollows
  rwa [hsame] at hmoved

/-- The main thread is done with a listener, and has not changed it. -/
theorem Inv.pastListener (h : Inv listeners v) {m : Main} (l : Nat)
    (hok : ListenerOk (m.expectListener listeners l) (v.listener l))
    (hothers : ∀ k ≠ l, m.expectListener listeners k = v.main.expectListener listeners k)
    (hexpect : ∀ i, m.expect v.varServerThreads i = v.main.expect v.varServerThreads i)
    (hholds : m.holdsMap = v.main.holdsMap) (hfollows : m.Follows listeners v.varServerThreads) :
    Inv listeners { v with main := m } := by
  have hsame : v.setListener l (v.listener l) = v := by
    rw [Server.setListener, Function.update_eq_self]
  have hmoved := h.mainListener rfl hok hothers hexpect hholds hfollows
  rwa [hsame] at hmoved

/-- The main thread goes on with a session. -/
theorem Inv.sessionThread (h : Inv listeners v) {f : SysThread → SysThread}
    (hok : SessionOk (v.main.expect v.varServerThreads i) { v.session i with thread := f (v.session i).thread }) :
    Inv listeners (v.onSession i f) :=
  h.setSession hok rfl rfl id

/-- The main thread goes on with a listener. -/
theorem Inv.listenerThread (h : Inv listeners v) {f : SysThread → SysThread}
    (hok : ListenerOk (v.main.expectListener listeners l)
      { v.listener l with thread := f (v.listener l).thread }) : Inv listeners (v.onListener l f) :=
  h.setListener hok fun _ hawaits _ => hawaits

/-- What is at the head of the rest of a list without repetitions. -/
theorem head_of_suffix {a : Nat} {rest l : List Nat} (hnodup : l.Nodup) (h : a :: rest <:+ l) :
    a ∈ l ∧ a ∉ rest ∧ rest <:+ l := by
  refine ⟨h.subset List.mem_cons_self, ?_, (List.suffix_cons a rest).trans h⟩
  exact (List.nodup_cons.mp (h.sublist.nodup hnodup)).1

theorem not_mem_cons_iff {j a : Nat} {rest : List Nat} (hj : j ≠ a) : j ∉ a :: rest ↔ j ∉ rest := by
  rw [List.mem_cons, or_iff_right hj]

/-- **A step of the main thread.** -/
theorem Inv.mainStep (h : Inv listeners v) (hnodup : listeners.Nodup) : Inv listeners (v.mainStep listeners) := by
  have hsessions := h.sessions
  have hlistening := h.listening
  have hfollows := h.follows
  cases hm : v.main with
  | running =>
    simp only [Server.mainStep, hm]
    refine h.moveMain (fun i => by rw [hm]; rfl) ?_ (by rw [hm]; rfl) (List.suffix_refl _)
    intro l
    rw [hm]
    simp only [Main.expectListener, and_not_self, if_false]
  | pauseNext rest =>
    rw [hm] at hlistening hfollows
    cases rest with
    | nil =>
      simp only [Server.mainStep, hm]
      refine h.moveMain (fun i => by rw [hm]; rfl) ?_ (by rw [hm]; rfl) trivial
      intro l
      rw [hm]
      simp only [Main.expectListener, List.not_mem_nil, not_false_eq_true, and_true]
    | cons l ls =>
      obtain ⟨hl, hls, -⟩ := head_of_suffix hnodup hfollows
      have hok := hlistening l
      simp only [Main.expectListener, List.mem_cons_self, not_true_eq_false, and_false, if_false] at hok
      simp only [Server.mainStep, hm]
      refine h.mainListener rfl ?_ ?_ (fun i => by rw [hm]; rfl) (by rw [hm]; rfl) hfollows
      · simp only [Main.expectListener, if_true]
        exact hok.callForce
      · intro k hk
        rw [hm]
        simp only [Main.expectListener, if_neg hk, not_mem_cons_iff hk]
  | pausing l ls =>
    rw [hm] at hlistening hfollows
    obtain ⟨hl, hls, hrest⟩ := head_of_suffix hnodup hfollows
    have hok := hlistening l
    simp only [Main.expectListener, if_true] at hok
    by_cases hpaused : (v.listener l).thread.caller = .paused
    · simp only [Server.mainStep, hm, if_pos hpaused]
      refine h.pastListener l ?_ ?_ (fun i => by rw [hm]; rfl) (by rw [hm]; rfl) hrest
      · simp only [Main.expectListener, if_pos (And.intro hl hls)]
        exact hok.paused hpaused
      · intro k hk
        rw [hm]
        simp only [Main.expectListener, if_neg hk]
    · simp only [Server.mainStep, hm, if_neg hpaused]
      refine h.listenerThread ?_
      rw [hm]
      simp only [Main.expectListener, if_true]
      exact hok.force
  | lockMap =>
    by_cases hfree : v.mapMutex = none
    · simp only [Server.mainStep, hm, if_pos hfree]
      refine h.main rfl (fun _ => rfl) (fun _ => rfl) ?_ ?_ (Or.inr (Or.inl ⟨hfree, rfl, rfl⟩)) (List.suffix_refl _)
      · intro i
        have hok := hsessions i
        rw [hm] at hok
        simp only [Main.expect, and_not_self, if_false] at hok ⊢
        exact hok
      · intro l
        have hok := hlistening l
        rw [hm] at hok
        exact hok
    · simp only [Server.mainStep, hm, if_neg hfree]
      exact h
  | suspendNext rest =>
    rw [hm] at hsessions hfollows
    cases rest with
    | nil =>
      simp only [Server.mainStep, hm]
      refine h.moveMain ?_ (fun l => by rw [hm]; rfl) (by rw [hm]; rfl) trivial
      intro i
      rw [hm]
      simp only [Main.expect, List.not_mem_nil, not_false_eq_true, and_true]
    | cons i is =>
      obtain ⟨hi, his, -⟩ := head_of_suffix h.distinct hfollows
      have hok := hsessions i
      simp only [Main.expect, List.mem_cons_self, not_true_eq_false, and_false, if_false] at hok
      simp only [Server.mainStep, hm]
      refine h.mainSession rfl ?_ ?_ (fun l => by rw [hm]; rfl) (by rw [hm]; rfl) hfollows
      · simp only [Main.expect, if_true]
        exact hok.callForce
      · intro j hj
        rw [hm]
        simp only [Main.expect, if_neg hj, not_mem_cons_iff hj]
  | suspending i is =>
    rw [hm] at hsessions hfollows
    have hok := hsessions i
    simp only [Main.expect, if_true] at hok
    by_cases hpaused : (v.session i).thread.caller = .paused
    · simp only [Server.mainStep, hm, if_pos hpaused]
      refine h.pastSession i ?_ ?_ (fun l => by rw [hm]; rfl) (by rw [hm]; rfl) hfollows
      · simp only [Main.expect, if_true]
        exact hok.forced hpaused
      · intro j hj
        rw [hm]
        simp only [Main.expect, if_neg hj]
    · simp only [Server.mainStep, hm, if_neg hpaused]
      refine h.sessionThread ?_
      rw [hm]
      simp only [Main.expect, if_true]
      exact hok.force
  | preloading i is =>
    have hpending := h.not_pending (i := i) fun l hl => by simp only [hm, Main.expectListener, if_pos hl]
    rw [hm] at hsessions hfollows
    obtain ⟨hi, his, hrest⟩ := head_of_suffix h.distinct hfollows
    have hregistered := (h.registered i).mp hi
    have hok := hsessions i
    simp only [Main.expect, if_true] at hok
    by_cases hcopies : (v.session i).copyMutex = true
    · simp only [Server.mainStep, hm, if_pos hcopies]
      exact h
    · simp only [Server.mainStep, hm, if_neg hcopies]
      have htold : (v.session i).stage.told = true := by
        revert hpending hregistered
        cases (v.session i).stage <;> simp [Stage.pending, Stage.registered, Stage.told]
      have hpreload := hok.preload htold
      refine h.mainSession ?_ ?_ ?_ (fun l => by rw [hm]; rfl) (by rw [hm]; rfl) hrest
      · rw [Session.preload]
        split <;> rfl
      · simp only [Main.expect, if_pos (And.intro hi his)]
        exact hpreload
      · intro j hj
        rw [hm]
        simp only [Main.expect, if_neg hj]
  | unlockMap =>
    simp only [Server.mainStep, hm]
    refine h.main rfl (fun _ => rfl) (fun _ => rfl) ?_ ?_ (Or.inr (Or.inr ⟨by rw [hm]; rfl, rfl, rfl⟩)) trivial
    · intro i
      have hok := hsessions i
      rw [hm] at hok
      exact hok
    · intro l
      have hok := hlistening l
      rw [hm] at hok
      exact hok
  | loading =>
    simp only [Server.mainStep, hm]
    exact h.moveMain (fun i => by rw [hm]; rfl) (fun l => by rw [hm]; rfl) (by rw [hm]; rfl) trivial
  | relockMap =>
    by_cases hfree : v.mapMutex = none
    · simp only [Server.mainStep, hm, if_pos hfree]
      refine h.main rfl (fun _ => rfl) (fun _ => rfl) ?_ ?_ (Or.inr (Or.inl ⟨hfree, rfl, rfl⟩)) (List.suffix_refl _)
      · intro i
        have hok := hsessions i
        rw [hm] at hok
        exact hok
      · intro l
        have hok := hlistening l
        rw [hm] at hok
        exact hok
    · simp only [Server.mainStep, hm, if_neg hfree]
      exact h
  | restartNext rest =>
    rw [hm] at hsessions hfollows
    cases rest with
    | nil =>
      simp only [Server.mainStep, hm]
      refine h.moveMain ?_ (fun l => by rw [hm]; rfl) (by rw [hm]; rfl) trivial
      intro i
      rw [hm]
      simp only [Main.expect, List.not_mem_nil, if_false]
    | cons i is =>
      obtain ⟨hi, his, -⟩ := head_of_suffix h.distinct hfollows
      have hok := hsessions i
      simp only [Main.expect, List.mem_cons_self, if_true] at hok
      simp only [Server.mainStep, hm]
      refine h.mainSession ?_ ?_ ?_ (fun l => by rw [hm]; rfl) (by rw [hm]; rfl) hfollows
      · simp only [Session.restart]
        split <;> rfl
      · simp only [Main.expect, if_true]
        exact hok.restart
      · intro j hj
        rw [hm]
        simp only [Main.expect, if_neg hj, List.mem_cons, or_iff_right hj]
  | unpausing i is =>
    rw [hm] at hsessions hfollows
    obtain ⟨hi, his, hrest⟩ := head_of_suffix h.distinct hfollows
    have hok := hsessions i
    simp only [Main.expect, if_true] at hok
    by_cases haway : (v.session i).thread.caller = .away
    · simp only [Server.mainStep, hm, if_pos haway]
      refine h.pastSession i ?_ ?_ (fun l => by rw [hm]; rfl) (by rw [hm]; rfl) hrest
      · simp only [Main.expect, if_neg his]
        exact hok.unpaused haway
      · intro j hj
        rw [hm]
        simp only [Main.expect, if_neg hj]
    · simp only [Server.mainStep, hm, if_neg haway]
      refine h.sessionThread ?_
      rw [hm]
      simp only [Main.expect, if_true]
      exact hok.unpause
  | reunlockMap =>
    simp only [Server.mainStep, hm]
    refine h.main rfl (fun _ => rfl) (fun _ => rfl) ?_ ?_ (Or.inr (Or.inr ⟨by rw [hm]; rfl, rfl, rfl⟩))
      (List.suffix_refl _)
    · intro i
      have hok := hsessions i
      rw [hm] at hok
      exact hok
    · intro l
      have hok := hlistening l
      rw [hm] at hok
      exact hok
  | listenNext rest =>
    rw [hm] at hlistening hfollows
    cases rest with
    | nil =>
      simp only [Server.mainStep, hm]
      refine h.moveMain (fun i => by rw [hm]; rfl) ?_ (by rw [hm]; rfl) trivial
      intro l
      rw [hm]
      simp only [Main.expectListener, List.not_mem_nil, if_false]
    | cons l ls =>
      have hok := hlistening l
      simp only [Main.expectListener, List.mem_cons_self, if_true] at hok
      simp only [Server.mainStep, hm]
      refine h.mainListener rfl ?_ ?_ (fun i => by rw [hm]; rfl) (by rw [hm]; rfl) hfollows
      · simp only [Main.expectListener, if_true]
        exact hok.callUnpause
      · intro k hk
        rw [hm]
        simp only [Main.expectListener, if_neg hk, List.mem_cons, or_iff_right hk]
  | listening l ls =>
    rw [hm] at hlistening hfollows
    obtain ⟨hl, hls, hrest⟩ := head_of_suffix hnodup hfollows
    have hok := hlistening l
    simp only [Main.expectListener, if_true] at hok
    by_cases haway : (v.listener l).thread.caller = .away
    · simp only [Server.mainStep, hm, if_pos haway]
      refine h.pastListener l ?_ ?_ (fun i => by rw [hm]; rfl) (by rw [hm]; rfl) hrest
      · simp only [Main.expectListener, if_neg hls]
        exact hok.unpaused haway
      · intro k hk
        rw [hm]
        simp only [Main.expectListener, if_neg hk]
    · simp only [Server.mainStep, hm, if_neg haway]
      refine h.listenerThread ?_
      rw [hm]
      simp only [Main.expectListener, if_true]
      exact hok.unpause

/-! ## Every state -/

/-- Waking up does not change what the main thread has made of a session. -/
theorem SessionOk.mainWakes (h : SessionOk .forcing x) :
    SessionOk .forcing { x with thread := x.thread.spuriousHasPaused } := by
  obtain ⟨haway, hlocking, hunpausing, hpause⟩ := h.expect
  refine h.onThread h.sound.spuriousHasPaused (Or.inl rfl) ?_
  show SysThread.signalHasPaused x.thread.caller ≠ .away ∧ SysThread.signalHasPaused x.thread.caller ≠ .unpauseLocking ∧
    SysThread.signalHasPaused x.thread.caller ≠ .unpausing ∧ x.pauseCmd = x.clientPause
  cases hcaller : x.thread.caller with
  | asleep => exact ⟨by decide, by decide, by decide, hpause⟩
  | _ =>
    rw [hcaller] at haway hlocking hunpausing
    exact ⟨haway, hlocking, hunpausing, hpause⟩

theorem ListenerOk.mainWakes (h : ListenerOk .forcing y) :
    ListenerOk .forcing { y with thread := y.thread.spuriousHasPaused } := by
  obtain ⟨haway, hlocking, hunpausing⟩ := h.expect
  refine h.onThread h.sound.spuriousHasPaused (Or.inl rfl) ?_
  show SysThread.signalHasPaused y.thread.caller ≠ .away ∧ SysThread.signalHasPaused y.thread.caller ≠ .unpauseLocking ∧
    SysThread.signalHasPaused y.thread.caller ≠ .unpausing
  cases hcaller : y.thread.caller with
  | asleep => exact ⟨by decide, by decide, by decide⟩
  | _ =>
    rw [hcaller] at haway hlocking hunpausing
    exact ⟨haway, hlocking, hunpausing⟩

theorem Inv.mainWakes (h : Inv listeners v) : Inv listeners v.mainWakes := by
  cases hm : v.main with
  | pausing l ls =>
    have hok := h.listening l
    rw [hm] at hok
    simp only [Main.expectListener, if_true] at hok
    simp only [Server.mainWakes, hm]
    refine h.listenerThread ?_
    rw [hm]
    simp only [Main.expectListener, if_true]
    exact hok.mainWakes
  | suspending i is =>
    have hok := h.sessions i
    rw [hm] at hok
    simp only [Main.expect, if_true] at hok
    simp only [Server.mainWakes, hm]
    refine h.sessionThread ?_
    rw [hm]
    simp only [Main.expect, if_true]
    exact hok.mainWakes
  | _ =>
    simp only [Server.mainWakes, hm]
    exact h

theorem Expect.Meets.wake (h : e.Meets x) : e.Meets { x with thread := x.thread.spuriousWakeup } := by
  cases e <;> exact h

/-- **Every step keeps the invariant.** -/
theorem Inv.step (h : Inv listeners v) (hnodup : listeners.Nodup) (action : Action) :
    Inv listeners (v.step listeners action) := by
  cases action with
  | main => exact h.mainStep hnodup
  | session i choice => exact h.sessionStep i choice
  | listener l client =>
    simp only [Server.step]
    split
    · rename_i hl
      exact h.listenerStep hl client
    · exact h
  | mainWakes => exact h.mainWakes
  | sessionWakes i =>
    exact h.sessionThread ((h.sessions i).onThread (h.sessions i).sound.spuriousWakeup (Or.inr rfl)
      (h.sessions i).expect.wake)
  | listenerWakes l =>
    exact h.listenerThread ((h.listening l).onThread (h.listening l).sound.spuriousWakeup (Or.inr rfl)
      (h.listening l).expect)

theorem Inv.run (h : Inv listeners v) (hnodup : listeners.Nodup) (actions : List Action) :
    Inv listeners (Lib.run (Server.step listeners) v actions) := by
  induction actions generalizing v with
  | nil => exact h
  | cons action actions ih => exact ih (h.step hnodup action)

theorem Reachable.inv (h : Reachable listeners v) (hnodup : listeners.Nodup) : Inv listeners v := by
  obtain ⟨actions, rfl⟩ := h
  exact (inv_start listeners).run hnodup actions

end Trick.VarServer.Reload
