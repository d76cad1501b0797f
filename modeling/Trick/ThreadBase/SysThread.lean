/-
  `SysThread`: how the main thread makes another thread pause.

  Data:           the two flags, the mutex, and where each of the two threads is in the functions.
  Program:        `test_pause` of the thread, and `force_thread_to_pause` and `unpause_thread` of the main
                  thread, in steps from one use of the mutex to the next.  A wait on a condition may end by
                  itself.
  Specification:  from the return of `force_thread_to_pause` to the call of `unpause_thread` the thread does not
                  work, and no signal is lost.
  Result:         `Sound`, which every step keeps, with `Sound.not_working` and `Sound.asleep_should_pause`.
-/
import Mathlib.Logic.Basic

namespace Trick.Threads

/-! ## The two threads -/

/-- Who may hold `_restart_pause_mutex`. -/
inductive Party where
  | sysThread
  | mainThread
  deriving DecidableEq, Repr

/-- **Where the thread is.** -/
inductive Place where
  /-- It has not called `test_pause` yet. -/
  | starting
  /-- Before `pthread_mutex_lock`. -/
  | locking
  /-- `if (_thread_should_pause)`, with the mutex. -/
  | testing
  /-- In `pthread_cond_wait(&_thread_wakeup_cv, …)`. -/
  | asleep
  /-- Woken up, and before it has the mutex again. -/
  | awake
  /-- `while (_thread_should_pause)`, with the mutex. -/
  | retesting
  /-- It has come back from `test_pause`. -/
  | working
  deriving DecidableEq, Repr

/-- **Where the main thread is**, as far as this thread is concerned. -/
inductive Caller where
  /-- It has not called, or has come back from `unpause_thread`. -/
  | away
  | forceLocking
  /-- In `force_thread_to_pause`, with the mutex. -/
  | forcing
  /-- In `pthread_cond_wait(&_thread_has_paused_cv, …)`. -/
  | asleep
  | awake
  /-- `while (!_thread_has_paused)`, with the mutex. -/
  | retesting
  /-- It has come back from `force_thread_to_pause`. -/
  | paused
  | unpauseLocking
  /-- In `unpause_thread`, with the mutex. -/
  | unpausing
  deriving DecidableEq, Repr

/-- **`SysThread`** -/
structure SysThread where
  threadShouldPause : Bool := false
  threadHasPaused : Bool := true
  restartPauseMutex : Option Party := none
  place : Place := .starting
  caller : Caller := .away
  deriving DecidableEq, Repr

namespace SysThread

/-! ## The functions -/

/-- `pthread_cond_signal(&_thread_wakeup_cv)` -/
def signalWakeup : Place → Place
  | .asleep => .awake
  | place => place

/-- `pthread_cond_signal(&_thread_has_paused_cv)` -/
def signalHasPaused : Caller → Caller
  | .asleep => .awake
  | caller => caller

/-- The thread calls `test_pause`. -/
def callTestPause (t : SysThread) : SysThread := { t with place := .locking }

/-- The main thread calls `force_thread_to_pause`. -/
def callForce (t : SysThread) : SysThread := { t with caller := .forceLocking }

/-- The main thread calls `unpause_thread`. -/
def callUnpause (t : SysThread) : SysThread := { t with caller := .unpauseLocking }

/-- **`test_pause`**, one step; a thread that waits stays where it is. -/
def testPause (t : SysThread) : SysThread :=
  match t.place with
  | .locking =>
    if t.restartPauseMutex = none then { t with restartPauseMutex := some .sysThread, place := .testing } else t
  | .testing =>
    if t.threadShouldPause then
      { t with threadHasPaused := true, caller := signalHasPaused t.caller, restartPauseMutex := none,
               place := .asleep }
    else { t with threadHasPaused := false, restartPauseMutex := none, place := .working }
  | .awake =>
    if t.restartPauseMutex = none then { t with restartPauseMutex := some .sysThread, place := .retesting } else t
  | .retesting =>
    if t.threadShouldPause then { t with restartPauseMutex := none, place := .asleep }
    else { t with threadHasPaused := false, restartPauseMutex := none, place := .working }
  | .starting | .asleep | .working => t

/-- **`force_thread_to_pause` and `unpause_thread`**, one step. -/
def callerStep (t : SysThread) : SysThread :=
  match t.caller with
  | .forceLocking =>
    if t.restartPauseMutex = none then { t with restartPauseMutex := some .mainThread, caller := .forcing } else t
  | .forcing =>
    { t with threadShouldPause := true, restartPauseMutex := none,
             caller := if t.threadHasPaused then .paused else .asleep }
  | .awake =>
    if t.restartPauseMutex = none then { t with restartPauseMutex := some .mainThread, caller := .retesting } else t
  | .retesting => { t with restartPauseMutex := none, caller := if t.threadHasPaused then .paused else .asleep }
  | .unpauseLocking =>
    if t.restartPauseMutex = none then { t with restartPauseMutex := some .mainThread, caller := .unpausing } else t
  | .unpausing =>
    { t with threadShouldPause := false, place := signalWakeup t.place, restartPauseMutex := none, caller := .away }
  | .away | .asleep | .paused => t

/-- The thread wakes up without a signal. -/
def spuriousWakeup (t : SysThread) : SysThread := { t with place := signalWakeup t.place }

/-- The main thread wakes up without a signal. -/
def spuriousHasPaused (t : SysThread) : SysThread := { t with caller := signalHasPaused t.caller }

/-! ## What holds of a thread -/

/-- The thread has the mutex. -/
def Place.holds : Place → Bool
  | .testing | .retesting => true
  | _ => false

/-- The main thread has the mutex. -/
def Caller.holds : Caller → Bool
  | .forcing | .retesting | .unpausing => true
  | _ => false

/-- The thread has said that it pauses, and has not gone on. -/
def Place.pauses : Place → Bool
  | .asleep | .awake | .retesting => true
  | _ => false

/-- `force_thread_to_pause` has set the flag, and `unpause_thread` has not cleared it. -/
def Caller.forces : Caller → Bool
  | .asleep | .awake | .retesting | .paused | .unpauseLocking | .unpausing => true
  | _ => false

/-- `force_thread_to_pause` has seen that the thread pauses. -/
def Caller.hasPaused : Caller → Bool
  | .paused | .unpauseLocking | .unpausing => true
  | _ => false

/-- **Sound**: the mutex is with the one that is in its critical section, the flags are what the places say, and no
    thread waits for a signal that has been sent. -/
structure Sound (t : SysThread) : Prop where
  sysThread_holds : t.restartPauseMutex = some .sysThread ↔ Place.holds t.place = true
  mainThread_holds : t.restartPauseMutex = some .mainThread ↔ Caller.holds t.caller = true
  working : t.place = .working → t.threadHasPaused = false
  pauses : Place.pauses t.place = true → t.threadHasPaused = true
  forces : Caller.forces t.caller = true → t.threadShouldPause = true
  hasPaused : Caller.hasPaused t.caller = true → t.threadHasPaused = true
  away : t.caller = .away → t.threadShouldPause = false
  asleep_should_pause : t.place = .asleep → t.threadShouldPause = true
  caller_asleep : t.caller = .asleep → t.threadHasPaused = false

theorem sound_start : Sound {} := by
  constructor <;> simp [Place.holds, Caller.holds, Place.pauses, Caller.forces, Caller.hasPaused]

variable {t : SysThread}

/-- **A paused thread does not work.** -/
theorem Sound.not_working (h : Sound t) (hpaused : Caller.hasPaused t.caller = true) : t.place ≠ .working := by
  intro hworking
  have hflag := h.hasPaused hpaused
  rw [h.working hworking] at hflag
  cases hflag

/-- The mutex is free where neither of the two is in its critical section. -/
theorem Sound.mutex_free (h : Sound t) (hplace : Place.holds t.place = false)
    (hcaller : Caller.holds t.caller = false) : t.restartPauseMutex = none := by
  cases hmutex : t.restartPauseMutex with
  | none => rfl
  | some party =>
    cases party with
    | sysThread =>
      have hholds := h.sysThread_holds.mp hmutex
      rw [hplace] at hholds
      cases hholds
    | mainThread =>
      have hholds := h.mainThread_holds.mp hmutex
      rw [hcaller] at hholds
      cases hholds

/-! ## Every step keeps it -/

/-- The thread calls `test_pause` where it has not been told anything. -/
theorem Sound.callTestPause (h : Sound t) (hplace : t.place = .starting ∨ t.place = .working) :
    Sound t.callTestPause := by
  have hfree : Place.holds t.place = false := by
    rcases hplace with hplace | hplace <;> rw [hplace] <;> rfl
  have hnot : ¬ t.restartPauseMutex = some .sysThread := by
    rw [h.sysThread_holds, hfree]
    exact Bool.false_ne_true
  exact {
    sysThread_holds := ⟨fun hmutex => absurd hmutex hnot, fun hlocking => by cases hlocking⟩
    mainThread_holds := h.mainThread_holds
    working := fun hlocking => by cases hlocking
    pauses := fun hlocking => by cases hlocking
    forces := h.forces
    hasPaused := h.hasPaused
    away := h.away
    asleep_should_pause := fun hlocking => by cases hlocking
    caller_asleep := h.caller_asleep }

/-- The main thread calls one of its functions. -/
theorem Sound.call (h : Sound t) (caller : Caller) (hbefore : Caller.holds t.caller = false)
    (hafter : Caller.holds caller = false) (hforces : Caller.forces caller = true → Caller.forces t.caller = true)
    (hhasPaused : Caller.hasPaused caller = true → Caller.hasPaused t.caller = true) (haway : caller ≠ .away)
    (hasleep : caller ≠ .asleep) : Sound { t with caller := caller } := by
  have hnot : ¬ t.restartPauseMutex = some .mainThread := by
    rw [h.mainThread_holds, hbefore]
    exact Bool.false_ne_true
  exact {
    sysThread_holds := h.sysThread_holds
    mainThread_holds := ⟨fun hmutex => absurd hmutex hnot, fun hholds => by rw [hafter] at hholds; cases hholds⟩
    working := h.working
    pauses := h.pauses
    forces := fun hc => h.forces (hforces hc)
    hasPaused := fun hc => h.hasPaused (hhasPaused hc)
    away := fun hc => absurd hc haway
    asleep_should_pause := h.asleep_should_pause
    caller_asleep := fun hc => absurd hc hasleep }

/-- Force may be called where the main thread is away. -/
theorem Sound.callForce (h : Sound t) (haway : t.caller = .away) : Sound t.callForce :=
  h.call .forceLocking (by rw [haway]; rfl) rfl (fun hc => by cases hc) (fun hc => by cases hc) (by decide)
    (by decide)

/-- Unpause may be called where the thread has been made to pause. -/
theorem Sound.callUnpause (h : Sound t) (hpaused : t.caller = .paused) : Sound t.callUnpause :=
  h.call .unpauseLocking (by rw [hpaused]; rfl) rfl (fun _ => by rw [hpaused]; rfl) (fun _ => by rw [hpaused]; rfl)
    (by decide) (by decide)


@[simp] theorem holds_signalHasPaused (c : Caller) : Caller.holds (signalHasPaused c) = Caller.holds c := by
  cases c <;> rfl

@[simp] theorem forces_signalHasPaused (c : Caller) : Caller.forces (signalHasPaused c) = Caller.forces c := by
  cases c <;> rfl

@[simp] theorem hasPaused_signalHasPaused (c : Caller) :
    Caller.hasPaused (signalHasPaused c) = Caller.hasPaused c := by
  cases c <;> rfl

theorem signalHasPaused_ne_asleep (c : Caller) : signalHasPaused c ≠ .asleep := by
  cases c <;> decide

theorem signalHasPaused_eq_away {c : Caller} : signalHasPaused c = .away ↔ c = .away := by
  cases c <;> decide

theorem signalHasPaused_eq_paused {c : Caller} : signalHasPaused c = .paused ↔ c = .paused := by
  cases c <;> decide

@[simp] theorem holds_signalWakeup (p : Place) : Place.holds (signalWakeup p) = Place.holds p := by
  cases p <;> rfl

@[simp] theorem pauses_signalWakeup (p : Place) : Place.pauses (signalWakeup p) = Place.pauses p := by
  cases p <;> rfl

theorem signalWakeup_ne_asleep (p : Place) : signalWakeup p ≠ .asleep := by
  cases p <;> decide

theorem signalWakeup_eq_working {p : Place} : signalWakeup p = .working ↔ p = .working := by
  cases p <;> decide

/-- The thread takes the mutex. -/
theorem Sound.threadLocks (h : Sound t) (hfree : t.restartPauseMutex = none) {place : Place}
    (hholds : Place.holds place = true) (hworking : place ≠ .working) (hasleep : place ≠ .asleep)
    (hpauses : Place.pauses place = true → Place.pauses t.place = true) :
    Sound { t with restartPauseMutex := some .sysThread, place := place } := by
  have hcaller : Caller.holds t.caller ≠ true := by
    rw [ne_eq, ← h.mainThread_holds, hfree]
    intro hmutex
    cases hmutex
  exact {
    sysThread_holds := ⟨fun _ => hholds, fun _ => rfl⟩
    mainThread_holds := ⟨fun hmutex => (by cases hmutex), fun hc => absurd hc hcaller⟩
    working := fun hp => absurd hp hworking
    pauses := fun hp => h.pauses (hpauses hp)
    forces := h.forces
    hasPaused := h.hasPaused
    away := h.away
    asleep_should_pause := fun hp => absurd hp hasleep
    caller_asleep := h.caller_asleep }

/-- The main thread takes the mutex. -/
theorem Sound.callerLocks (h : Sound t) (hfree : t.restartPauseMutex = none) {caller : Caller}
    (hholds : Caller.holds caller = true) (hforces : Caller.forces caller = true → Caller.forces t.caller = true)
    (hhasPaused : Caller.hasPaused caller = true → Caller.hasPaused t.caller = true) (haway : caller ≠ .away)
    (hasleep : caller ≠ .asleep) :
    Sound { t with restartPauseMutex := some .mainThread, caller := caller } := by
  have hplace : Place.holds t.place ≠ true := by
    rw [ne_eq, ← h.sysThread_holds, hfree]
    intro hmutex
    cases hmutex
  exact {
    sysThread_holds := ⟨fun hmutex => (by cases hmutex), fun hp => absurd hp hplace⟩
    mainThread_holds := ⟨fun _ => hholds, fun _ => rfl⟩
    working := h.working
    pauses := h.pauses
    forces := fun hc => h.forces (hforces hc)
    hasPaused := fun hc => h.hasPaused (hhasPaused hc)
    away := fun hc => absurd hc haway
    asleep_should_pause := h.asleep_should_pause
    caller_asleep := fun hc => absurd hc hasleep }

/-- While the thread has the mutex the main thread has not. -/
theorem Sound.caller_not_holds (h : Sound t) (hplace : Place.holds t.place = true) :
    Caller.holds t.caller = false := by
  have hmutex := h.sysThread_holds.mpr hplace
  rw [← Bool.not_eq_true, ← h.mainThread_holds, hmutex]
  intro hparty
  cases hparty

theorem Sound.place_not_holds (h : Sound t) (hcaller : Caller.holds t.caller = true) :
    Place.holds t.place = false := by
  have hmutex := h.mainThread_holds.mpr hcaller
  rw [← Bool.not_eq_true, ← h.sysThread_holds, hmutex]
  intro hparty
  cases hparty

/-- **The thread pauses**: it has seen that it should. -/
theorem Sound.fallsAsleep (h : Sound t) (hplace : Place.holds t.place = true) (hshould : t.threadShouldPause = true) :
    Sound { t with threadHasPaused := true, caller := signalHasPaused t.caller, restartPauseMutex := none,
                   place := .asleep } where
  sysThread_holds := ⟨fun hmutex => (by cases hmutex), fun hp => (by cases hp)⟩
  mainThread_holds := ⟨fun hmutex => (by cases hmutex), fun hc => by
    rw [holds_signalHasPaused, h.caller_not_holds hplace] at hc
    cases hc⟩
  working := fun hp => (by cases hp)
  pauses := fun _ => rfl
  forces := fun _ => hshould
  hasPaused := fun _ => rfl
  away := fun hc => h.away (signalHasPaused_eq_away.mp hc)
  asleep_should_pause := fun _ => hshould
  caller_asleep := fun hc => absurd hc (signalHasPaused_ne_asleep t.caller)

/-- **The thread goes on**: it has seen that it need not pause. -/
theorem Sound.goesOn (h : Sound t) (hplace : Place.holds t.place = true) (hshould : t.threadShouldPause = false) :
    Sound { t with threadHasPaused := false, restartPauseMutex := none, place := .working } := by
  have hforces : Caller.forces t.caller ≠ true := by
    intro hc
    rw [h.forces hc] at hshould
    cases hshould
  exact {
    sysThread_holds := ⟨fun hmutex => (by cases hmutex), fun hp => (by cases hp)⟩
    mainThread_holds := ⟨fun hmutex => (by cases hmutex), fun hc => by
      rw [h.caller_not_holds hplace] at hc
      cases hc⟩
    working := fun _ => rfl
    pauses := fun hp => (by cases hp)
    forces := h.forces
    hasPaused := fun hc => by
      exfalso
      apply hforces
      revert hc
      cases t.caller <;> decide
    away := h.away
    asleep_should_pause := fun hp => (by cases hp)
    caller_asleep := fun _ => rfl }

/-- **A step in `test_pause`.** -/
theorem Sound.testPause (h : Sound t) : Sound t.testPause := by
  cases hplace : t.place with
  | starting | asleep | working =>
    simp only [SysThread.testPause, hplace]
    exact h
  | locking =>
    simp only [SysThread.testPause, hplace]
    by_cases hfree : t.restartPauseMutex = none
    · rw [if_pos hfree]
      exact h.threadLocks hfree rfl (by decide) (by decide) (fun hp => by cases hp)
    · rw [if_neg hfree]
      exact h
  | testing =>
    have hholds : Place.holds t.place = true := by rw [hplace]; rfl
    simp only [SysThread.testPause, hplace]
    cases hshould : t.threadShouldPause with
    | true =>
      have hasleep := h.fallsAsleep hholds hshould
      rw [hshould] at hasleep
      exact hasleep
    | false =>
      have hgoes := h.goesOn hholds hshould
      rw [hshould] at hgoes
      exact hgoes
  | awake =>
    simp only [SysThread.testPause, hplace]
    by_cases hfree : t.restartPauseMutex = none
    · rw [if_pos hfree]
      exact h.threadLocks hfree rfl (by decide) (by decide) (fun _ => by rw [hplace]; rfl)
    · rw [if_neg hfree]
      exact h
  | retesting =>
    have hholds : Place.holds t.place = true := by rw [hplace]; rfl
    have hpaused : t.threadHasPaused = true := h.pauses (by rw [hplace]; rfl)
    simp only [SysThread.testPause, hplace]
    cases hshould : t.threadShouldPause with
    | true =>
      -- it has paused before, so that nobody waits for the signal
      have hasleep := h.fallsAsleep hholds hshould
      have hnobody : signalHasPaused t.caller = t.caller := by
        cases hcaller : t.caller with
        | asleep =>
          rw [h.caller_asleep hcaller] at hpaused
          cases hpaused
        | _ => rfl
      rw [hnobody, hshould] at hasleep
      simpa only [hpaused, if_true] using hasleep
    | false =>
      have hgoes := h.goesOn hholds hshould
      rw [hshould] at hgoes
      exact hgoes

/-- The main thread looks whether the thread has paused. -/
theorem Sound.looks (h : Sound t) (hcaller : Caller.holds t.caller = true) :
    Sound { t with threadShouldPause := true, restartPauseMutex := none,
                   caller := if t.threadHasPaused then .paused else .asleep } := by
  have hplace := h.place_not_holds hcaller
  have hnot : Caller.holds (if t.threadHasPaused then Caller.paused else .asleep) = false := by
    cases t.threadHasPaused <;> rfl
  exact {
    sysThread_holds := ⟨fun hmutex => (by cases hmutex), fun hp => by rw [hplace] at hp; cases hp⟩
    mainThread_holds := ⟨fun hmutex => (by cases hmutex), fun hc => by rw [hnot] at hc; cases hc⟩
    working := h.working
    pauses := h.pauses
    forces := fun _ => rfl
    hasPaused := fun hc => by
      show t.threadHasPaused = true
      cases hpaused : t.threadHasPaused with
      | true => rfl
      | false =>
        simp only [hpaused] at hc
        cases hc
    away := fun hc => by
      cases hpaused : t.threadHasPaused <;> simp [hpaused] at hc
    asleep_should_pause := fun _ => rfl
    caller_asleep := fun hc => by
      show t.threadHasPaused = false
      cases hpaused : t.threadHasPaused with
      | true => simp [hpaused] at hc
      | false => rfl }

/-- The main thread lets the thread go on. -/
theorem Sound.release (h : Sound t) (hcaller : t.caller = .unpausing) :
    Sound { t with threadShouldPause := false, place := signalWakeup t.place, restartPauseMutex := none,
                   caller := .away } := by
  have hplace := h.place_not_holds (by rw [hcaller]; rfl)
  exact {
    sysThread_holds := ⟨fun hmutex => (by cases hmutex), fun hp => by rw [holds_signalWakeup, hplace] at hp; cases hp⟩
    mainThread_holds := ⟨fun hmutex => (by cases hmutex), fun hc => (by cases hc)⟩
    working := fun hp => h.working (signalWakeup_eq_working.mp hp)
    pauses := fun hp => h.pauses (by rwa [pauses_signalWakeup] at hp)
    forces := fun hc => (by cases hc)
    hasPaused := fun hc => (by cases hc)
    away := fun _ => rfl
    asleep_should_pause := fun hp => absurd hp (signalWakeup_ne_asleep t.place)
    caller_asleep := fun hc => (by cases hc) }

/-- **A step of the main thread.** -/
theorem Sound.callerStep (h : Sound t) : Sound t.callerStep := by
  cases hcaller : t.caller with
  | away | asleep | paused =>
    simp only [SysThread.callerStep, hcaller]
    exact h
  | forceLocking =>
    simp only [SysThread.callerStep, hcaller]
    by_cases hfree : t.restartPauseMutex = none
    · rw [if_pos hfree]
      exact h.callerLocks hfree rfl (fun hc => by cases hc) (fun hc => by cases hc) (by decide) (by decide)
    · rw [if_neg hfree]
      exact h
  | forcing =>
    simp only [SysThread.callerStep, hcaller]
    exact h.looks (by rw [hcaller]; rfl)
  | awake =>
    simp only [SysThread.callerStep, hcaller]
    by_cases hfree : t.restartPauseMutex = none
    · rw [if_pos hfree]
      exact h.callerLocks hfree rfl (fun _ => by rw [hcaller]; rfl) (fun hc => by cases hc) (by decide) (by decide)
    · rw [if_neg hfree]
      exact h
  | retesting =>
    simp only [SysThread.callerStep, hcaller]
    have hshould : t.threadShouldPause = true := h.forces (by rw [hcaller]; rfl)
    have hlooks := h.looks (by rw [hcaller]; rfl)
    rw [hshould]
    exact hlooks
  | unpauseLocking =>
    simp only [SysThread.callerStep, hcaller]
    by_cases hfree : t.restartPauseMutex = none
    · rw [if_pos hfree]
      exact h.callerLocks hfree rfl (fun _ => by rw [hcaller]; rfl) (fun _ => by rw [hcaller]; rfl) (by decide)
        (by decide)
    · rw [if_neg hfree]
      exact h
  | unpausing =>
    simp only [SysThread.callerStep, hcaller]
    exact h.release hcaller

/-- The thread wakes up by itself. -/
theorem Sound.spuriousWakeup (h : Sound t) : Sound t.spuriousWakeup where
  sysThread_holds := by
    show t.restartPauseMutex = some .sysThread ↔ Place.holds (signalWakeup t.place) = true
    rw [holds_signalWakeup]
    exact h.sysThread_holds
  mainThread_holds := h.mainThread_holds
  working := fun hp => h.working (signalWakeup_eq_working.mp hp)
  pauses := fun hp => h.pauses (by rwa [SysThread.spuriousWakeup, pauses_signalWakeup] at hp)
  forces := h.forces
  hasPaused := h.hasPaused
  away := h.away
  asleep_should_pause := fun hp => absurd hp (signalWakeup_ne_asleep t.place)
  caller_asleep := h.caller_asleep

/-- The main thread wakes up by itself. -/
theorem Sound.spuriousHasPaused (h : Sound t) : Sound t.spuriousHasPaused where
  sysThread_holds := h.sysThread_holds
  mainThread_holds := by
    show t.restartPauseMutex = some .mainThread ↔ Caller.holds (signalHasPaused t.caller) = true
    rw [holds_signalHasPaused]
    exact h.mainThread_holds
  working := h.working
  pauses := h.pauses
  forces := fun hc => h.forces (by rwa [SysThread.spuriousHasPaused, forces_signalHasPaused] at hc)
  hasPaused := fun hc => h.hasPaused (by rwa [SysThread.spuriousHasPaused, hasPaused_signalHasPaused] at hc)
  away := fun hc => h.away (signalHasPaused_eq_away.mp hc)
  asleep_should_pause := h.asleep_should_pause
  caller_asleep := fun hc => absurd hc (signalHasPaused_ne_asleep t.caller)

/-! ## What a step does to the other thread -/

/-- The thread only wakes the main thread up. -/
theorem caller_testPause (t : SysThread) :
    t.testPause.caller = t.caller ∨ t.testPause.caller = signalHasPaused t.caller := by
  cases hplace : t.place <;> simp only [SysThread.testPause, hplace] <;> (try split) <;> simp

/-- The main thread only wakes the thread up. -/
theorem place_callerStep (t : SysThread) :
    t.callerStep.place = t.place ∨ t.callerStep.place = signalWakeup t.place := by
  cases hcaller : t.caller <;> simp only [SysThread.callerStep, hcaller] <;> (try split) <;> simp

/-- The thread that has called `test_pause` is in it, or works. -/
theorem place_testPause {t : SysThread} (hplace : t.place ≠ .starting) : t.testPause.place ≠ .starting := by
  cases hp : t.place with
  | starting => exact absurd hp hplace
  | _ => simp only [SysThread.testPause, hp] <;> (try split) <;> simp [hp]

/-- The main thread stays in `force_thread_to_pause`, or has come back. -/
theorem caller_callerStep_forcing {t : SysThread}
    (h : t.caller ≠ .away ∧ t.caller ≠ .unpauseLocking ∧ t.caller ≠ .unpausing) :
    t.callerStep.caller ≠ .away ∧ t.callerStep.caller ≠ .unpauseLocking ∧ t.callerStep.caller ≠ .unpausing := by
  obtain ⟨haway, hlocking, hunpausing⟩ := h
  cases hcaller : t.caller with
  | away => exact absurd hcaller haway
  | unpauseLocking => exact absurd hcaller hlocking
  | unpausing => exact absurd hcaller hunpausing
  | _ => simp only [SysThread.callerStep, hcaller] <;> (try split) <;> simp_all

/-- The main thread stays in `unpause_thread`, or has come back. -/
theorem caller_callerStep_unpausing {t : SysThread}
    (h : t.caller = .unpauseLocking ∨ t.caller = .unpausing ∨ t.caller = .away) :
    t.callerStep.caller = .unpauseLocking ∨ t.callerStep.caller = .unpausing ∨ t.callerStep.caller = .away := by
  rcases h with hcaller | hcaller | hcaller <;> simp only [SysThread.callerStep, hcaller] <;> (try split) <;>
    simp_all

end SysThread

end Trick.Threads
