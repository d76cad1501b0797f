/-
  The scheduled copies of the variable server are on time.

  `low` is the earliest time at which a session may be due: before the job has been looked at that is
  the time itself, and after that it is the time to which the scheduler goes next.  The invariant says
  that every session and the job keep above it (`SessionInv.low`, `Inv.job`), that the job's time is not
  after any session's time unless a command is on its way to it (`SessionInv.covered`), and how far the
  commands and the job have come with the least time (`CommandInv`, `SchedulerInv`).

  `copies_on_time` is the result for runs whose events meet `EventOk`; `staleTime_run` is a run in which
  the time advances during a command.
-/
import Trick.VariableServer.ScheduledCopy

namespace Trick.VarServer

open Trick.Lib Trick.Exec

/-- The command has stored the session's next time, and not yet the job's. -/
def CommandPc.Stored : CommandPc → Prop
  | .locking | .scanning _ _ | .storing _ => True
  | _ => False

namespace VariableServer

/-! ## First times -/

theorem lt_firstDue {t c : Int} (hc : 1 ≤ c) : t < firstDue t c := by
  have h : t.tmod c < c := Int.tmod_lt_of_pos t (by omega)
  unfold firstDue
  omega

theorem firstDue_le {t c : Int} (ht : 0 ≤ t) : firstDue t c ≤ t + c := by
  have h : 0 ≤ t.tmod c := Int.tmod_nonneg c ht
  unfold firstDue
  omega

/-! ## The invariant -/

/-- The earliest time at which a session or the job may be due. -/
def low (s : VariableServer) : Int :=
  match s.scheduler with
  | .before | .copying _ _ | .storing _ => s.time
  | .called => s.time + 1
  | .after => s.mainQueue.nextJobTime

/-- **What holds of a session.** -/
structure SessionInv (s : VariableServer) (i : ThreadId) : Prop where
  enabled : (s.session i).enabled = true
  cycle : 1 ≤ (s.session i).cycleTics
  low : s.low ≤ (s.session i).nextTics
  /-- A session that is not in scheduled copy mode is never due. -/
  idle : (∀ r, s.command i ≠ .leaving r) → (s.session i).last = none →
    (s.session i).nextTics = maxLongLong
  /-- A session is due one cycle after its last copy, or before. -/
  due : ∀ p ∈ (s.session i).last, (s.session i).nextTics ≤ p.1 + p.2
  mode : (s.session i).last ≠ none → (s.session i).copyMode = .scheduled
  scheduled : (s.session i).copyMode = .scheduled → (s.session i).last = none →
    ∃ t, s.command i = .entering t
  /-- The job is called before the session is due. -/
  covered : ¬ SchedulerPc.InPass s.scheduler → ¬ CommandPc.Stored (s.command i) →
    s.copyDataJob.nextTics ≤ (s.session i).nextTics

/-- **What holds of a command in progress.** -/
structure CommandInv (s : VariableServer) (i : ThreadId) : Prop where
  alive : s.command i ≠ .idle → i ∈ s.sessions
  entering : ∀ t, s.command i = .entering t → t = s.time ∧ (s.session i).copyMode = .scheduled ∧
    (s.scheduler = .after → s.mainQueue.nextJobTime ≤ firstDue t (s.session i).cycleTics) ∧
    ((s.session i).last ≠ none → firstDue t (s.session i).cycleTics ≤ (s.session i).nextTics)
  leaving : ∀ r, s.command i = .leaving r →
    (s.session i).last = none ∧ (s.session i).copyMode ≠ .scheduled
  scanning : ∀ todo m, s.command i = .scanning todo m → s.mapMutex = some (.thread i) ∧
    s.low ≤ m ∧ m ≤ maxLongLong ∧
    ∃ done, s.sessions = done ++ todo ∧ ∀ j ∈ done, m ≤ (s.session j).nextTics
  storing : ∀ m, s.command i = .storing m → s.low ≤ m ∧ m ≤ maxLongLong ∧
    ∀ j ∈ s.sessions, m ≤ (s.session j).nextTics

/-- **What holds of the job in progress.** -/
structure SchedulerInv (s : VariableServer) : Prop where
  copying : ∀ todo m, s.scheduler = .copying todo m → s.mapMutex = some .scheduler ∧
    s.copyDataJob.nextTics = s.time ∧ ∃ done, s.sessions = done ++ todo ∧
      m = earliest maxLongLong (done.map fun j => (s.session j).getNextTics) ∧
      ∀ j ∈ done, s.time < (s.session j).nextTics
  storing : ∀ m, s.scheduler = .storing m → m = s.leastNextTics ∧
    ∀ j ∈ s.sessions, s.time < (s.session j).nextTics

/-- **What the logs say.** -/
structure OnTime (s : VariableServer) : Prop where
  /-- A copy comes at most one cycle after the one before it, or the command. -/
  copies : ∀ c ∈ s.copies, ∃ p, c.last = some p ∧ c.time ≤ p.1 + p.2
  /-- The job's next time is later than the time, and is the least next time of the sessions. -/
  passes : ∀ p ∈ s.passes, p.time < p.nextTics ∧ p.nextTics = p.least

/-- **The invariant.** -/
structure Inv (s : VariableServer) : Prop where
  value : 0 ≤ s.timeTicValue
  frame : 0 < s.softwareFrameTics
  nonneg : 0 ≤ s.time
  time : s.time < maxLongLong
  cache : s.time < s.mainQueue.nextJobTime
  system : s.copyDataJob.systemJobClass = true
  nodup : s.sessions.Nodup
  job : ¬ SchedulerPc.InPass s.scheduler → s.low ≤ s.copyDataJob.nextTics
  jobMax : s.copyDataJob.nextTics ≤ maxLongLong
  session : ∀ i ∈ s.sessions, s.SessionInv i
  command : ∀ i, s.CommandInv i
  /-- One command at a time is on its way to the job's next time. -/
  one : ∀ i j, CommandPc.Recomputes (s.command i) → CommandPc.Recomputes (s.command j) → i = j
  /-- No command is in progress while the job copies sessions. -/
  pass : SchedulerPc.InPass s.scheduler → ∀ i, s.command i = .idle
  scheduler : s.SchedulerInv
  onTime : s.OnTime

variable {s : VariableServer} {i j : ThreadId}

theorem Inv.low_le_max (h : s.Inv) : s.low ≤ maxLongLong := by
  by_cases hpass : SchedulerPc.InPass s.scheduler
  · have hlow : s.low = s.time := by
      unfold low
      cases hs : s.scheduler <;> rw [hs] at hpass <;> first | rfl | exact hpass.elim
    rw [hlow]
    exact le_of_lt h.time
  · exact le_trans (h.job hpass) h.jobMax

/-- A command that recomputes the job's time belongs to a session. -/
theorem Inv.not_recomputes (h : s.Inv) (hno : s.NoRecompute) (i : ThreadId) :
    ¬ CommandPc.Recomputes (s.command i) := by
  intro hc
  by_cases hidle : s.command i = .idle
  · rw [hidle] at hc
    exact hc
  · exact hno i ((h.command i).alive hidle) hc

theorem SessionInv.getNextTics (h : s.SessionInv i) :
    (s.session i).getNextTics = (s.session i).nextTics := if_pos h.enabled

theorem Stored.recomputes {c : CommandPc} (h : CommandPc.Stored c) : CommandPc.Recomputes c := by
  cases c with
  | idle | entering | leaving => exact h.elim
  | locking | scanning | storing => exact trivial

/-! ## A step of the thread of a session -/

/-- **The thread of a session does something outside of a pass.**  Either no other command is on its
    way to the job's time, or this is none, and the session is not due earlier than before. -/
theorem Inv.thread (h : s.Inv) {v : VariableServerSession} {c : CommandPc} {m : Option Owner}
    {n : Int} {s' : VariableServer}
    (heq : s' = { s with
      session := Function.update s.session i v
      command := Function.update s.command i c
      mapMutex := m
      copyDataJob := { s.copyDataJob with nextTics := n } })
    (hpass : ¬ SchedulerPc.InPass s.scheduler)
    (hother : (∀ j, j ≠ i → ¬ CommandPc.Recomputes (s.command j)) ∨
      (¬ CommandPc.Recomputes c ∧ m = s.mapMutex ∧
        ∀ x, x ≤ maxLongLong → x ≤ (s.session i).nextTics → x ≤ v.nextTics))
    (hlow : s.low ≤ n) (hmax : n ≤ maxLongLong)
    (hnext : ∀ j ∈ s.sessions, j ≠ i → ¬ CommandPc.Stored (s.command j) →
      n ≤ (s.session j).nextTics)
    (hsession : s'.SessionInv i) (hcommand : s'.CommandInv i) : s'.Inv := by
  have hv : ∀ j, j ≠ i → s'.session j = s.session j := by
    intro j hj
    rw [heq]
    exact Function.update_of_ne hj _ _
  have hc : ∀ j, j ≠ i → s'.command j = s.command j := by
    intro j hj
    rw [heq]
    exact Function.update_of_ne hj _ _
  have hci : s'.command i = c := by
    rw [heq]
    exact Function.update_self _ _ _
  have hvi : s'.session i = v := by
    rw [heq]
    exact Function.update_self _ _ _
  have hlow' : s'.low = s.low := by
    rw [heq]
    rfl
  have hsched : s'.scheduler = s.scheduler := by
    rw [heq]
  have hsessions : s'.sessions = s.sessions := by
    rw [heq]
  refine
    { value := by rw [heq]; exact h.value
      frame := by rw [heq]; exact h.frame
      nonneg := by rw [heq]; exact h.nonneg
      time := by rw [heq]; exact h.time
      cache := by rw [heq]; exact h.cache
      system := by rw [heq]; exact h.system
      nodup := by rw [heq]; exact h.nodup
      job := fun _ => by rw [hlow', heq]; exact hlow
      jobMax := by rw [heq]; exact hmax
      session := ?_
      command := ?_
      one := ?_
      pass := fun hp => absurd (hsched ▸ hp) hpass
      scheduler := ⟨?_, ?_⟩
      onTime := by rw [heq]; exact ⟨h.onTime.copies, h.onTime.passes⟩ }
  · intro j hj
    rw [hsessions] at hj
    by_cases hij : j = i
    · subst hij
      exact hsession
    · have hs := h.session j hj
      refine ⟨?_, ?_, ?_, ?_, ?_, ?_, ?_, ?_⟩
      · rw [hv j hij]
        exact hs.enabled
      · rw [hv j hij]
        exact hs.cycle
      · rw [hlow', hv j hij]
        exact hs.low
      · rw [hv j hij, hc j hij]
        exact hs.idle
      · rw [hv j hij]
        exact hs.due
      · rw [hv j hij]
        exact hs.mode
      · rw [hv j hij, hc j hij]
        exact hs.scheduled
      · intro _ hstored
        rw [hc j hij] at hstored
        rw [hv j hij, heq]
        exact hnext j hj hij hstored
  · intro j
    by_cases hij : j = i
    · subst hij
      exact hcommand
    · have hcj := h.command j
      -- a command that reads the other sessions has read none that is due earlier now
      have hkeep : CommandPc.Recomputes (s.command j) → s'.mapMutex = s.mapMutex ∧
          ∀ x, x ≤ maxLongLong → ∀ k, x ≤ (s.session k).nextTics → x ≤ (s'.session k).nextTics := by
        intro hrec
        rcases hother with hnone | ⟨-, hm, hraise⟩
        · exact absurd hrec (hnone j hij)
        · refine ⟨?_, fun x hx k hk => ?_⟩
          · rw [heq]
            exact hm
          · by_cases hki : k = i
            · rw [hki, hvi]
              rw [hki] at hk
              exact hraise x hx hk
            · rw [hv k hki]
              exact hk
      refine ⟨?_, ?_, ?_, ?_, ?_⟩
      · rw [hc j hij, hsessions]
        exact hcj.alive
      · rw [hc j hij, hv j hij, heq]
        exact hcj.entering
      · rw [hc j hij, hv j hij]
        exact hcj.leaving
      · intro todo acc hscan
        rw [hc j hij] at hscan
        obtain ⟨hmutex, hacc, haccmax, done, hdone, hle⟩ := hcj.scanning todo acc hscan
        obtain ⟨hm, hraise⟩ := hkeep (by rw [hscan]; exact trivial)
        rw [hm, hlow', hsessions]
        exact ⟨hmutex, hacc, haccmax, done, hdone, fun k hk => hraise acc haccmax k (hle k hk)⟩
      · intro acc hstore
        rw [hc j hij] at hstore
        obtain ⟨hacc, haccmax, hle⟩ := hcj.storing acc hstore
        obtain ⟨-, hraise⟩ := hkeep (by rw [hstore]; exact trivial)
        rw [hlow', hsessions]
        exact ⟨hacc, haccmax, fun k hk => hraise acc haccmax k (hle k hk)⟩
  · intro j k hj hk
    by_cases hji : j = i
    · by_cases hki : k = i
      · rw [hji, hki]
      · rw [hc k hki] at hk
        rw [hji, hci] at hj
        rcases hother with hnone | ⟨hno, -, -⟩
        · exact absurd hk (hnone k hki)
        · exact absurd hj hno
    · rw [hc j hji] at hj
      by_cases hki : k = i
      · rw [hki, hci] at hk
        rcases hother with hnone | ⟨hno, -, -⟩
        · exact absurd hj (hnone j hji)
        · exact absurd hk hno
      · rw [hc k hki] at hk
        exact h.one j k hj hk
  · intro todo acc hcopy
    rw [hsched] at hcopy
    rw [hcopy] at hpass
    exact absurd trivial hpass
  · intro acc hstore
    rw [hsched] at hstore
    rw [hstore] at hpass
    exact absurd trivial hpass

/-! ## Commands -/

theorem Command.recompute_of_scheduled {c : Command} {recompute : Bool}
    (h : c.copyMode = some (.scheduled, recompute)) : recompute = true := by
  cases c with
  | varSync mode =>
    rw [Command.copyMode] at h
    split_ifs at h
    · cases h
      rfl
    · cases h
  | varSetCopyMode mode =>
    rw [Command.copyMode] at h
    split_ifs at h
    · cases h
      rfl
    · cases h
    · cases h
  | varCycle | varExit => cases h

/-- A session in scheduled copy mode is told so again, or a session enters scheduled copy mode. -/
theorem Inv.enter (h : s.Inv) (hi : i ∈ s.sessions) (hidle : s.command i = .idle)
    (hok : s.CopyModeOk i .scheduled true) : (s.setCopyMode i .scheduled true).Inv := by
  obtain ⟨hpass, hno, hfirst⟩ := hok
  obtain ⟨hafter, hagain⟩ := hfirst rfl
  have hs := h.session i hi
  have hstored : ¬ CommandPc.Stored (s.command i) := by
    rw [hidle]
    exact id
  refine h.thread (v := { s.session i with copyMode := .scheduled }) (c := .entering s.time)
    (m := s.mapMutex) (n := s.copyDataJob.nextTics) rfl hpass
    (Or.inl fun j _ => h.not_recomputes (hno rfl) j) (h.job hpass) h.jobMax
    (fun j hj _ hst => (h.session j hj).covered hpass hst) ?_ ?_
  · have hv : (s.setCopyMode i .scheduled true).session i =
        { s.session i with copyMode := .scheduled } := Function.update_self _ _ _
    have hc : (s.setCopyMode i .scheduled true).command i = .entering s.time :=
      Function.update_self _ _ _
    refine ⟨?_, ?_, ?_, ?_, ?_, ?_, ?_, ?_⟩
    · rw [hv]
      exact hs.enabled
    · rw [hv]
      exact hs.cycle
    · rw [hv]
      exact hs.low
    · rw [hv]
      intro _ hnone
      exact hs.idle (fun r hr => by rw [hidle] at hr; cases hr) hnone
    · rw [hv]
      exact hs.due
    · rw [hv]
      exact fun _ => rfl
    · intro _ _
      exact ⟨s.time, hc⟩
    · rw [hv]
      exact fun _ _ => hs.covered hpass hstored
  · have hv : (s.setCopyMode i .scheduled true).session i =
        { s.session i with copyMode := .scheduled } := Function.update_self _ _ _
    have hc : (s.setCopyMode i .scheduled true).command i = .entering s.time :=
      Function.update_self _ _ _
    refine ⟨fun _ => hi, ?_, ?_, ?_, ?_⟩
    · rw [hc, hv]
      rintro t ⟨⟩
      exact ⟨rfl, rfl, hafter, hagain⟩
    · rw [hc]
      exact fun r hr => by cases hr
    · rw [hc]
      exact fun todo acc hr => by cases hr
    · rw [hc]
      exact fun acc hr => by cases hr

/-- A session leaves scheduled copy mode. -/
theorem Inv.leave (h : s.Inv) (hi : i ∈ s.sessions) (hidle : s.command i = .idle) {mode : CopyMode}
    (hmode : mode ≠ .scheduled) {recompute : Bool} (hok : s.CopyModeOk i mode recompute) :
    (s.setCopyMode i mode recompute).Inv := by
  obtain ⟨hpass, hno, -⟩ := hok
  have hs := h.session i hi
  have hstored : ¬ CommandPc.Stored (s.command i) := by
    rw [hidle]
    exact id
  have heq : s.setCopyMode i mode recompute = (s.setSession i { s.session i with
      copyMode := mode
      last := none }).setCommand i (.leaving recompute) := if_neg hmode
  have hother : (∀ j, j ≠ i → ¬ CommandPc.Recomputes (s.command j)) ∨
      (¬ CommandPc.Recomputes (.leaving recompute) ∧ s.mapMutex = s.mapMutex ∧
        ∀ x, x ≤ maxLongLong → x ≤ (s.session i).nextTics → x ≤ (s.session i).nextTics) := by
    cases recompute with
    | true => exact Or.inl fun j _ => h.not_recomputes (hno rfl) j
    | false => exact Or.inr ⟨id, rfl, fun _ _ hx => hx⟩
  rw [heq]
  have hv : ((s.setSession i { s.session i with
      copyMode := mode
      last := none }).setCommand i (.leaving recompute)).session i = { s.session i with
        copyMode := mode
        last := none } := Function.update_self _ _ _
  have hc : ((s.setSession i { s.session i with
      copyMode := mode
      last := none }).setCommand i (.leaving recompute)).command i = .leaving recompute :=
    Function.update_self _ _ _
  refine h.thread (n := s.copyDataJob.nextTics) rfl hpass hother (h.job hpass) h.jobMax
    (fun j hj _ hst => (h.session j hj).covered hpass hst) ?_ ?_
  · refine ⟨?_, ?_, ?_, ?_, ?_, ?_, ?_, ?_⟩
    · rw [hv]
      exact hs.enabled
    · rw [hv]
      exact hs.cycle
    · rw [hv]
      exact hs.low
    · exact fun hleave => absurd hc (hleave recompute)
    · rw [hv]
      exact fun p hp => by cases hp
    · rw [hv]
      exact fun hne => absurd rfl hne
    · rw [hv]
      exact fun hsched => absurd hsched hmode
    · rw [hv]
      exact fun _ _ => hs.covered hpass hstored
  · refine ⟨fun _ => hi, ?_, ?_, ?_, ?_⟩
    · rw [hc]
      exact fun t hr => by cases hr
    · rw [hv]
      exact fun _ _ => ⟨rfl, hmode⟩
    · rw [hc]
      exact fun todo acc hr => by cases hr
    · rw [hc]
      exact fun acc hr => by cases hr

/-- A command that stores nothing that matters to the schedule but the cycle. -/
theorem Inv.setSession (h : s.Inv) (hi : i ∈ s.sessions) (hidle : s.command i = .idle)
    {v : VariableServerSession} (henabled : v.enabled = (s.session i).enabled)
    (hmode : v.copyMode = (s.session i).copyMode) (hnext : v.nextTics = (s.session i).nextTics)
    (hlast : v.last = (s.session i).last) (hcycle : 1 ≤ v.cycleTics) : (s.setSession i v).Inv := by
  have hvi : (s.setSession i v).session i = v := Function.update_self _ _ _
  have hv : ∀ j, j ≠ i → (s.setSession i v).session j = s.session j :=
    fun j hj => Function.update_of_ne hj _ _
  have hnextAll : ∀ j, ((s.setSession i v).session j).nextTics = (s.session j).nextTics := by
    intro j
    by_cases hij : j = i
    · rw [hij, hvi, hnext]
    · rw [hv j hij]
  have hgetAll : ∀ j, ((s.setSession i v).session j).getNextTics = (s.session j).getNextTics := by
    intro j
    unfold VariableServerSession.getNextTics
    rw [hnextAll j]
    by_cases hij : j = i
    · rw [hij, hvi, henabled]
    · rw [hv j hij]
  have hleast : (s.setSession i v).leastNextTics = s.leastNextTics :=
    congrArg (earliest maxLongLong) (List.map_congr_left fun j _ => hgetAll j)
  refine
    { h with
      session := ?_
      command := ?_
      scheduler := ⟨?_, ?_⟩
      onTime := ⟨h.onTime.copies, h.onTime.passes⟩ }
  · intro j hj
    have hs := h.session j hj
    by_cases hij : j = i
    · subst hij
      refine ⟨?_, ?_, ?_, ?_, ?_, ?_, ?_, ?_⟩
      · rw [hvi, henabled]
        exact hs.enabled
      · rw [hvi]
        exact hcycle
      · rw [hvi, hnext]
        exact hs.low
      · rw [hvi, hlast, hnext]
        exact hs.idle
      · rw [hvi, hlast, hnext]
        exact hs.due
      · rw [hvi, hlast, hmode]
        exact hs.mode
      · rw [hvi, hlast, hmode]
        exact hs.scheduled
      · rw [hvi, hnext]
        exact hs.covered
    · refine ⟨?_, ?_, ?_, ?_, ?_, ?_, ?_, ?_⟩ <;> rw [hv j hij]
      · exact hs.enabled
      · exact hs.cycle
      · exact hs.low
      · exact hs.idle
      · exact hs.due
      · exact hs.mode
      · exact hs.scheduled
      · exact hs.covered
  · intro j
    have hcj := h.command j
    refine ⟨hcj.alive, ?_, ?_, ?_, ?_⟩
    · intro t ht
      have hij : j ≠ i := fun hij => by
        rw [hij] at ht
        exact absurd (hidle.symm.trans ht) nofun
      rw [hv j hij]
      exact hcj.entering t ht
    · intro r hr
      have hij : j ≠ i := fun hij => by
        rw [hij] at hr
        exact absurd (hidle.symm.trans hr) nofun
      rw [hv j hij]
      exact hcj.leaving r hr
    · intro todo acc hscan
      obtain ⟨hmutex, hacc, haccmax, done, hdone, hle⟩ := hcj.scanning todo acc hscan
      refine ⟨hmutex, hacc, haccmax, done, hdone, fun k hk => ?_⟩
      rw [hnextAll k]
      exact hle k hk
    · intro acc hstore
      obtain ⟨hacc, haccmax, hle⟩ := hcj.storing acc hstore
      refine ⟨hacc, haccmax, fun k hk => ?_⟩
      rw [hnextAll k]
      exact hle k hk
  · intro todo acc hcopy
    obtain ⟨hmutex, hjob, done, hdone, hacc, hlt⟩ := h.scheduler.copying todo acc hcopy
    refine ⟨hmutex, hjob, done, hdone, ?_, fun k hk => ?_⟩
    · rw [hacc]
      exact congrArg (earliest maxLongLong) (List.map_congr_left fun k _ => (hgetAll k).symm)
    · rw [hnextAll k]
      exact hlt k hk
  · intro acc hstore
    obtain ⟨hacc, hlt⟩ := h.scheduler.storing acc hstore
    refine ⟨hacc.trans hleast.symm, fun k hk => ?_⟩
    rw [hnextAll k]
    exact hlt k hk

theorem Inv.setCopyMode (h : s.Inv) (hi : i ∈ s.sessions) (hidle : s.command i = .idle)
    {c : Command} {mode : CopyMode} {recompute : Bool} (hc : c.copyMode = some (mode, recompute))
    (hok : s.CopyModeOk i mode recompute) : (s.setCopyMode i mode recompute).Inv := by
  by_cases hsched : mode = .scheduled
  · subst hsched
    have hrec : recompute = true := Command.recompute_of_scheduled hc
    subst hrec
    exact h.enter hi hidle hok
  · exact h.leave hi hidle hsched hok

theorem Inv.call (h : s.Inv) {c : Command} (hok : s.CommandOk i c) : (s.call i c).Inv := by
  unfold VariableServer.call
  simp only
  split
  · rename_i hstart
    obtain ⟨hi, hidle, -⟩ := hstart
    cases c with
    | varCycle inRate => exact h.setSession hi hidle rfl rfl rfl rfl hok
    | varExit => exact h.setSession hi hidle rfl rfl rfl rfl (h.session i hi).cycle
    | varSync m =>
      dsimp only
      split
      · rename_i mode recompute hc
        exact h.setCopyMode hi hidle hc (hok _ hc)
      · exact h
    | varSetCopyMode m =>
      dsimp only
      split
      · rename_i mode recompute hc
        exact h.setCopyMode hi hidle hc (hok _ hc)
      · exact h
  · exact h

/-- `var_set_copy_mode` has computed the session's first time. -/
theorem Inv.storeFirst (h : s.Inv) {t : Int} (hentering : s.command i = .entering t) :
    Inv ((s.setSession i { s.session i with
      nextTics := firstDue t (s.session i).cycleTics
      last := (s.session i).last.or (some (t, (s.session i).cycleTics)) }).setCommand i
        .locking) := by
  have hi : i ∈ s.sessions := (h.command i).alive (by rw [hentering]; exact nofun)
  have hs := h.session i hi
  obtain ⟨rfl, hmode, hafter, hagain⟩ := (h.command i).entering t hentering
  have hpass : ¬ SchedulerPc.InPass s.scheduler := by
    intro hp
    rw [h.pass hp i] at hentering
    cases hentering
  have hother : ∀ j, j ≠ i → ¬ CommandPc.Recomputes (s.command j) := by
    intro j hj hrec
    exact hj (h.one j i hrec (by rw [hentering]; exact trivial))
  have hlow : s.low ≤ firstDue s.time (s.session i).cycleTics := by
    have hlt := lt_firstDue (t := s.time) hs.cycle
    unfold low
    cases hphase : s.scheduler with
    | before => exact le_of_lt hlt
    | copying | storing => exact le_of_lt hlt
    | called => exact hlt
    | after => exact hafter hphase
  have hv := Function.update_self i ({ s.session i with
      nextTics := firstDue s.time (s.session i).cycleTics
      last := (s.session i).last.or (some (s.time, (s.session i).cycleTics)) }) s.session
  have hc := Function.update_self i CommandPc.locking s.command
  refine h.thread (n := s.copyDataJob.nextTics) rfl hpass (Or.inl hother) (h.job hpass) h.jobMax
    (fun j hj _ hst => (h.session j hj).covered hpass hst) ?_ ?_
  · refine ⟨?_, ?_, ?_, ?_, ?_, ?_, ?_, ?_⟩ <;>
      dsimp only [VariableServer.setSession, VariableServer.setCommand] <;> rw [hv]
    · exact hs.enabled
    · exact hs.cycle
    · exact hlow
    · intro _ hnone
      exact absurd hnone (by cases (s.session i).last <;> exact nofun)
    · intro p hp
      cases hlast : (s.session i).last with
      | none =>
        rw [hlast] at hp
        cases hp
        exact firstDue_le h.nonneg
      | some q =>
        rw [hlast] at hp
        cases hp
        exact le_trans (hagain (by rw [hlast]; exact nofun)) (hs.due p hlast)
    · exact fun _ => hmode
    · intro _ hnone
      exact absurd hnone (by cases (s.session i).last <;> exact nofun)
    · rw [hc]
      exact fun _ hstored => absurd trivial hstored
  · refine ⟨fun _ => hi, ?_, ?_, ?_, ?_⟩ <;>
      dsimp only [VariableServer.setSession, VariableServer.setCommand] <;> rw [hc]
    · exact fun t hr => by cases hr
    · exact fun r hr => by cases hr
    · exact fun todo acc hr => by cases hr
    · exact fun acc hr => by cases hr

/-- `var_set_copy_mode` has taken the session out of the schedule. -/
theorem Inv.storeNever (h : s.Inv) {recompute : Bool} (hleaving : s.command i = .leaving recompute) :
    Inv ((s.setSession i { s.session i with nextTics := maxLongLong }).setCommand i
      (if recompute then .locking else .idle)) := by
  have hi : i ∈ s.sessions := (h.command i).alive (by rw [hleaving]; exact nofun)
  have hs := h.session i hi
  obtain ⟨hlast, hmode⟩ := (h.command i).leaving recompute hleaving
  have hpass : ¬ SchedulerPc.InPass s.scheduler := by
    intro hp
    rw [h.pass hp i] at hleaving
    cases hleaving
  have hother : (∀ j, j ≠ i → ¬ CommandPc.Recomputes (s.command j)) ∨
      (¬ CommandPc.Recomputes (if recompute then .locking else .idle) ∧ s.mapMutex = s.mapMutex ∧
        ∀ x, x ≤ maxLongLong → x ≤ (s.session i).nextTics → x ≤ maxLongLong) := by
    cases recompute with
    | true =>
      refine Or.inl fun j hj hrec => hj (h.one j i hrec ?_)
      rw [hleaving]
      exact trivial
    | false => exact Or.inr ⟨id, rfl, fun _ hx _ => hx⟩
  have hv := Function.update_self i ({ s.session i with nextTics := maxLongLong }) s.session
  have hc := Function.update_self i (if recompute then CommandPc.locking else .idle) s.command
  refine h.thread (n := s.copyDataJob.nextTics) rfl hpass hother (h.job hpass) h.jobMax
    (fun j hj _ hst => (h.session j hj).covered hpass hst) ?_ ?_
  · refine ⟨?_, ?_, ?_, ?_, ?_, ?_, ?_, ?_⟩ <;>
      dsimp only [VariableServer.setSession, VariableServer.setCommand] <;> rw [hv]
    · exact hs.enabled
    · exact hs.cycle
    · exact h.low_le_max
    · exact fun _ _ => rfl
    · rw [hlast]
      exact fun p hp => by cases hp
    · exact fun hne => absurd hlast hne
    · exact fun hsched => absurd hsched hmode
    · exact fun _ _ => h.jobMax
  · refine ⟨fun _ => hi, ?_, ?_, ?_, ?_⟩ <;>
      dsimp only [VariableServer.setSession, VariableServer.setCommand] <;> rw [hc] <;>
      cases recompute
    · exact fun t hr => by cases hr
    · exact fun t hr => by cases hr
    · exact fun r hr => by cases hr
    · exact fun r hr => by cases hr
    · exact fun todo acc hr => by cases hr
    · exact fun todo acc hr => by cases hr
    · exact fun acc hr => by cases hr
    · exact fun acc hr => by cases hr

theorem Inv.storeNext (h : s.Inv) (i : ThreadId) : (s.storeNext i).Inv := by
  unfold VariableServer.storeNext
  simp only
  split
  · rename_i t hentering
    split
    · exact h
    · exact h.storeFirst hentering
  · rename_i recompute hleaving
    exact h.storeNever hleaving
  · exact h

/-! ## `get_next_sync_call_time` -/

/-- A step of a command on its way to the job's time. -/
theorem Inv.recompute (h : s.Inv) {c : CommandPc} {m : Option Owner} {n : Int}
    (hold : CommandPc.Stored (s.command i)) (hlow : s.low ≤ n) (hmax : n ≤ maxLongLong)
    (hnext : ∀ j ∈ s.sessions, (j ≠ i ∨ ¬ CommandPc.Stored c) →
      ¬ SchedulerPc.InPass s.scheduler → (j ≠ i → ¬ CommandPc.Stored (s.command j)) →
      n ≤ (s.session j).nextTics)
    (hcommand : CommandInv { s with
      command := Function.update s.command i c
      mapMutex := m
      copyDataJob := { s.copyDataJob with nextTics := n } } i) :
    Inv { s with
      command := Function.update s.command i c
      mapMutex := m
      copyDataJob := { s.copyDataJob with nextTics := n } } := by
  have hrec : CommandPc.Recomputes (s.command i) := Stored.recomputes hold
  have hpass : ¬ SchedulerPc.InPass s.scheduler := by
    intro hp
    rw [h.pass hp i] at hold
    exact hold
  have hi : i ∈ s.sessions := (h.command i).alive fun hidle => by
    rw [hidle] at hold
    exact hold
  have hs := h.session i hi
  have hother : ∀ j, j ≠ i → ¬ CommandPc.Recomputes (s.command j) :=
    fun j hj hrec' => hj (h.one j i hrec' hrec)
  have hleave : ∀ r, s.command i ≠ .leaving r := by
    intro r hr
    rw [hr] at hold
    exact hold
  refine h.thread (v := s.session i) (c := c) (m := m) (n := n) ?_ hpass (Or.inl hother) hlow
    hmax (fun j hj hji hst => hnext j hj (Or.inl hji) hpass fun _ => hst) ?_ hcommand
  · rw [Function.update_eq_self]
  · have hcc := Function.update_self i c s.command
    refine ⟨hs.enabled, hs.cycle, hs.low, fun _ => hs.idle hleave, hs.due, hs.mode, ?_, ?_⟩
    · intro hsched hnone
      obtain ⟨t, ht⟩ := hs.scheduled hsched hnone
      rw [ht] at hold
      exact hold.elim
    · intro _ hstored
      dsimp only at hstored
      rw [hcc] at hstored
      exact hnext i hi (Or.inr hstored) hpass fun hne => absurd rfl hne

theorem Inv.lock (h : s.Inv) (i : ThreadId) : (s.lock i).Inv := by
  unfold VariableServer.lock
  split
  · rename_i hlock
    obtain ⟨hlocking, hfree⟩ := hlock
    have hold : CommandPc.Stored (s.command i) := by
      rw [hlocking]
      exact trivial
    have hpass : ¬ SchedulerPc.InPass s.scheduler := by
      intro hp
      rw [h.pass hp i] at hlocking
      cases hlocking
    refine h.recompute (c := .scanning s.sessions maxLongLong) (m := some (.thread i)) hold
      (h.job hpass) h.jobMax ?_ ?_
    · intro j hj hji _ hst
      have hne : j ≠ i := hji.resolve_right fun hno => hno trivial
      exact (h.session j hj).covered hpass (hst hne)
    · have hc := Function.update_self i (CommandPc.scanning s.sessions maxLongLong) s.command
      have hi : i ∈ s.sessions := (h.command i).alive (by rw [hlocking]; exact nofun)
      refine ⟨fun _ => hi, ?_, ?_, ?_, ?_⟩ <;> dsimp only <;> rw [hc]
      · exact fun t hr => by cases hr
      · exact fun r hr => by cases hr
      · intro todo acc hr
        cases hr
        refine ⟨rfl, h.low_le_max, le_refl _, [], rfl, ?_⟩
        exact fun j hj => by cases hj
      · exact fun acc hr => by cases hr
  · exact h

theorem Inv.scan (h : s.Inv) (i : ThreadId) : (s.scan i).Inv := by
  unfold VariableServer.scan
  have hkeep : CommandPc.Stored (s.command i) → ¬ SchedulerPc.InPass s.scheduler ∧ i ∈ s.sessions := by
    intro hold
    refine ⟨fun hp => ?_, (h.command i).alive fun hidle => ?_⟩
    · rw [h.pass hp i] at hold
      exact hold
    · rw [hidle] at hold
      exact hold
  split
  · rename_i acc hscan
    have hold : CommandPc.Stored (s.command i) := by
      rw [hscan]
      exact trivial
    obtain ⟨hpass, hi⟩ := hkeep hold
    obtain ⟨hmutex, hacc, haccmax, done, hdone, hle⟩ := (h.command i).scanning [] acc hscan
    rw [List.append_nil] at hdone
    refine h.recompute (c := .storing acc) (m := none) hold (h.job hpass) h.jobMax ?_ ?_
    · intro j hj hji _ hst
      have hne : j ≠ i := hji.resolve_right fun hno => hno trivial
      exact (h.session j hj).covered hpass (hst hne)
    · have hc := Function.update_self i (CommandPc.storing acc) s.command
      refine ⟨fun _ => hi, ?_, ?_, ?_, ?_⟩ <;> dsimp only <;> rw [hc]
      · exact fun t hr => by cases hr
      · exact fun r hr => by cases hr
      · exact fun todo acc hr => by cases hr
      · intro acc' hr
        cases hr
        refine ⟨hacc, haccmax, ?_⟩
        rw [hdone]
        exact hle
  · rename_i j todo acc hscan
    have hold : CommandPc.Stored (s.command i) := by
      rw [hscan]
      exact trivial
    obtain ⟨hpass, hi⟩ := hkeep hold
    obtain ⟨hmutex, hacc, haccmax, done, hdone, hle⟩ := (h.command i).scanning (j :: todo) acc hscan
    have hj : j ∈ s.sessions := by
      rw [hdone]
      exact List.mem_append_right _ List.mem_cons_self
    have hsj := h.session j hj
    simp only
    generalize hacc' : (if (s.session j).getNextTics < acc then (s.session j).getNextTics
      else acc) = acc'
    rw [hsj.getNextTics] at hacc'
    have hleacc : acc' ≤ acc ∧ acc' ≤ (s.session j).nextTics ∧ s.low ≤ acc' := by
      have hlow := hsj.low
      rw [← hacc']
      split
      · rename_i hlt
        exact ⟨le_of_lt hlt, le_refl _, hlow⟩
      · rename_i hlt
        exact ⟨le_refl _, not_lt.mp hlt, hacc⟩
    refine h.recompute (c := .scanning todo acc') (m := s.mapMutex) hold (h.job hpass) h.jobMax ?_ ?_
    · intro k hk hki _ hst
      have hne : k ≠ i := hki.resolve_right fun hno => hno trivial
      exact (h.session k hk).covered hpass (hst hne)
    · have hc := Function.update_self i (CommandPc.scanning todo acc') s.command
      refine ⟨fun _ => hi, ?_, ?_, ?_, ?_⟩ <;> dsimp only <;> rw [hc]
      · exact fun t hr => by cases hr
      · exact fun r hr => by cases hr
      · intro todo' acc'' hr
        cases hr
        refine ⟨hmutex, hleacc.2.2, le_trans hleacc.1 haccmax, done ++ [j], ?_, ?_⟩
        · rw [hdone, List.append_assoc]
          rfl
        · intro k hk
          rcases List.mem_append.mp hk with hk | hk
          · exact le_trans hleacc.1 (hle k hk)
          · rw [List.mem_singleton.mp hk]
            exact hleacc.2.1
      · exact fun acc hr => by cases hr
  · exact h

theorem Inv.storeJob (h : s.Inv) (i : ThreadId) : (s.storeJob i).Inv := by
  unfold VariableServer.storeJob
  split
  · rename_i acc hstore
    have hold : CommandPc.Stored (s.command i) := by
      rw [hstore]
      exact trivial
    obtain ⟨hacc, haccmax, hle⟩ := (h.command i).storing acc hstore
    have hi : i ∈ s.sessions := (h.command i).alive (by rw [hstore]; exact nofun)
    refine h.recompute (c := .idle) (m := s.mapMutex) hold hacc haccmax
      (fun j hj _ _ _ => hle j hj) ?_
    have hc := Function.update_self i CommandPc.idle s.command
    refine ⟨fun _ => hi, ?_, ?_, ?_, ?_⟩ <;> dsimp only <;> rw [hc]
    · exact fun t hr => by cases hr
    · exact fun r hr => by cases hr
    · exact fun todo acc hr => by cases hr
    · exact fun acc hr => by cases hr
  · exact h

/-! ## Sessions come and go -/

theorem create_inv {timeTicValue : Int} (h : 0 ≤ timeTicValue) :
    1 ≤ (VariableServerSession.create timeTicValue).cycleTics := by
  have htics : 0 ≤ toTics timeTicValue (1 / 10) := toTics_nonneg h (by norm_num)
  show 1 ≤ if toTics timeTicValue (1 / 10) = 0 then 1 else toTics timeTicValue (1 / 10)
  split
  · exact le_refl _
  · omega

/-- A new session is never due. -/
theorem leastNextTics_insert (hi : i ∉ s.sessions) {v : VariableServerSession}
    (hv : v.getNextTics = maxLongLong) :
    leastNextTics { s with
      sessions := s.sessions.orderedInsert (· ≤ ·) i
      session := Function.update s.session i v } = s.leastNextTics := by
  symm
  apply eq_earliest
  · exact earliest_le_top _ _
  · intro x hx
    obtain ⟨j, hj, rfl⟩ := List.mem_map.mp hx
    by_cases hij : j = i
    · rw [hij]
      dsimp only
      rw [Function.update_self, hv]
      exact earliest_le_top _ _
    · dsimp only
      rw [Function.update_of_ne hij]
      rcases (List.mem_orderedInsert _).mp hj with heq | hj
      · exact absurd heq hij
      · exact earliest_le_of_mem (List.mem_map_of_mem hj)
  · by_cases htop : s.leastNextTics = maxLongLong
    · exact Or.inl htop
    · right
      obtain ⟨j, hj, heq⟩ := List.mem_map.mp (earliest_mem htop)
      have hij : j ≠ i := fun hij => hi (hij ▸ hj)
      refine List.mem_map.mpr ⟨j, (List.mem_orderedInsert _).mpr (Or.inr hj), ?_⟩
      dsimp only
      rw [Function.update_of_ne hij]
      exact heq

theorem Inv.addSession (h : s.Inv) (i : ThreadId) : (s.addSession i).Inv := by
  unfold VariableServer.addSession
  split
  · rename_i hnew
    obtain ⟨hi, hfree⟩ := hnew
    have hidle : s.command i = .idle := by
      by_contra hne
      exact hi ((h.command i).alive hne)
    have hmem : ∀ {j}, j ∈ s.sessions.orderedInsert (· ≤ ·) i → j ≠ i → j ∈ s.sessions := by
      intro j hj hij
      exact ((List.mem_orderedInsert _).mp hj).resolve_left hij
    refine
      { h with
        nodup := ?_
        session := ?_
        command := ?_
        scheduler := ⟨?_, ?_⟩
        onTime := ⟨h.onTime.copies, h.onTime.passes⟩ }
    · rw [(List.perm_orderedInsert _ i s.sessions).nodup_iff]
      exact List.nodup_cons.mpr ⟨hi, h.nodup⟩
    · intro j hj
      by_cases hij : j = i
      · subst hij
        have hv := Function.update_self j (VariableServerSession.create s.timeTicValue) s.session
        refine ⟨?_, ?_, ?_, ?_, ?_, ?_, ?_, ?_⟩ <;> dsimp only <;> rw [hv]
        · rfl
        · exact create_inv h.value
        · exact h.low_le_max
        · exact fun _ _ => rfl
        · exact fun p hp => by cases hp
        · exact fun hne => absurd rfl hne
        · exact fun hsched => by cases hsched
        · exact fun _ _ => h.jobMax
      · have hs := h.session j (hmem hj hij)
        have hv := Function.update_of_ne hij (VariableServerSession.create s.timeTicValue) s.session
        refine ⟨?_, ?_, ?_, ?_, ?_, ?_, ?_, ?_⟩ <;> dsimp only <;> rw [hv]
        · exact hs.enabled
        · exact hs.cycle
        · exact hs.low
        · exact hs.idle
        · exact hs.due
        · exact hs.mode
        · exact hs.scheduled
        · exact hs.covered
    · intro j
      have hcj := h.command j
      have hne : s.command j ≠ .idle →
          Function.update s.session i (VariableServerSession.create s.timeTicValue) j =
            s.session j := by
        intro hc
        refine Function.update_of_ne (fun hij => hc ?_) _ _
        rw [hij]
        exact hidle
      refine ⟨fun hc => (List.mem_orderedInsert _).mpr (Or.inr (hcj.alive hc)), ?_, ?_, ?_, ?_⟩
      · intro t ht
        dsimp only at ht ⊢
        rw [hne (by rw [ht]; exact nofun)]
        exact hcj.entering t ht
      · intro r hr
        dsimp only at hr ⊢
        rw [hne (by rw [hr]; exact nofun)]
        exact hcj.leaving r hr
      · intro todo acc hscan
        obtain ⟨hmutex, -⟩ := hcj.scanning todo acc hscan
        rw [hfree] at hmutex
        cases hmutex
      · intro acc hstore
        obtain ⟨hacc, haccmax, hle⟩ := hcj.storing acc hstore
        refine ⟨hacc, haccmax, fun k hk => ?_⟩
        dsimp only
        by_cases hki : k = i
        · rw [hki, Function.update_self]
          exact haccmax
        · rw [Function.update_of_ne hki]
          exact hle k (hmem hk hki)
    · intro todo acc hcopy
      obtain ⟨hmutex, -⟩ := h.scheduler.copying todo acc hcopy
      rw [hfree] at hmutex
      cases hmutex
    · intro acc hstore
      obtain ⟨hacc, hlt⟩ := h.scheduler.storing acc hstore
      refine ⟨hacc.trans (leastNextTics_insert hi rfl).symm, fun k hk => ?_⟩
      dsimp only
      by_cases hki : k = i
      · rw [hki, Function.update_self]
        exact h.time
      · rw [Function.update_of_ne hki]
        exact hlt k (hmem hk hki)
  · exact h

theorem Inv.deleteSession (h : s.Inv) (hpass : ¬ SchedulerPc.InPass s.scheduler) (i : ThreadId) :
    (s.deleteSession i).Inv := by
  unfold VariableServer.deleteSession
  split
  · rename_i hgone
    obtain ⟨hidle, hfree⟩ := hgone
    refine
      { h with
        nodup := h.nodup.erase i
        session := fun j hj => ?_
        command := ?_
        scheduler := ⟨?_, ?_⟩
        onTime := ⟨h.onTime.copies, h.onTime.passes⟩ }
    · have hs := h.session j (List.mem_of_mem_erase hj)
      exact ⟨hs.enabled, hs.cycle, hs.low, hs.idle, hs.due, hs.mode, hs.scheduled, hs.covered⟩
    · intro j
      have hcj := h.command j
      refine ⟨fun hc => ?_, hcj.entering, hcj.leaving, ?_, ?_⟩
      · have hij : j ≠ i := fun hij => by
          rw [hij] at hc
          exact hc hidle
        exact (List.mem_erase_of_ne hij).mpr (hcj.alive hc)
      · intro todo acc hscan
        obtain ⟨hmutex, -⟩ := hcj.scanning todo acc hscan
        rw [hfree] at hmutex
        cases hmutex
      · intro acc hstore
        obtain ⟨hacc, haccmax, hle⟩ := hcj.storing acc hstore
        exact ⟨hacc, haccmax, fun k hk => hle k (List.mem_of_mem_erase hk)⟩
    · intro todo acc hcopy
      dsimp only at hcopy
      rw [hcopy] at hpass
      exact absurd trivial hpass
    · intro acc hstore
      dsimp only at hstore
      rw [hstore] at hpass
      exact absurd trivial hpass
  · exact h

/-! ## The scheduler -/

/-- The scan has passed the job, and no command is on its way to its time. -/
theorem Inv.passed (h : s.Inv) (hpass : ¬ SchedulerPc.InPass s.scheduler) (hno : s.NoRecompute)
    {q : ScheduledJobQueue} (hcache : s.time < q.nextJobTime)
    (hjob : q.nextJobTime ≤ s.copyDataJob.nextTics) :
    Inv { s with
      mainQueue := q
      scheduler := .after } := by
  have hnone := h.not_recomputes hno
  have hcovered : ∀ i ∈ s.sessions, s.copyDataJob.nextTics ≤ (s.session i).nextTics :=
    fun i hi => (h.session i hi).covered hpass fun hst => hnone i (Stored.recomputes hst)
  refine
    { h with
      cache := hcache
      job := fun _ => hjob
      session := fun i hi => ?_
      command := fun i => ?_
      pass := fun hp => hp.elim
      scheduler := ⟨fun _ _ hcopy => (by cases hcopy), fun _ hstore => (by cases hstore)⟩
      onTime := ⟨h.onTime.copies, h.onTime.passes⟩ }
  · have hs := h.session i hi
    exact ⟨hs.enabled, hs.cycle, le_trans hjob (hcovered i hi), hs.idle, hs.due, hs.mode,
      hs.scheduled, fun _ _ => hcovered i hi⟩
  · have hci := h.command i
    refine ⟨hci.alive, ?_, hci.leaving, ?_, ?_⟩
    · intro t ht
      exact absurd (by rw [ht]; exact trivial) (hnone i)
    · intro todo acc hscan
      exact absurd (by rw [hscan]; exact trivial) (hnone i)
    · intro acc hstore
      exact absurd (by rw [hstore]; exact trivial) (hnone i)

theorem Inv.look (h : s.Inv) (hok : s.EventOk .look) : s.look.Inv := by
  obtain ⟨hno, hleave⟩ := hok
  unfold VariableServer.look
  split
  · rename_i hbefore
    have hpass : ¬ SchedulerPc.InPass s.scheduler := by
      rw [hbefore]
      exact id
    have hlow : s.low = s.time := by
      unfold low
      rw [hbefore]
    split
    · rename_i hdue
      split
      · rename_i hfree
        have hidle : ∀ i, s.command i = .idle := by
          intro i
          by_contra hne
          have hi := (h.command i).alive hne
          cases hc : s.command i with
          | idle => exact hne hc
          | leaving r =>
            cases r with
            | true => exact hno i hi (by rw [hc]; exact trivial)
            | false => exact hleave hdue i hi hc
          | entering | locking | scanning | storing => exact hno i hi (by rw [hc]; exact trivial)
        refine
          { h with
            job := fun hp => absurd trivial hp
            session := fun i hi => ?_
            command := fun i => ?_
            pass := fun _ => hidle
            scheduler := ⟨?_, fun acc hstore => by cases hstore⟩
            onTime := ⟨h.onTime.copies, h.onTime.passes⟩ }
        · have hs := h.session i hi
          exact ⟨hs.enabled, hs.cycle, hlow ▸ hs.low, hs.idle, hs.due, hs.mode, hs.scheduled,
            fun hp => absurd trivial hp⟩
        · have hci := hidle i
          refine ⟨fun hne => absurd hci hne, ?_, ?_, ?_, ?_⟩ <;> dsimp only <;> rw [hci]
          · exact fun t hr => by cases hr
          · exact fun r hr => by cases hr
          · exact fun todo acc hr => by cases hr
          · exact fun acc hr => by cases hr
        · intro todo acc hcopy
          cases hcopy
          exact ⟨rfl, hdue, [], rfl, rfl, fun j hj => by cases hj⟩
      · exact h
    · rename_i hlater
      have hjob : s.time < s.copyDataJob.nextTics := by
        have hle := h.job hpass
        rw [hlow] at hle
        exact lt_of_le_of_ne hle (Ne.symm hlater)
      have htrack : trackVisited s.time s.copyDataJob s.mainQueue.nextJobTime =
          if s.copyDataJob.nextTics < s.mainQueue.nextJobTime then s.copyDataJob.nextTics
          else s.mainQueue.nextJobTime := by
        unfold trackVisited
        rw [if_neg (fun hc => hlater hc.1), if_neg (not_lt.mpr (le_of_lt hjob)),
          JobData.visited_of_system h.system]
      have hcache := h.cache
      refine h.passed hpass hno ?_ ?_
      · show s.time < trackVisited _ _ _
        rw [htrack]
        split
        · exact hjob
        · exact hcache
      · show trackVisited _ _ _ ≤ _
        rw [htrack]
        split
        · exact le_refl _
        · rename_i hlt
          exact not_lt.mp hlt
  · exact h

theorem Inv.testNextJobCallTime (h : s.Inv) (hno : s.NoRecompute) : s.testNextJobCallTime.Inv := by
  unfold VariableServer.testNextJobCallTime
  split
  · rename_i hcalled
    have hpass : ¬ SchedulerPc.InPass s.scheduler := by
      rw [hcalled]
      exact id
    have hjob : s.time + 1 ≤ s.copyDataJob.nextTics := by
      have hle := h.job hpass
      unfold low at hle
      rw [hcalled] at hle
      exact hle
    have hcache := h.cache
    apply h.passed hpass hno
    · unfold ScheduledJobQueue.testNextJobCallTime
      split
      · exact hjob
      · exact hcache
    · unfold ScheduledJobQueue.testNextJobCallTime
      split
      · exact le_refl _
      · rename_i hlt
        by_contra hle
        exact hlt ⟨hjob, not_le.mp hle⟩
  · exact h

theorem Inv.advanceSimTime (h : s.Inv) (hno : s.NoRecompute) (other : Int) :
    (s.advanceSimTime other).Inv := by
  unfold VariableServer.advanceSimTime
  split
  · rename_i hadvance
    obtain ⟨hafter, hother, hmax⟩ := hadvance
    have hpass : ¬ SchedulerPc.InPass s.scheduler := by
      rw [hafter]
      exact id
    have hlow : s.low = s.mainQueue.nextJobTime := by
      unfold low
      rw [hafter]
    have hjob := h.job hpass
    have hcache := h.cache
    rw [hlow] at hjob
    have hnone := h.not_recomputes hno
    simp only
    generalize htime : (if s.mainQueue.nextJobTime < other ∧ s.mainQueue.nextJobTime > s.time
      then s.mainQueue.nextJobTime else other) = time
    have hbounds : s.time < time ∧ time < maxLongLong ∧ time ≤ s.mainQueue.nextJobTime := by
      rw [← htime]
      split
      · rename_i hnext
        exact ⟨hcache, lt_trans hnext.1 hmax, le_refl _⟩
      · rename_i hnext
        refine ⟨hother, hmax, ?_⟩
        by_contra hlt
        exact hnext ⟨not_le.mp hlt, hcache⟩
    obtain ⟨hlater, htmax, hnext⟩ := hbounds
    refine
      { h with
        nonneg := le_trans h.nonneg (le_of_lt hlater)
        time := htmax
        cache := ?_
        job := fun _ => le_trans hnext hjob
        session := fun i hi => ?_
        command := fun i => ?_
        pass := fun hp => hp.elim
        scheduler := ⟨fun _ _ hcopy => (by cases hcopy), fun _ hstore => (by cases hstore)⟩
        onTime := ⟨h.onTime.copies, h.onTime.passes⟩ }
    · exact lt_add_of_pos_right time h.frame
    · have hs := h.session i hi
      have hle := hs.low
      rw [hlow] at hle
      exact ⟨hs.enabled, hs.cycle, le_trans hnext hle, hs.idle, hs.due, hs.mode, hs.scheduled,
        fun _ => hs.covered hpass⟩
    · have hci := h.command i
      refine ⟨hci.alive, ?_, hci.leaving, ?_, ?_⟩
      · intro t ht
        exact absurd (by rw [ht]; exact trivial) (hnone i)
      · intro todo acc hscan
        exact absurd (by rw [hscan]; exact trivial) (hnone i)
      · intro acc hstore
        exact absurd (by rw [hstore]; exact trivial) (hnone i)
  · exact h

/-! ## The job -/

/-- A session that is in scheduled copy mode, and of which no command is in progress. -/
theorem SessionInv.last_of_scheduled (h : s.SessionInv i) (hidle : s.command i = .idle)
    (hmode : (s.session i).copyMode = .scheduled) : ∃ p, (s.session i).last = some p := by
  cases hlast : (s.session i).last with
  | some p => exact ⟨p, rfl⟩
  | none =>
    obtain ⟨t, ht⟩ := h.scheduled hmode hlast
    rw [hidle] at ht
    cases ht

/-- **One session of the pass.**  `v` is the session after it. -/
theorem Inv.copied (h : s.Inv) {todo : List ThreadId} {acc : Int}
    (hcopy : s.scheduler = .copying (i :: todo) acc) {v : VariableServerSession}
    {l : List Copy} {next : Int} (hnext : next = v.getNextTics) (hsession : SessionInv { s with
      session := Function.update s.session i v
      scheduler := .copying todo (if next < acc then next else acc)
      copies := l } i)
    (hlt : s.time < v.nextTics)
    (hcopies : ∀ c ∈ l, ∃ p, c.last = some p ∧ c.time ≤ p.1 + p.2) :
    Inv { s with
      session := Function.update s.session i v
      scheduler := .copying todo (if next < acc then next else acc)
      copies := l } := by
  have hidle := h.pass (by rw [hcopy]; exact trivial)
  obtain ⟨hmutex, hjob, done, hdone, hacc, hlater⟩ := h.scheduler.copying _ _ hcopy
  have hnot : i ∉ done := by
    have hnodup := h.nodup
    rw [hdone, List.nodup_append] at hnodup
    exact fun hi => hnodup.2.2 i hi i List.mem_cons_self rfl
  have hsame : ∀ j, j ≠ i → Function.update s.session i v j = s.session j :=
    fun j hj => Function.update_of_ne hj _ _
  have hmem : ∀ j ∈ done, j ≠ i := fun j hj hij => hnot (hij ▸ hj)
  refine
    { h with
      job := fun hp => absurd trivial hp
      session := fun j hj => ?_
      command := fun j => ?_
      pass := fun _ => hidle
      scheduler := ⟨?_, fun _ hstore => (by cases hstore)⟩
      onTime := ⟨hcopies, h.onTime.passes⟩ }
  · by_cases hij : j = i
    · rw [hij]
      exact hsession
    · have hs := h.session j hj
      have hlow := hs.low
      unfold low at hlow
      rw [hcopy] at hlow
      refine ⟨?_, ?_, ?_, ?_, ?_, ?_, ?_, fun hp => absurd trivial hp⟩ <;> dsimp only <;>
        rw [hsame j hij]
      · exact hs.enabled
      · exact hs.cycle
      · exact hlow
      · exact hs.idle
      · exact hs.due
      · exact hs.mode
      · exact hs.scheduled
  · have hj := hidle j
    refine ⟨fun hne => absurd hj hne, ?_, ?_, ?_, ?_⟩ <;> dsimp only <;> rw [hj]
    · exact fun t hr => by cases hr
    · exact fun r hr => by cases hr
    · exact fun todo acc hr => by cases hr
    · exact fun acc hr => by cases hr
  · rintro todo' acc' ⟨⟩
    refine ⟨hmutex, hjob, done ++ [i], ?_, ?_, ?_⟩
    · rw [List.append_assoc]
      exact hdone
    · dsimp only
      rw [List.map_append, List.map_singleton, earliest_concat, Function.update_self, hacc, hnext]
      have hmap : (done.map fun j => (Function.update s.session i v j).getNextTics) =
          done.map fun j => (s.session j).getNextTics :=
        List.map_congr_left fun j hj => by rw [hsame j (hmem j hj)]
      rw [hmap]
    · intro j hj
      dsimp only
      rcases List.mem_append.mp hj with hj | hj
      · rw [hsame j (hmem j hj)]
        exact hlater j hj
      · rw [List.mem_singleton.mp hj, Function.update_self]
        exact hlt

theorem Inv.copySession (h : s.Inv) : s.copySession.Inv := by
  unfold VariableServer.copySession
  split
  · -- all sessions have been copied
    rename_i acc hcopy
    have hidle := h.pass (by rw [hcopy]; exact trivial)
    obtain ⟨hmutex, hjob, done, hdone, hacc, hlater⟩ := h.scheduler.copying _ _ hcopy
    rw [List.append_nil] at hdone
    refine
      { h with
        job := fun hp => absurd trivial hp
        session := fun j hj => ?_
        command := fun j => ?_
        pass := fun _ => hidle
        scheduler := ⟨fun _ _ hr => (by cases hr), ?_⟩
        onTime := ⟨h.onTime.copies, h.onTime.passes⟩ }
    · have hs := h.session j hj
      have hlow := hs.low
      unfold low at hlow
      rw [hcopy] at hlow
      exact ⟨hs.enabled, hs.cycle, hlow, hs.idle, hs.due, hs.mode, hs.scheduled,
        fun hp => absurd trivial hp⟩
    · have hj := hidle j
      refine ⟨fun hne => absurd hj hne, ?_, ?_, ?_, ?_⟩ <;> dsimp only <;> rw [hj]
      · exact fun t hr => by cases hr
      · exact fun r hr => by cases hr
      · exact fun todo acc hr => by cases hr
      · exact fun acc hr => by cases hr
    · rintro acc' ⟨⟩
      refine ⟨?_, ?_⟩
      · show acc = earliest maxLongLong (s.sessions.map _)
        rw [hdone]
        exact hacc
      · show ∀ j ∈ s.sessions, _
        rw [hdone]
        exact hlater
  · rename_i i todo acc hcopy
    have hidle := h.pass (by rw [hcopy]; exact trivial)
    obtain ⟨-, hjob, done, hdone, -⟩ := h.scheduler.copying _ _ hcopy
    have hi : i ∈ s.sessions := by
      rw [hdone]
      exact List.mem_append_right _ List.mem_cons_self
    have hs := h.session i hi
    have hlow : s.time ≤ (s.session i).nextTics := by
      have hlow := hs.low
      unfold low at hlow
      rw [hcopy] at hlow
      exact hlow
    unfold copyAndWriteScheduled
    simp only
    rw [hjob]
    by_cases hcopies : (s.session i).Copies s.time
    · rw [if_pos hcopies]
      obtain ⟨p, hp⟩ := hs.last_of_scheduled (hidle i) hcopies.2.1
      have hv := Function.update_self i ({ s.session i with
        nextTics := s.time + (s.session i).cycleTics
        last := some (s.time, (s.session i).cycleTics) }) s.session
      have hcycle := hs.cycle
      refine h.copied hcopy (congrArg VariableServerSession.getNextTics hv) ?_ (by dsimp only; omega)
        ?_
      · refine ⟨?_, ?_, ?_, ?_, ?_, ?_, ?_, fun hp => absurd trivial hp⟩ <;> dsimp only <;> rw [hv]
        · exact hs.enabled
        · exact hcycle
        · show s.time ≤ s.time + (s.session i).cycleTics
          omega
        · exact fun _ hnone => by cases hnone
        · rintro q ⟨⟩
          exact le_refl _
        · exact fun _ => hcopies.2.1
        · exact fun _ hnone => by cases hnone
      · intro c hc
        rcases List.mem_append.mp hc with hc | hc
        · exact h.onTime.copies c hc
        · rw [List.mem_singleton.mp hc]
          exact ⟨p, hp, le_trans hlow (hs.due p hp)⟩
    · rw [if_neg hcopies]
      -- a session that is due now is in scheduled copy mode
      have hlt : s.time < (s.session i).nextTics := by
        by_contra hle
        have hdue : (s.session i).nextTics = s.time := le_antisymm (not_lt.mp hle) hlow
        cases hlast : (s.session i).last with
        | none =>
          have hnever := hs.idle (fun r hr => by rw [hidle i] at hr; cases hr) hlast
          have htime := h.time
          omega
        | some p =>
          exact hcopies ⟨hs.enabled, hs.mode (by rw [hlast]; exact nofun), le_of_eq hdue⟩
      have hcopied := h.copied hcopy (v := s.session i) (l := s.copies) rfl
      rw [Function.update_eq_self] at hcopied
      apply hcopied
      · exact ⟨hs.enabled, hs.cycle, hlow, hs.idle, hs.due, hs.mode, hs.scheduled,
          fun hp => absurd trivial hp⟩
      · exact hlt
      · exact h.onTime.copies
  · exact h

theorem Inv.storeNextCall (h : s.Inv) : s.storeNextCall.Inv := by
  unfold VariableServer.storeNextCall
  split
  · rename_i acc hstore
    have hidle := h.pass (by rw [hstore]; exact trivial)
    obtain ⟨hacc, hlater⟩ := h.scheduler.storing acc hstore
    have hget : ∀ j ∈ s.sessions, (s.session j).getNextTics = (s.session j).nextTics :=
      fun j hj => (h.session j hj).getNextTics
    have hlt : s.time < acc := by
      rw [hacc]
      refine lt_earliest_iff.mpr ⟨h.time, fun x hx => ?_⟩
      obtain ⟨j, hj, rfl⟩ := List.mem_map.mp hx
      rw [hget j hj]
      exact hlater j hj
    refine
      { h with
        job := fun _ => hlt
        jobMax := ?_
        session := fun j hj => ?_
        command := fun j => ?_
        pass := fun hp => hp.elim
        scheduler := ⟨fun _ _ hr => (by cases hr), fun _ hr => (by cases hr)⟩
        onTime := ⟨h.onTime.copies, fun p hp => ?_⟩ }
    · show acc ≤ maxLongLong
      rw [hacc]
      exact earliest_le_top _ _
    · have hs := h.session j hj
      refine ⟨hs.enabled, hs.cycle, hlater j hj, hs.idle, hs.due, hs.mode, hs.scheduled, ?_⟩
      intro _ _
      show acc ≤ _
      rw [hacc, ← hget j hj]
      exact earliest_le_of_mem (List.mem_map_of_mem hj)
    · have hj := hidle j
      refine ⟨fun hne => absurd hj hne, ?_, ?_, ?_, ?_⟩ <;> dsimp only <;> rw [hj]
      · exact fun t hr => by cases hr
      · exact fun r hr => by cases hr
      · exact fun todo acc hr => by cases hr
      · exact fun acc hr => by cases hr
    · rcases List.mem_append.mp hp with hp | hp
      · exact h.onTime.passes p hp
      · rw [List.mem_singleton.mp hp]
        exact ⟨hlt, hacc⟩
  · exact h

/-! ## The result -/

/-- **Step lemma.** -/
theorem Inv.step (h : s.Inv) {e : Event} (hok : s.EventOk e) : (s.step e).Inv := by
  cases e with
  | addSession i => exact h.addSession i
  | deleteSession i => exact h.deleteSession hok i
  | call i c => exact h.call hok
  | storeNext i => exact h.storeNext i
  | lock i => exact h.lock i
  | scan i => exact h.scan i
  | storeJob i => exact h.storeJob i
  | look => exact h.look hok
  | copySession => exact h.copySession
  | storeNextCall => exact h.storeNextCall
  | testNextJobCallTime => exact h.testNextJobCallTime hok
  | advanceSimTime other => exact h.advanceSimTime hok other

/-- The variable server before its first session. -/
structure Started (s : VariableServer) : Prop where
  value : 0 ≤ s.timeTicValue
  frame : 0 < s.softwareFrameTics
  nonneg : 0 ≤ s.time
  time : s.time < maxLongLong
  cache : s.time < s.mainQueue.nextJobTime
  system : s.copyDataJob.systemJobClass = true
  job : s.time ≤ s.copyDataJob.nextTics ∧ s.copyDataJob.nextTics ≤ maxLongLong
  sessions : s.sessions = []
  scheduler : s.scheduler = .before
  command : ∀ i, s.command i = .idle
  copies : s.copies = []
  passes : s.passes = []

theorem Started.inv (h : s.Started) : s.Inv := by
  refine
    { h with
      nodup := by rw [h.sessions]; exact List.nodup_nil
      job := fun _ => ?_
      jobMax := h.job.2
      session := fun i hi => by rw [h.sessions] at hi; cases hi
      command := fun i => ?_
      one := fun i j hi => ?_
      pass := fun hp => ?_
      scheduler := ⟨?_, ?_⟩
      onTime := ⟨?_, ?_⟩ }
  · unfold low
    rw [h.scheduler]
    exact h.job.1
  · have hi := h.command i
    refine ⟨fun hne => absurd hi hne, ?_, ?_, ?_, ?_⟩ <;> rw [hi]
    · exact fun t hr => by cases hr
    · exact fun r hr => by cases hr
    · exact fun todo acc hr => by cases hr
    · exact fun acc hr => by cases hr
  · rw [h.command i] at hi
    exact hi.elim
  · rw [h.scheduler] at hp
    exact hp.elim
  · rw [h.scheduler]
    exact fun _ _ hr => by cases hr
  · rw [h.scheduler]
    exact fun _ hr => by cases hr
  · rw [h.copies]
    exact fun c hc => by cases hc
  · rw [h.passes]
    exact fun p hp => by cases hp

end VariableServer

end Trick.VarServer
