/-
  The frames of an asynchronous must-finish child.

  1. Data.  `NextFrame`: the length of a frame and the jobs that are switched off in it.
  2. Program.  `amfFrame`: the main thread releases the child at the end of its last frame
     (`isThreadReadyToRun` asks for `amf_next_tics == time_tics`), and the child runs the frame.
  3. Specification.  `DueTic`: the tics at which a job is due, each from the one before by the rule
     that moves its call time.  `FrameRight`: in the frame, a job that is enabled is called once at
     each of them and at no other tic, in the order of time and, within a tic, of the queue; the
     child ends at `amf_next_tics`.
  4. Result.  `JobInv` says of one job between two passes that its calls so far are right and that
     its call time is the first of its due tics that are left.  The cached time is never above a
     call time behind the pass, so no pass steps over a due tic.
-/
import Trick.Executive.ChildFrame
import Trick.Lib.Run

namespace Trick.Exec

open Trick.Lib

/-! ## Releasing the child -/

/-- A frame to come. -/
structure NextFrame where
  /-- `amf_cycle_tics` -/
  length : Int
  disabled : JobId → Bool

/-- The main thread releases the child, at the tic at which its last frame ended. -/
def ChildFrame.release (f : NextFrame) (c : ChildFrame) : ChildFrame :=
  let thread := { c.thread with
    currTimeTics := c.thread.amfNextTics
    amfCycleTics := f.length
    amfNextTics := c.thread.amfNextTics + f.length }
  { c with jobs := fun i => { c.jobs i with disabled := f.disabled i }, thread := thread }

/-- A frame of the child. -/
def ChildFrame.amfFrame (own : JobId → Int → Int) (c : ChildFrame) (f : NextFrame) : ChildFrame :=
  (c.release f).frame own

/-! ## The due tics of a job -/

/-- The call time of a job behind its call at `t`. -/
def nextDue (own : JobId → Int → Int) (i : JobId) (j : JobData) (t : Int) : Int :=
  (afterPass own t i { j with nextTics := t }).nextTics

/-- `u` is a due tic of a job whose call time is `n`.  A job that moves its call time to one that is
    not later is not due again. -/
inductive DueTic (own : JobId → Int → Int) (i : JobId) (j : JobData) : Int → Int → Prop where
  | here (n : Int) : DueTic own i j n n
  | later {n u : Int} : n < nextDue own i j n → DueTic own i j (nextDue own i j n) u →
      DueTic own i j n u

/-- `u` is a due tic of the job from the tic `start` on: a job whose call time is before `start` is
    late, and not due. -/
def DueFrom (own : JobId → Int → Int) (i : JobId) (start : Int) (j : JobData) (u : Int) : Prop :=
  start ≤ j.nextTics ∧ DueTic own i j j.nextTics u

/-- The call time `n` of a cyclic job and, up to its stop, the cycles behind it. -/
def CycleTic (j : JobData) (n u : Int) : Prop :=
  ∃ k : ℕ, u = n + k * j.cycleTics ∧ (k = 0 ∨ u ≤ j.stopTics)

/-- **The due tics of a cyclic job** are its call time and the cycles behind it. -/
theorem dueTic_cyclic {own : JobId → Int → Int} {i : JobId} {j : JobData}
    (hs : j.systemJobClass = false) (hc : 1 ≤ j.cycleTics) {n u : Int} (hu : u < maxLongLong) :
    DueTic own i j n u ↔ CycleTic j n u := by
  have hnext : ∀ n, nextDue own i j n =
      if n + j.cycleTics > j.stopTics then maxLongLong else n + j.cycleTics := by
    intro n
    have huser : afterPass own n i { j with nextTics := n } =
        JobData.visited n { j with nextTics := n } := afterPass_of_user hs
    unfold nextDue
    rw [huser]
    unfold JobData.visited JobData.reschedule
    rw [if_pos ⟨rfl, hs⟩]
  refine ⟨?_, ?_⟩
  · intro h
    induction h with
    | here n => exact ⟨0, by simp, Or.inl rfl⟩
    | @later n u hlt hrest ih =>
      rw [hnext] at hrest ih
      by_cases hstop : n + j.cycleTics > j.stopTics
      · -- the job has stopped, and its next tic is never reached
        rw [if_pos hstop] at ih
        obtain ⟨k, hk, -⟩ := ih hu
        have hkc : (0 : Int) ≤ k * j.cycleTics := by positivity
        omega
      · rw [if_neg hstop] at ih
        obtain ⟨k, hk, hle⟩ := ih hu
        refine ⟨k + 1, ?_, Or.inr ?_⟩
        · rw [hk]; push_cast; ring
        · rcases hle with rfl | hle
          · simp only [Nat.cast_zero, zero_mul, add_zero] at hk; omega
          · exact hle
  · rintro ⟨k, hk, hle⟩
    induction k generalizing n with
    | zero =>
      simp only [Nat.cast_zero, zero_mul, add_zero] at hk
      rw [hk]
      exact DueTic.here n
    | succ k ih =>
      have hle : u ≤ j.stopTics := hle.resolve_left (Nat.succ_ne_zero k)
      have hkc : (0 : Int) ≤ k * j.cycleTics := by positivity
      have hk' : u = n + j.cycleTics + k * j.cycleTics := by rw [hk]; push_cast; ring
      have hstop : ¬ n + j.cycleTics > j.stopTics := by omega
      have hto : nextDue own i j n = n + j.cycleTics := by rw [hnext, if_neg hstop]
      refine DueTic.later (by omega) ?_
      rw [hto]
      exact ih hk' (Or.inr hle)

theorem DueTic.le {own : JobId → Int → Int} {i : JobId} {j : JobData} {n u : Int}
    (h : DueTic own i j n u) : n ≤ u := by
  induction h with
  | here n => exact le_refl n
  | later hlt _ ih => omega

/-- A due tic behind the call time is one of the next call time. -/
theorem dueTic_lt {own : JobId → Int → Int} {i : JobId} {j : JobData} {n u : Int} (hlt : n < u) :
    DueTic own i j n u ↔
      n < nextDue own i j n ∧ DueTic own i j (nextDue own i j n) u := by
  refine ⟨?_, fun h => DueTic.later h.1 h.2⟩
  intro h
  cases h with
  | here => exact absurd hlt (lt_irrefl _)
  | later h1 h2 => exact ⟨h1, h2⟩

/-! ## The specification of a frame -/

/-- Earlier, or at the same tic and in front in the queue. -/
def CallOrder (list : List JobId) (a b : Int × JobId) : Prop :=
  a.1 < b.1 ∨ a.1 = b.1 ∧ list.idxOf a.2 < list.idxOf b.2

/-- **A frame as it should be**: `c` is the child when it is released, `c'` at the end, `calls` the
    calls of the frame. -/
structure FrameCalls (own : JobId → Int → Int) (c c' : ChildFrame) (calls : List (Int × JobId)) :
    Prop where
  called_eq : c'.called = c.called ++ calls
  /-- A cyclic job that is not late is called once at each of its due tics in the frame, and at no
      other tic. -/
  cyclic : ∀ i ∈ c.thread.jobQueue.list, (c.jobs i).systemJobClass = false →
    (c.jobs i).disabled = false → c.thread.currTimeTics ≤ (c.jobs i).nextTics →
      ∀ u, c.thread.currTimeTics ≤ u → u < c.thread.amfNextTics →
        (CycleTic (c.jobs i) (c.jobs i).nextTics u → calls.count (u, i) = 1) ∧
        (¬ CycleTic (c.jobs i) (c.jobs i).nextTics u → calls.count (u, i) = 0)
  /-- So is a job that reschedules itself. -/
  system : ∀ i ∈ c.thread.jobQueue.list, (c.jobs i).systemJobClass = true →
    (c.jobs i).disabled = false → ∀ u, c.thread.currTimeTics ≤ u → u < c.thread.amfNextTics →
      (DueFrom own i c.thread.currTimeTics (c.jobs i) u → calls.count (u, i) = 1) ∧
      (¬ DueFrom own i c.thread.currTimeTics (c.jobs i) u → calls.count (u, i) = 0)
  order : calls.Pairwise (CallOrder c.thread.jobQueue.list)
  ends : c'.thread.currTimeTics = c.thread.amfNextTics
  /-- No cyclic job that was not late is late at the end. -/
  kept : ∀ i ∈ c.thread.jobQueue.list, (c.jobs i).systemJobClass = false →
    c.thread.currTimeTics ≤ (c.jobs i).nextTics → c'.thread.currTimeTics ≤ (c'.jobs i).nextTics

/-! ## One job through a frame -/

/-- **One job between two passes** of a frame that began at `start`: `j₀` is the job at the start,
    `j` the job before the pass at `t`. -/
structure JobInv (own : JobId → Int → Int) (i : JobId) (start t : Int) (j₀ j : JobData)
    (calls : List (Int × JobId)) : Prop where
  same : j = { j₀ with nextTics := j.nextTics }
  once : j₀.disabled = false → ∀ u, start ≤ u → u < t →
    (DueFrom own i start j₀ u → calls.count (u, i) = 1) ∧
    (¬ DueFrom own i start j₀ u → calls.count (u, i) = 0)
  left : j₀.disabled = false → ∀ u, t ≤ u →
    (DueFrom own i start j₀ u ↔ t ≤ j.nextTics ∧ DueTic own i j₀ j.nextTics u)
  /-- A cyclic job that was not late is not left behind. -/
  kept : j₀.systemJobClass = false → start ≤ j₀.nextTics → t ≤ j.nextTics

theorem JobInv.start (own : JobId → Int → Int) (i : JobId) (start : Int) (j : JobData) :
    JobInv own i start start j j [] :=
  ⟨rfl, fun _ _ hs hu => absurd hu (not_lt.mpr hs), fun _ _ _ => Iff.rfl, fun _ h => h⟩

theorem afterPass_eq (own : JobId → Int → Int) (t : Int) (i : JobId) (j : JobData) :
    afterPass own t i j = { j with nextTics := (afterPass own t i j).nextTics } := by
  unfold afterPass JobData.visited JobData.reschedule
  split_ifs <;> rfl

theorem afterPass_due {own : JobId → Int → Int} {i : JobId} {t : Int} {j₀ j : JobData}
    (hsame : j = { j₀ with nextTics := j.nextTics }) (hn : j.nextTics = t) :
    (afterPass own t i j).nextTics = nextDue own i j₀ t := by
  have hj : j = { j₀ with nextTics := t } := by rw [← hn]; exact hsame
  unfold nextDue
  rw [hj]

/-- **Step lemma.**  A pass at `t`, after which the time is `time`: the call times that were moved
    or passed are not before it. -/
theorem JobInv.step {own : JobId → Int → Int} {i : JobId} {start t time : Int} {j₀ j : JobData}
    {calls new : List (Int × JobId)} (h : JobInv own i start t j₀ j calls) (hst : start ≤ t)
    (hlt : t < time) (hmax : t < maxLongLong) (hcycle : 1 ≤ j₀.cycleTics)
    (htracked : t < (afterPass own t i j).nextTics → time ≤ (afterPass own t i j).nextTics)
    (hold : ∀ p ∈ calls, p.1 < t) (hnew : ∀ u, new.count (u, i) = if u = t ∧ j.Due t then 1 else 0) :
    JobInv own i start time j₀ (afterPass own t i j) (calls ++ new) := by
  have hsame := h.same
  have hdis : j.disabled = j₀.disabled := by rw [hsame]
  have hsys : j.systemJobClass = j₀.systemJobClass := by rw [hsame]
  -- the due tics that are left behind `t`
  have hleft : j₀.disabled = false → ∀ u, t < u →
      (DueFrom own i start j₀ u ↔ t < (afterPass own t i j).nextTics ∧
        DueTic own i j₀ (afterPass own t i j).nextTics u) := by
    intro hen u hu
    rw [h.left hen u (le_of_lt hu)]
    by_cases hn : j.nextTics = t
    · rw [afterPass_due hsame hn, hn, dueTic_lt hu]
      exact ⟨fun hd => hd.2, fun hd => ⟨le_refl t, hd⟩⟩
    · rw [afterPass_of_ne hn]
      constructor
      · rintro ⟨hle, hd⟩; exact ⟨by omega, hd⟩
      · rintro ⟨hle, hd⟩; exact ⟨le_of_lt hle, hd⟩
  refine ⟨?_, ?_, ?_, ?_⟩
  · rw [afterPass_eq, hsame]
  · intro hen u hsu hut
    rw [List.count_append, hnew]
    rcases lt_trichotomy u t with hlt' | heq | hgt
    · -- before this pass
      rw [if_neg (fun hc => absurd hc.1 (by omega)), Nat.add_zero]
      exact h.once hen u hsu hlt'
    · -- the tic of this pass
      subst heq
      have hzero : calls.count (u, i) = 0 := by
        refine List.count_eq_zero.mpr ?_
        intro hm
        exact absurd (hold _ hm) (lt_irrefl _)
      have hiff : DueFrom own i start j₀ u ↔ j.Due u := by
        rw [h.left hen u (le_refl u)]
        constructor
        · rintro ⟨hle, hd⟩
          have := hd.le
          exact ⟨by omega, hdis.trans hen⟩
        · rintro ⟨hn, -⟩
          rw [hn]
          exact ⟨le_refl u, DueTic.here u⟩
      rw [hzero, Nat.zero_add]
      refine ⟨fun hd => if_pos ⟨rfl, hiff.mp hd⟩, fun hd => if_neg ?_⟩
      exact fun hc => hd (hiff.mpr hc.2)
    · -- between this pass and the next: no due tic
      rw [if_neg (fun hc => absurd hc.1 (by omega)), Nat.add_zero]
      have hzero : calls.count (u, i) = 0 := by
        refine List.count_eq_zero.mpr ?_
        intro hm
        have := hold _ hm
        simp only at this
        omega
      refine ⟨?_, fun _ => hzero⟩
      intro hd
      obtain ⟨h1, h2⟩ := (hleft hen u hgt).mp hd
      have := h2.le
      have := htracked h1
      omega
  · intro hen u hu
    rw [hleft hen u (by omega)]
    constructor
    · rintro ⟨h1, h2⟩; exact ⟨htracked h1, h2⟩
    · rintro ⟨h1, h2⟩; exact ⟨by omega, h2⟩
  · intro hs hstart
    refine htracked ?_
    rw [afterPass_of_user (hsys.trans hs)]
    refine JobData.visited_gt hmax (Or.inl ?_) (hsys.trans hs) (h.kept hs hstart)
    rw [hsame]
    exact hcycle

/-! ## A pass over the queue -/

theorem mem_callsAt {t u : Int} {l : List JobId} {jobs : JobHeap} {i : JobId} :
    (u, i) ∈ callsAt t l jobs ↔ u = t ∧ i ∈ l ∧ (jobs i).Due t := by
  unfold callsAt
  simp only [List.mem_map, List.mem_filter, decide_eq_true_eq, Prod.mk.injEq]
  constructor
  · rintro ⟨k, ⟨hk, hd⟩, rfl, rfl⟩; exact ⟨rfl, hk, hd⟩
  · rintro ⟨rfl, hi, hd⟩; exact ⟨i, ⟨hi, hd⟩, rfl, rfl⟩

/-- A pass calls a job that is due once. -/
theorem count_callsAt {t u : Int} {l : List JobId} {jobs : JobHeap} {i : JobId} (hnd : l.Nodup)
    (hi : i ∈ l) :
    (callsAt t l jobs).count (u, i) = if u = t ∧ (jobs i).Due t then 1 else 0 := by
  have hnodup : (callsAt t l jobs).Nodup := by
    unfold callsAt
    refine List.Nodup.map ?_ (hnd.filter _)
    intro a b hab
    exact (Prod.mk.inj hab).2
  rw [hnodup.count]
  refine if_congr ?_ rfl rfl
  rw [mem_callsAt]
  exact ⟨fun h => ⟨h.1, h.2.2⟩, fun h => ⟨h.1, hi, h.2⟩⟩

theorem pairwise_idxOf {l : List JobId} (hnd : l.Nodup) :
    l.Pairwise fun a b => l.idxOf a < l.idxOf b := by
  refine List.pairwise_iff_getElem.mpr ?_
  intro i j hi hj hij
  rw [hnd.idxOf_getElem, hnd.idxOf_getElem]
  exact hij

/-- A pass calls the jobs in the order of the queue. -/
theorem callsAt_order {t : Int} {l : List JobId} {jobs : JobHeap} (hnd : l.Nodup) :
    (callsAt t l jobs).Pairwise (CallOrder l) := by
  unfold callsAt
  rw [List.pairwise_map]
  refine List.Pairwise.imp ?_ ((pairwise_idxOf hnd).sublist List.filter_sublist)
  intro a b hab
  exact Or.inr ⟨rfl, hab⟩

/-! ## A frame -/

/-- **The child between two passes** of a frame that began with `c₀`. -/
structure FrameInv (own : JobId → Int → Int) (c₀ c : ChildFrame) (calls : List (Int × JobId)) :
    Prop where
  called_eq : c.called = c₀.called ++ calls
  list_eq : c.thread.jobQueue.list = c₀.thread.jobQueue.list
  start_le : c₀.thread.currTimeTics ≤ c.thread.currTimeTics
  before : ∀ p ∈ calls, p.1 < c.thread.currTimeTics
  order : calls.Pairwise (CallOrder c₀.thread.jobQueue.list)
  jobs : ∀ i ∈ c₀.thread.jobQueue.list,
    JobInv own i c₀.thread.currTimeTics c.thread.currTimeTics (c₀.jobs i) (c.jobs i) calls

theorem FrameInv.start (own : JobId → Int → Int) (c : ChildFrame) : FrameInv own c c [] :=
  ⟨(List.append_nil _).symm, rfl, le_refl _, fun _ hp => (nomatch hp), List.Pairwise.nil,
    fun i _ => JobInv.start own i _ _⟩

/-- The calls of a pass behind those before it. -/
theorem FrameInv.order_append {own : JobId → Int → Int} {c₀ c : ChildFrame}
    {calls : List (Int × JobId)} (h : FrameInv own c₀ c calls)
    (hnd : c.thread.jobQueue.list.Nodup) :
    (calls ++ callsAt c.thread.currTimeTics c.thread.jobQueue.list c.jobs).Pairwise
      (CallOrder c₀.thread.jobQueue.list) := by
  refine List.pairwise_append.mpr ⟨h.order, ?_, ?_⟩
  · rw [← h.list_eq]; exact callsAt_order hnd
  · rintro a ha ⟨u, i⟩ hb
    have hu := (mem_callsAt.mp hb).1
    exact Or.inl (by rw [hu]; exact h.before a ha)

/-- **Step lemma** of the frame: a pass that moves the time on. -/
theorem FrameInv.step {own : JobId → Int → Int} {c₀ c : ChildFrame} {calls : List (Int × JobId)}
    {time : Int} (h : FrameInv own c₀ c calls) (hr₀ : c₀.Ready) (hr : c.Ready)
    (hmax : c.thread.currTimeTics < maxLongLong) (hlt : c.thread.currTimeTics < time)
    (hcached : Cached c.thread.currTimeTics c.thread.amfNextTics
      (afterAll own c.thread.currTimeTics c.thread.jobQueue.list c.jobs)
      c.thread.jobQueue.list time) :
    FrameInv own c₀ (c.passed own time)
      (calls ++ callsAt c.thread.currTimeTics c.thread.jobQueue.list c.jobs) := by
  refine ⟨?_, h.list_eq, ?_, ?_, h.order_append hr.nodup, ?_⟩
  · show c.called ++ _ = _
    rw [h.called_eq, List.append_assoc]
  · exact le_trans h.start_le (le_of_lt hlt)
  · rintro ⟨u, i⟩ hp
    show u < time
    rcases List.mem_append.mp hp with hp | hp
    · exact lt_trans (h.before _ hp) hlt
    · rw [(mem_callsAt.mp hp).1]; exact hlt
  · intro i hi
    have hi' : i ∈ c.thread.jobQueue.list := h.list_eq ▸ hi
    have hafter : (c.passed own time).jobs i = afterPass own c.thread.currTimeTics i (c.jobs i) :=
      afterAll_of_mem hi'
    rw [hafter]
    refine (h.jobs i hi).step h.start_le hlt hmax (hr₀.cycle i hi) ?_ h.before ?_
    · have := hcached.le_next i hi'
      rw [afterAll_of_mem hi'] at this
      exact this
    · intro u
      exact count_callsAt hr.nodup hi'

/-- What the invariant says at the end of a frame. -/
theorem FrameInv.done {own : JobId → Int → Int} {c₀ c : ChildFrame} {calls : List (Int × JobId)}
    (h : FrameInv own c₀ c calls) (hr : c₀.Ready) (hmax : c₀.thread.amfNextTics ≤ maxLongLong)
    (hend : c.thread.currTimeTics = c₀.thread.amfNextTics) : FrameCalls own c₀ c calls := by
  refine ⟨h.called_eq, ?_, ?_, h.order, hend, ?_⟩
  · intro i hi hs hen hstart u hu hlt
    have honce := (h.jobs i hi).once hen u hu (by omega)
    have hiff : DueFrom own i c₀.thread.currTimeTics (c₀.jobs i) u ↔
        CycleTic (c₀.jobs i) (c₀.jobs i).nextTics u := by
      unfold DueFrom
      rw [dueTic_cyclic hs (hr.cycle i hi) (by omega)]
      exact ⟨fun hd => hd.2, fun hd => ⟨hstart, hd⟩⟩
    rw [hiff] at honce
    exact honce
  · intro i hi _ hen u hu hlt
    exact (h.jobs i hi).once hen u hu (by omega)
  · intro i hi hs hstart
    exact (h.jobs i hi).kept hs hstart

/-- **A frame.**  Its loop ends, and the calls are as they should be. -/
theorem frame_spec (own : JobId → Int → Int) {c : ChildFrame} (hr : c.Ready)
    (hle : c.thread.currTimeTics ≤ c.thread.amfNextTics)
    (hmax : c.thread.amfNextTics < maxLongLong) :
    (∃ calls, FrameCalls own c (c.frame own) calls) ∧ (c.frame own).Ready ∧
      (c.frame own).thread.amfNextTics = c.thread.amfNextTics := by
  by_cases hlt : c.thread.currTimeTics < c.thread.amfNextTics
  · -- the invariant holds from the first pass to the last
    have hstep : ∀ (c' : ChildFrame) (time : Int), (∃ calls, FrameInv own c c' calls) ∧
        c'.thread.amfNextTics = c.thread.amfNextTics → c'.Ready →
        c'.thread.currTimeTics < c'.thread.amfNextTics →
        Cached c'.thread.currTimeTics c'.thread.amfNextTics
          (afterAll own c'.thread.currTimeTics c'.thread.jobQueue.list c'.jobs)
          c'.thread.jobQueue.list time →
        (∃ calls, FrameInv own c (c'.passed own time) calls) ∧
          (c'.passed own time).thread.amfNextTics = c.thread.amfNextTics := by
      rintro c' time ⟨⟨calls, hinv⟩, hamf⟩ hrc hc hcached
      obtain ⟨-, hgt⟩ := ChildFrame.passed_time hcached
      exact ⟨⟨_, hinv.step hr hrc (by omega) (by omega) hcached⟩, hamf⟩
    obtain ⟨⟨⟨calls, hinv⟩, hamf⟩, hr', hend, -⟩ := ChildFrame.frameLoop_spec own
      (fun c' => (∃ calls, FrameInv own c c' calls) ∧
        c'.thread.amfNextTics = c.thread.amfNextTics) hstep
      (c.thread.amfNextTics - c.thread.currTimeTics).toNat c ⟨⟨[], FrameInv.start own c⟩, rfl⟩ hr
      (le_of_lt hmax) hlt (by omega)
    exact ⟨⟨calls, hinv.done hr (le_of_lt hmax) hend⟩, hr', hamf⟩
  · -- a frame of no length: one pass, and no tic in the frame
    have heq : c.thread.amfNextTics = c.thread.currTimeTics := by omega
    have hfuel : c.frame own = c.pass own := by
      unfold ChildFrame.frame
      rw [heq, sub_self]
      rfl
    obtain ⟨time, hpass, hcached⟩ := ChildFrame.pass_spec own hr (by omega)
    obtain ⟨htle, hgt⟩ := ChildFrame.passed_time hcached
    have htime : time = c.thread.amfNextTics := by omega
    rw [hfuel, hpass]
    refine ⟨⟨_, rfl, ?_, ?_, callsAt_order hr.nodup, htime, ?_⟩, hr.passed time, rfl⟩
    · intro i _ _ _ _ u hu hu'; omega
    · intro i _ _ _ u hu hu'; omega
    · intro i hi hs hstart
      have hafter : (c.passed own time).jobs i = afterPass own c.thread.currTimeTics i (c.jobs i) :=
        afterAll_of_mem hi
      have hmaxc : c.thread.currTimeTics < maxLongLong := by omega
      show time ≤ _
      rw [hafter, afterPass_of_user hs, htime, heq]
      exact le_of_lt (JobData.visited_gt hmaxc (Or.inl (hr.cycle i hi)) hs hstart)

/-! ## All frames -/

/-- The frame is not of negative length, and its end is a tic that can be reached. -/
def InRange (c : ChildFrame) (f : NextFrame) : Prop :=
  0 ≤ f.length ∧ c.thread.amfNextTics + f.length < maxLongLong

instance (c : ChildFrame) (f : NextFrame) : Decidable (InRange c f) :=
  inferInstanceAs (Decidable (_ ∧ _))

theorem amfFrame_spec (own : JobId → Int → Int) {c : ChildFrame} (hr : c.Ready)
    {f : NextFrame} (hf : InRange c f) :
    (∃ calls, FrameCalls own (c.release f) (c.amfFrame own f) calls) ∧ (c.amfFrame own f).Ready := by
  have hr' : (c.release f).Ready := ⟨hr.nodup, hr.cycle⟩
  have hle : (c.release f).thread.currTimeTics ≤ (c.release f).thread.amfNextTics := by
    show c.thread.amfNextTics ≤ c.thread.amfNextTics + f.length
    have := hf.1
    omega
  obtain ⟨hcalls, hready, -⟩ := frame_spec own hr' hle hf.2
  exact ⟨hcalls, hready⟩

/-- **Every frame of every run is as it should be.**  `FrameCalls.kept` and the release at the end of
    the last frame carry it that a cyclic job which is not late at first is not late later. -/
theorem amf_frames_right (own : JobId → Int → Int) (c : ChildFrame) (hr : c.Ready)
    (frames : List NextFrame) (f : NextFrame)
    (h : Guarded InRange (ChildFrame.amfFrame own) c (frames ++ [f])) :
    ∃ calls, FrameCalls own ((run (ChildFrame.amfFrame own) c frames).release f)
      ((run (ChildFrame.amfFrame own) c frames).amfFrame own f) calls := by
  obtain ⟨hframes, hlast, -⟩ := (guarded_append _ _ _).mp h
  have hstep : ∀ (c : ChildFrame) (f : NextFrame), c.Ready → InRange c f →
      (c.amfFrame own f).Ready := by
    intro c f hc hf
    exact (amfFrame_spec own hc hf).2
  have hready := Guarded.invariant hstep frames c hr hframes
  exact (amfFrame_spec own hready hlast).1

/-- Two cyclic jobs, of 2 and 3 tics, and a frame queue of both. -/
def twoCycles : ChildFrame where
  jobs := fun i => { cycleTics := if i = 0 then 2 else 3, stopTics := 100 }
  thread := { processType := .amfChild, jobQueue := { list := [0, 1] } }

/-- Two frames of 4 and 5 tics. -/
theorem amf_frames_right_twoCycles :
    ∃ calls, FrameCalls (fun _ t => t)
      ((run (ChildFrame.amfFrame fun _ t => t) twoCycles [⟨4, fun _ => false⟩]).release
        ⟨5, fun _ => false⟩)
      ((run (ChildFrame.amfFrame fun _ t => t) twoCycles [⟨4, fun _ => false⟩]).amfFrame
        (fun _ t => t) ⟨5, fun _ => false⟩) calls := by
  refine amf_frames_right (fun _ t => t) twoCycles ⟨by decide, by decide⟩ _ _ ?_
  refine ⟨by decide, ⟨?_, trivial⟩⟩
  show _ ∧ (ChildFrame.amfFrame (fun _ t => t) twoCycles ⟨4, fun _ => false⟩).thread.amfNextTics +
    5 < maxLongLong
  decide

end Trick.Exec
