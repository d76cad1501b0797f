/-
  Periodic execution: which calls a simulation with a fixed set of jobs makes, and in which order.

  `periodic_calls` starts from the text of the sim objects: any number of them, with any components,
  whose jobs are enabled jobs of the scheduled classes with a cycle of at least a tic.  The run ends;
  each job has been called once at each tic of its cycle up to the terminate time and at no other
  tic; and the calls come in the order of `callKey`: tic by tic, and at each tic first the jobs of the
  classes after `system_advance_sim_time`, then the others, each group by class, phase, object and
  id.  The advancing job stands in the middle of the queue, so the classes behind it are called at
  the end of the pass that has moved the clock.
-/
import Trick.Executive.StaticPass

namespace Trick.Exec.Executive

open Trick.Lib

/-! ## What a plan says -/

namespace Plan

variable {p : Plan}

theorem mem_due {l : List JobId} {t t' : Int} {j : JobId} :
    (j, t') ∈ p.due l t ↔ j ∈ l ∧ p.User j ∧ (p.cycle j).Due t' ∧ t' = t := by
  unfold due
  rw [List.mem_map]
  constructor
  · rintro ⟨i, hi, he⟩
    obtain ⟨rfl, rfl⟩ := Prod.mk.inj he
    rw [List.mem_filter, decide_eq_true_eq] at hi
    exact ⟨hi.1, hi.2.1, hi.2.2, rfl⟩
  · rintro ⟨hl, hu, hd, rfl⟩
    refine ⟨j, ?_, rfl⟩
    rw [List.mem_filter, decide_eq_true_eq]
    exact ⟨hl, hu, hd⟩

/-- The calls before a tic, `n` tics after the start. -/
theorem before_add_succ (n : Nat) :
    p.before (p.startTics + (n + 1 : Nat)) = p.before (p.startTics + n) ++
      (p.due p.tail (p.startTics + n) ++ p.due p.head (p.startTics + n)) := by
  have hn : p.startTics + ((n + 1 : Nat) : Int) = p.startTics + n + 1 := by omega
  rw [hn, before_succ (by omega)]

theorem mem_before_add (n : Nat) {j : JobId} {t : Int} :
    (j, t) ∈ p.before (p.startTics + n) ↔
      p.User j ∧ (p.cycle j).Due t ∧ p.startTics ≤ t ∧ t < p.startTics + n := by
  induction n with
  | zero =>
    rw [Int.natCast_zero, Int.add_zero, before_start]
    constructor
    · intro h; cases h
    · rintro ⟨_, _, h1, h2⟩; omega
  | succ n ih =>
    rw [before_add_succ, List.mem_append, List.mem_append, ih, mem_due, mem_due]
    constructor
    · rintro (⟨hu, hd, h1, h2⟩ | ⟨_, hu, hd, rfl⟩ | ⟨_, hu, hd, rfl⟩)
      · exact ⟨hu, hd, h1, by omega⟩
      · exact ⟨hu, hd, by omega, by omega⟩
      · exact ⟨hu, hd, by omega, by omega⟩
    · rintro ⟨hu, hd, h1, h2⟩
      by_cases hlast : t = p.startTics + n
      · right
        rcases List.mem_append.mp hu.1 with hj | hj
        · exact Or.inr ⟨hj, hu, hd, hlast⟩
        · exact Or.inl ⟨hj, hu, hd, hlast⟩
      · exact Or.inl ⟨hu, hd, h1, by omega⟩

/-- **The calls before tic `t`** are those of the cycles. -/
theorem mem_before {t t' : Int} {j : JobId} (ht : p.startTics ≤ t) :
    (j, t') ∈ p.before t ↔ p.User j ∧ (p.cycle j).Due t' ∧ p.startTics ≤ t' ∧ t' < t := by
  have h := mem_before_add (p := p) (t - p.startTics).toNat (j := j) (t := t')
  have ht' : p.startTics + ((t - p.startTics).toNat : Int) = t := by omega
  rwa [ht'] at h

theorem nodup_due {l : List JobId} (hnd : l.Nodup) (t : Int) : (p.due l t).Nodup :=
  (hnd.filter _).map fun _ _ he => (Prod.mk.inj he).1

/-- No call is planned twice. -/
theorem nodup_before (hnd : (p.head ++ p.tail).Nodup) (n : Nat) :
    (p.before (p.startTics + n)).Nodup := by
  obtain ⟨hhead, htail, hcross⟩ := List.nodup_append.mp hnd
  induction n with
  | zero =>
    rw [Int.natCast_zero, Int.add_zero, before_start]
    exact List.nodup_nil
  | succ n ih =>
    rw [before_add_succ, List.nodup_append, List.nodup_append]
    refine ⟨ih, ⟨nodup_due htail _, nodup_due hhead _, ?_⟩, ?_⟩
    · rintro ⟨j, t⟩ hj _ hj' rfl
      exact hcross j (mem_due.mp hj').1 j (mem_due.mp hj).1 rfl
    · -- the calls before this tic are of earlier tics
      rintro ⟨j, t⟩ hj _ hj' rfl
      obtain ⟨_, _, _, hlt⟩ := (mem_before_add n).mp hj
      have ht : t = p.startTics + n := by
        rcases List.mem_append.mp hj' with h | h
        · exact (mem_due.mp h).2.2.2
        · exact (mem_due.mp h).2.2.2
      omega

/-- **Each job is called exactly once at each tic of its cycle.** -/
theorem count_before (hnd : (p.head ++ p.tail).Nodup) {t : Int} (ht : p.startTics ≤ t) {j : JobId}
    (hu : p.User j) (hfirst : p.startTics ≤ (p.cycle j).first) (t' : Int) :
    (p.before t).count (j, t') = if (p.cycle j).Due t' ∧ t' < t then 1 else 0 := by
  have hnodup := nodup_before hnd (t - p.startTics).toNat
  have ht' : p.startTics + ((t - p.startTics).toNat : Int) = t := by omega
  rw [ht'] at hnodup
  rw [hnodup.count]
  refine if_congr ?_ rfl rfl
  rw [mem_before ht]
  constructor
  · rintro ⟨_, hd, _, hlt⟩; exact ⟨hd, hlt⟩
  · rintro ⟨hd, hlt⟩; exact ⟨hu, hd, le_trans hfirst hd.1, hlt⟩

/-- **The calls are in order**: by tic, and at one tic by a key that puts the tail before the head
    and keeps the order of the queue. -/
theorem sorted_before {κ : Type*} [LinearOrder κ] {key : JobId → κ} (hhead : SortedBy key p.head)
    (htail : SortedBy key p.tail) (hcross : ∀ i ∈ p.tail, ∀ j ∈ p.head, key i ≤ key j) (n : Nat) :
    SortedBy (fun e => (toLex (e.2, key e.1) : Int ×ₗ κ)) (p.before (p.startTics + n)) := by
  have hdue : ∀ (l : List JobId) (t : Int), SortedBy key l →
      SortedBy (fun e => (toLex (e.2, key e.1) : Int ×ₗ κ)) (p.due l t) := by
    intro l t hl
    unfold SortedBy due
    rw [List.pairwise_map]
    refine (hl.filter _).imp fun {i j} hij => ?_
    exact Prod.Lex.toLex_le_toLex.mpr (Or.inr ⟨rfl, hij⟩)
  induction n with
  | zero =>
    rw [Int.natCast_zero, Int.add_zero, before_start]
    exact List.Pairwise.nil
  | succ n ih =>
    rw [before_add_succ]
    refine List.pairwise_append.mpr ⟨ih, List.pairwise_append.mpr
      ⟨hdue _ _ htail, hdue _ _ hhead, ?_⟩, ?_⟩
    · rintro ⟨i, t⟩ hi ⟨j, t'⟩ hj
      obtain ⟨hit, _, _, rfl⟩ := mem_due.mp hi
      obtain ⟨hjh, _, _, rfl⟩ := mem_due.mp hj
      exact Prod.Lex.toLex_le_toLex.mpr (Or.inr ⟨rfl, hcross i hit j hjh⟩)
    · rintro ⟨i, t⟩ hi ⟨j, t'⟩ hj
      obtain ⟨_, _, _, hlt⟩ := (mem_before_add n).mp hi
      have ht : t' = p.startTics + n := by
        rcases List.mem_append.mp hj with h | h
        · exact (mem_due.mp h).2.2.2
        · exact (mem_due.mp h).2.2.2
      exact Prod.Lex.toLex_le_toLex.mpr (Or.inl (by show t < t'; omega))

end Plan

/-! ## The jobs of the user -/

/-- The jobs of the sim objects, in the order in which they are registered. -/
def allJobs (objects : List SimObject) : List JobData :=
  (objects.flatMap SimObject.inOrder).flatten

/-- The tics at which a job asks to be called. -/
def callCycle (timeTicValue : Int) (j : JobData) : Cycle where
  first :=
    if j.jobClassName = .integLoop then
      roundTics timeTicValue j.cycle + toTics timeTicValue j.start
    else toTics timeTicValue j.start
  period := roundTics timeTicValue j.cycle
  last :=
    if j.stop > (maxLongLong : ℚ) / timeTicValue then maxLongLong else toTics timeTicValue j.stop

/-- **A job of the user that is called in a cycle**: enabled, of a scheduled class that does not
    reschedule itself, with a cycle of at least a tic, a start time within the range of a tic and not
    before the start of the run, and a stop time not before it. -/
structure UserJob (timeTicValue : Int) (j : JobData) : Prop where
  code : j.code = .user
  thread : j.thread = 0
  enabled : j.disabled = false
  own : j.systemJobClass = false
  system : j.jobClassName.isSystemJobClass = false
  scheduled : ∃ c, defaultClassMap j.jobClassName = some c ∧ scheduledStartIndex ≤ c
  start_nonneg : 0 ≤ j.start
  start_le : j.start ≤ (maxLongLong : ℚ) / timeTicValue
  start_le_stop : j.start ≤ j.stop
  cycle : 1 ≤ roundTics timeTicValue j.cycle
  /-- A job of the class `integ_loop` is first called one cycle after its start. -/
  first_le : j.jobClassName = .integLoop →
    (callCycle timeTicValue j).first ≤ (callCycle timeTicValue j).last

theorem toTics_mono {v : Int} {a b : ℚ} (hv : 0 ≤ v) (ha : 0 ≤ a) (hab : a ≤ b) :
    toTics v a ≤ toTics v b := by
  have hv' : (0 : ℚ) ≤ v := by exact_mod_cast hv
  have hab' : a * v ≤ b * v := mul_le_mul_of_nonneg_right hab hv'
  have ha' : 0 ≤ a * v := mul_nonneg ha hv'
  unfold toTics
  rw [if_pos ha', if_pos (le_trans ha' hab')]
  exact Int.floor_le_floor hab'

/-- A time within the range of a tic. -/
theorem toTics_le_max {v : Int} {a : ℚ} (hv : 1 ≤ v) (ha : 0 ≤ a)
    (hle : a ≤ (maxLongLong : ℚ) / v) : toTics v a ≤ maxLongLong := by
  have hv' : (0 : ℚ) < v := by exact_mod_cast (lt_of_lt_of_le one_pos hv)
  have hmul : a * v ≤ (maxLongLong : ℚ) := (le_div_iff₀ hv').mp hle
  unfold toTics
  rw [if_pos (mul_nonneg ha (le_of_lt hv'))]
  have h := Int.floor_le_floor hmul
  rwa [Int.floor_intCast] at h

variable {v frame : Int} {s : Executive}

/-- A job does not stop before its first call. -/
theorem UserJob.first_le_last {j : JobData} (hj : UserJob v j) (hv : 1 ≤ v) :
    (callCycle v j).first ≤ (callCycle v j).last := by
  by_cases hi : j.jobClassName = .integLoop
  · exact hj.first_le hi
  · unfold callCycle
    simp only [if_neg hi]
    split
    · exact toTics_le_max hv hj.start_nonneg hj.start_le
    · exact toTics_mono (by omega) hj.start_nonneg hj.start_le_stop

theorem UserJob.first_nonneg {j : JobData} (hj : UserJob v j) (hv : 1 ≤ v) :
    0 ≤ (callCycle v j).first := by
  have h := toTics_nonneg (v := v) (by omega) hj.start_nonneg
  have hc := hj.cycle
  unfold callCycle
  simp only
  split <;> omega

/-- A job as the scheduler holds it. -/
structure Registered (v : Int) (j d : JobData) : Prop where
  code : d.code = .user
  disabled : d.disabled = false
  system : d.systemJobClass = false
  className : d.jobClassName = j.jobClassName
  jobClass : some d.jobClass = defaultClassMap j.jobClassName
  next : d.nextTics = (callCycle v j).first
  cycle : d.cycleTics = (callCycle v j).period
  stop : d.stopTics = (callCycle v j).last
  thread : d.thread = 0

/-- **What `add_jobs_to_queue` makes of a job of the user** at the start of a simulation. -/
theorem UserJob.registered {j : JobData} (hj : UserJob v j) (htic : s.timeTicValue = v)
    (htime : s.timeTics = 0) (hmap : s.classMap = defaultClassMap) (id : Int) :
    Registered v j (s.newJob id j) ∧ s.queueRef (s.newJob id j) = some (.jobQueue 0) := by
  obtain ⟨c, hc, hle⟩ := hj.scheduled
  have hadv : j.jobClassName ≠ .systemAdvanceSimTime := by
    intro he
    have := hj.system
    rw [he] at this
    cases this
  have hq : ∀ d : JobData, d.jobClassName = j.jobClassName → d.thread = 0 →
      s.queueRef d = some (.jobQueue 0) := by
    intro d hd ht
    unfold queueRef
    rw [hmap, hd, hc]
    simp only
    rw [if_pos hle, ht]
  have hcls : (s.registerJob id j).jobClass = c := by
    show (s.classMap j.jobClassName).getD j.jobClass = c
    rw [hmap, hc]
    rfl
  have hnew : s.newJob id j = s.scheduleTics (s.registerJob id j) := by
    unfold newJob
    rw [if_pos ⟨by rw [hq (s.registerJob id j) rfl hj.thread]; rfl, hcls ▸ hle⟩]
  have hstart : ¬ j.start > (maxLongLong : ℚ) / v := not_lt.mpr hj.start_le
  have hstop : ¬ j.stop < j.start := not_lt.mpr hj.start_le_stop
  have hown : (s.registerJob id j).systemJobClass = false := by
    show (j.systemJobClass || j.jobClassName.isSystemJobClass) = false
    rw [hj.own, hj.system]
    rfl
  have htimes : s.scheduleTics (s.registerJob id j) =
      { s.registerJob id j with
        cycleTics := roundTics v j.cycle
        startTics := toTics v j.start
        stopTics := (callCycle v j).last
        nextTics := (callCycle v j).first } := by
    have hd1 : (s.registerJob id j).start = j.start := rfl
    have hd2 : (s.registerJob id j).stop = j.stop := rfl
    have hd3 : (s.registerJob id j).cycle = j.cycle := rfl
    have hd4 : (s.registerJob id j).disabled = false := hj.enabled
    have hd5 : (s.registerJob id j).jobClassName = j.jobClassName := rfl
    unfold scheduleTics JobData.calcCycleTics callCycle
    simp only [htic, htime, hd1, hd2, hd3, hd5, if_neg hstart, if_neg hstop]
    split <;> split <;> simp only [hd4, zero_add]
  rw [hnew, htimes]
  refine ⟨⟨hj.code, hj.enabled, hown, rfl, ?_, rfl, rfl, rfl, hj.thread⟩, hq _ rfl hj.thread⟩
  rw [hc]
  exact congrArg some hcls

/-! ## The simulation at the start of its run -/

/-- What the executive has before the first object of the user is added. -/
structure Booted (b : Executive) : Prop where
  jobQueue : b.jobQueue.list = [b.advanceSimTimeJob, b.freezeJob]
  numJobs : b.numJobs = 4
  below : ∀ q, ∀ j ∈ (b.queue q).list, j < b.numJobs
  classMap : b.classMap = defaultClassMap
  advClass : (b.jobs b.advanceSimTimeJob).jobClass = 1015
  frzClass : (b.jobs b.freezeJob).jobClass = 1016
  frzNext : (b.jobs b.freezeJob).nextTics = maxLongLong
  sorted : SortedBy (fun i => (b.jobs i).sortKey) b.jobQueue.list
  input : b.inputProcessorRunQueue.list = []
  others : ∀ q, q ≠ .scheduled → ∀ j ∈ (b.queue q).list, (b.jobs j).code ≠ .user
  freezeTimes : b.freezeTimes = []
  async : b.asyncFreezeCommand = false
  exec : b.execCommand = .noCmd
  time : b.timeTics = 0
  trace : b.trace = []

theorem boot_booted (hv : 1 ≤ v) : Booted (boot v frame) := by
  have h : Booted (boot 1 10) := by
    refine ⟨?_, ?_, ?_, ?_, ?_, ?_, ?_, ?_, ?_, ?_, ?_, ?_, ?_, ?_, ?_⟩
    case refine_4 => exact (sameRun_applyCommands (construct 1 10) [.addSimObject trickSys]).classMap
    case refine_3 => intro q; cases q <;> decide +kernel
    case refine_10 => intro q; cases q <;> decide +kernel
    all_goals decide +kernel
  rw [boot_reclock hv]
  exact { h with
    below := fun q j hj => h.below q j (by cases q <;> exact hj)
    others := fun q hq j hj => h.others q hq j (by cases q <;> exact hj) }

/-- **The jobs `specs` have been added** to the booted executive. -/
structure Loaded (v frame : Int) (specs : List JobData) (s : Executive) : Prop where
  clocked : Clocked .between (boot v frame).advanceSimTimeJob s
  run : SameRun (boot v frame) s
  numJobs : s.numJobs = (boot v frame).numJobs + specs.length
  old : ∀ j, j < (boot v frame).numJobs → s.jobs j = (boot v frame).jobs j
  new : ∀ (k : Nat) j, specs[k]? = some j → Registered v j (s.jobs ((boot v frame).numJobs + k))
  mem : ∀ j, j ∈ s.jobQueue.list ↔
    j ∈ (boot v frame).jobQueue.list ∨ ((boot v frame).numJobs ≤ j ∧ j < s.numJobs)
  length : s.jobQueue.list.length = (boot v frame).jobQueue.list.length + specs.length
  sorted : SortedBy (fun i => (s.jobs i).sortKey) s.jobQueue.list
  others : ∀ q, q ≠ .scheduled → (s.queue q).list = ((boot v frame).queue q).list
  freezeTimes : s.freezeTimes = []
  async : s.asyncFreezeCommand = false
  exec : s.execCommand = .noCmd
  trace : s.trace = []

theorem boot_loaded (hv : 1 ≤ v) (hframe : 1 ≤ frame) (hmax : frame ≤ maxLongLong) :
    Loaded v frame [] (boot v frame) := by
  have hstart := boot_started hv hframe
  have hb : Booted (boot v frame) := boot_booted hv
  refine ⟨⟨⟨hstart.wf, hstart.located, ?_, rfl⟩, boot_clock hv hmax, ?_⟩, SameRun.refl _, rfl,
    fun _ _ => rfl, ?_, ?_, rfl, hb.sorted, fun _ _ => rfl, hb.freezeTimes, hb.async, hb.exec,
    hb.trace⟩
  · rw [Mode.At, hstart.pc]; decide
  · rw [hstart.pc]; decide
  · intro k j hk; cases hk
  · intro j
    constructor
    · exact Or.inl
    · rintro (h | ⟨h1, h2⟩)
      · exact h
      · exact absurd h2 (not_lt.mpr h1)

/-- The state after a job of the user has been added. -/
theorem addJob_user {specs : List JobData} (h : Loaded v frame specs s) {j : JobData}
    (hj : UserJob v j) {id : Int} (href : s.queueRef (s.newJob id j) = some (.jobQueue 0)) :
    addJob id s j = { withNewJob id s j with
      jobQueue := s.jobQueue.push (Function.update s.jobs s.numJobs (s.newJob id j)) s.numJobs } := by
  have hadv : j.jobClassName ≠ .systemAdvanceSimTime := by
    intro he
    have := hj.system
    rw [he] at this
    cases this
  rw [addJob_eq h.clocked.settled.wf.threads_nil hadv hj.thread, href]
  rfl

/-- The classes behind the advancing job that do not reschedule themselves. -/
theorem class_after_advance {n : JobClassName} (hsys : n.isSystemJobClass = false) {c : Int}
    (hc : defaultClassMap n = some c) (hle : 1015 ≤ c) : n = .integLoop := by
  cases n <;> simp [defaultClassMap, JobClassName.isSystemJobClass] at hc hsys ⊢ <;> omega

theorem jobClass_le_of_sortKey {a b : JobData} (h : a.sortKey ≤ b.sortKey) :
    a.jobClass ≤ b.jobClass := by
  rcases Prod.Lex.toLex_le_toLex.mp h with h | ⟨h, _⟩
  · exact le_of_lt h
  · exact le_of_eq h

/-- A job of the user is well placed at the start of a simulation: behind the advancing job it is of
    the class `integ_loop`, and not due at once. -/
theorem addOk_user (hv : 1 ≤ v) {specs : List JobData} (h : Loaded v frame specs s)
    {j : JobData} (hj : UserJob v j) (hsize : specs.length + 3 < uintSize) {id : Int}
    (hreg : Registered v j (s.newJob id j)) : AddOk id s j := by
  have hb : Booted (boot v frame) := boot_booted hv
  have hwf := h.clocked.settled.wf
  have htime : s.timeTics = 0 := h.run.timeTics.trans hb.time
  have hadvjob : s.advanceSimTimeJob = (boot v frame).advanceSimTimeJob := h.clocked.settled.adv
  have hnothead : ¬ InHead s := fun hin => h.clocked.settled.at_pc hin.1
  refine ⟨hj.code, ?_, hj.thread, fun _ => ⟨Or.inl ?_, ?_, fun hafter => Or.inr ?_, ?_, ?_⟩⟩
  · intro he
    have := hj.system
    rw [he] at this
    cases this
  · rw [hreg.cycle]; exact hj.cycle
  · rw [hreg.next, htime]; exact hj.first_nonneg hv
  · have hadv0 : (boot v frame).advanceSimTimeJob ∈ (boot v frame).jobQueue.list := by
      rw [hb.jobQueue]; exact List.mem_cons_self ..
    have hmem : s.advanceSimTimeJob ∈ s.jobQueue.list := by
      rw [h.mem, hadvjob]; exact Or.inl hadv0
    have hsorted : SortedBy
        (fun i => (Function.update s.jobs s.numJobs (s.newJob id j) i).sortKey)
        s.jobQueue.list := by
      refine h.sorted.imp_of_mem fun {a b} ha hb' hab => ?_
      show (Function.update s.jobs s.numJobs (s.newJob id j) a).sortKey ≤
        (Function.update s.jobs s.numJobs (s.newJob id j) b).sortKey
      rw [Function.update_of_ne (Nat.ne_of_lt (hwf.below .scheduled a ha)),
        Function.update_of_ne (Nat.ne_of_lt (hwf.below .scheduled b hb'))]
      exact hab
    have hidx := List.idxOf_lt_length_of_mem hmem
    have hkey := jobClass_le_of_sortKey
      ((hsorted.parted s.numJobs).upperBound_spec.1 _ hidx hafter)
    rw [List.getElem_idxOf hidx, Function.update_self,
      Function.update_of_ne (Nat.ne_of_lt hwf.adv_lt), hadvjob, h.old _ (hb.below .scheduled _ hadv0),
      hb.advClass] at hkey
    have hinteg := class_after_advance hj.system hreg.jobClass.symm hkey
    rw [hreg.next, htime]
    have hstart := toTics_nonneg (v := v) (by omega) hj.start_nonneg
    have hcycle := hj.cycle
    unfold callCycle
    simp only [if_pos hinteg]
    omega
  · exact fun hin => absurd hin hnothead
  · rw [h.length, hb.jobQueue]
    show 2 + specs.length + 1 < uintSize
    omega

theorem addJob_loaded (hv : 1 ≤ v) {specs : List JobData} (h : Loaded v frame specs s)
    {j : JobData} (hj : UserJob v j) (hsize : specs.length + 3 < uintSize) (id : Int) :
    Loaded v frame (specs ++ [j]) (addJob id s j) := by
  have hb : Booted (boot v frame) := boot_booted hv
  have hwf := h.clocked.settled.wf
  have htime : s.timeTics = 0 := h.run.timeTics.trans hb.time
  have htic : s.timeTicValue = v := by
    have hb' : (boot v frame).timeTicValue = v := by rw [boot_reclock hv]; rfl
    exact h.run.timeTicValue.trans hb'
  have hmap : s.classMap = defaultClassMap := h.run.classMap.trans hb.classMap
  obtain ⟨hreg, href⟩ := hj.registered htic htime hmap id
  have hclocked : Clocked .between (boot v frame).advanceSimTimeJob (addJob id s j) := by
    refine addJob_clocked h.clocked (addOk_user hv h hj hsize hreg) fun hin => ?_
    rw [href] at hin; cases hin
  have hrun := h.run.trans (sameRun_addJob id s j)
  have hold : ∀ i, i < s.numJobs →
      Function.update s.jobs s.numJobs (s.newJob id j) i = s.jobs i :=
    fun i hi => Function.update_of_ne (Nat.ne_of_lt hi) _ _
  have hnew : ∀ (k : Nat) i, (specs ++ [j])[k]? = some i → Registered v i
      (Function.update s.jobs s.numJobs (s.newJob id j) ((boot v frame).numJobs + k)) := by
    intro k i hk
    by_cases hlt : k < specs.length
    · rw [hold _ (by rw [h.numJobs]; exact Nat.add_lt_add_left hlt _)]
      rw [List.getElem?_append_left hlt] at hk
      exact h.new k i hk
    · -- the new job itself
      rw [List.getElem?_append_right (not_lt.mp hlt)] at hk
      have hk0 : k - specs.length = 0 := by
        have hlt' := (List.getElem?_eq_some_iff.mp hk).1
        rw [List.length_singleton] at hlt'
        omega
      have hkeq : k = specs.length := by omega
      rw [hk0, List.getElem?_cons_zero] at hk
      cases hk
      rw [hkeq, ← h.numJobs, Function.update_self]
      exact hreg
  have hsorted : SortedBy
      (fun i => (Function.update s.jobs s.numJobs (s.newJob id j) i).sortKey)
      (s.jobQueue.push (Function.update s.jobs s.numJobs (s.newJob id j)) s.numJobs).list := by
    refine SortedBy.insertAt_upperBound (h.sorted.imp_of_mem fun {a b} ha hb' hab => ?_)
    show (Function.update s.jobs s.numJobs (s.newJob id j) a).sortKey ≤
      (Function.update s.jobs s.numJobs (s.newJob id j) b).sortKey
    rw [hold a (hwf.below .scheduled a ha), hold b (hwf.below .scheduled b hb')]
    exact hab
  have heq := addJob_user h hj href
  rw [heq] at hclocked hrun ⊢
  refine ⟨hclocked, hrun, ?_, ?_, hnew, ?_, ?_, hsorted, ?_, h.freezeTimes, h.async, h.exec,
    h.trace⟩
  · show s.numJobs + 1 = _
    rw [h.numJobs, List.length_append, List.length_singleton, Nat.add_assoc]
  · intro i hi
    show Function.update s.jobs s.numJobs (s.newJob id j) i = _
    rw [hold i (by rw [h.numJobs]; exact Nat.lt_add_right _ hi)]
    exact h.old i hi
  · intro i
    show i ∈ insertAt _ s.numJobs s.jobQueue.list ↔ _ ∨ (_ ∧ i < s.numJobs + 1)
    rw [mem_insertAt, h.mem]
    constructor
    · rintro (rfl | hi | ⟨h1, h2⟩)
      · exact Or.inr ⟨by rw [h.numJobs]; exact Nat.le_add_right _ _, Nat.lt_succ_self _⟩
      · exact Or.inl hi
      · exact Or.inr ⟨h1, Nat.lt_succ_of_lt h2⟩
    · rintro (hi | ⟨h1, h2⟩)
      · exact Or.inr (Or.inl hi)
      · rcases Nat.lt_succ_iff_lt_or_eq.mp h2 with h2 | h2
        · exact Or.inr (Or.inr ⟨h1, h2⟩)
        · exact Or.inl h2
  · show (insertAt _ s.numJobs s.jobQueue.list).length = _
    rw [length_insertAt, h.length, List.length_append, List.length_singleton, Nat.add_assoc]
  · intro q hq
    rw [← h.others q hq]
    cases q <;> first | rfl | exact absurd rfl hq

/-! The objects, one after another. -/

theorem addJobs_loaded (hv : 1 ≤ v) (id : Int) :
    ∀ (jobs : List JobData) {specs : List JobData} {s : Executive}, Loaded v frame specs s →
      (∀ j ∈ jobs, UserJob v j) → specs.length + jobs.length + 3 < uintSize →
      Loaded v frame (specs ++ jobs) (jobs.foldl (addJob id) s)
  | [], specs, s, h, _, _ => by rw [List.append_nil]; exact h
  | j :: jobs, specs, s, h, hj, hsize => by
    rw [List.length_cons] at hsize
    have h' := addJob_loaded hv h (hj j (List.mem_cons_self ..)) (by omega) id
    have h'' := addJobs_loaded hv id jobs h' (fun i hi => hj i (List.mem_cons_of_mem _ hi))
      (by rw [List.length_append, List.length_singleton]; omega)
    rw [List.append_assoc] at h''
    exact h''

theorem addObjects_loaded (hv : 1 ≤ v) :
    ∀ (os : List (List JobData)) {specs : List JobData} {s : Executive}, Loaded v frame specs s →
      (∀ j ∈ os.flatten, UserJob v j) → specs.length + os.flatten.length + 3 < uintSize →
      Loaded v frame (specs ++ os.flatten) (os.foldl addJobsToQueue s)
  | [], specs, s, h, _, _ => by rw [List.flatten_nil, List.append_nil]; exact h
  | o :: os, specs, s, h, hj, hsize => by
    rw [List.flatten_cons] at hj hsize
    rw [List.length_append] at hsize
    have hnum : Loaded v frame specs { s with numSimObjects := s.numSimObjects + 1 } :=
      ⟨h.clocked.setNumSimObjects _, h.run.trans ⟨rfl, rfl, rfl, rfl, rfl, rfl, rfl, rfl, rfl⟩,
        h.numJobs, h.old, h.new, h.mem, h.length, h.sorted,
        fun q hq => by rw [← h.others q hq]; cases q <;> rfl,
        h.freezeTimes, h.async, h.exec, h.trace⟩
    have h' := addJobs_loaded hv (s.numSimObjects + 1) o hnum
      (fun i hi => hj i (List.mem_append_left _ hi)) (by omega)
    have h'' := addObjects_loaded hv os h' (fun i hi => hj i (List.mem_append_right _ hi))
      (by rw [List.length_append]; omega)
    rw [List.append_assoc] at h''
    exact h''

/-- **The objects of the simulation have been added.** -/
theorem start_loaded (hv : 1 ≤ v) (hframe : 1 ≤ frame) (hmax : frame ≤ maxLongLong)
    {objects : List SimObject} (hj : ∀ j ∈ allJobs objects, UserJob v j)
    (hsize : (allJobs objects).length + 3 < uintSize) :
    Loaded v frame (allJobs objects) (objects.foldl addSimObject (boot v frame)) := by
  have hfold : objects.foldl addSimObject (boot v frame) =
      (objects.flatMap SimObject.inOrder).foldl addJobsToQueue (boot v frame) := by
    rw [List.foldl_flatMap]
    rfl
  rw [hfold]
  have h := addObjects_loaded hv _ (boot_loaded hv hframe hmax) hj
    (by rw [List.length_nil, Nat.zero_add]; exact hsize)
  rw [List.nil_append] at h
  exact h

/-! ## The plan of the simulation -/

/-- The plan, for a scheduled queue split at the advancing job. -/
def planOf (s : Executive) (head tail : List JobId) : Plan where
  head := head
  tail := tail
  adv := s.advanceSimTimeJob
  frz := s.freezeJob
  jobs := s.jobs
  startTics := s.timeTics
  terminateTime := s.terminateTime

/-- **The order of the calls at one tic**: the jobs of the classes behind the advancing job come
    first, then the others, both by class, phase, object and id. -/
def callKey (s : Executive) (j : JobId) : ℕ ×ₗ SortKey :=
  toLex (if (s.jobs s.advanceSimTimeJob).jobClass < (s.jobs j).jobClass then 0 else 1,
    (s.jobs j).sortKey)

/-- The terminate time may be set. -/
theorem Loaded.setTerminateTime {specs : List JobData} (h : Loaded v frame specs s) {T : Int}
    (hT : T < maxLongLong) : Loaded v frame specs { s with terminateTime := T } := by
  have hrun : SameRun s { s with terminateTime := T } :=
    ⟨rfl, rfl, rfl, rfl, rfl, rfl, rfl, rfl, rfl⟩
  have hqueue : ∀ q, Executive.queue { s with terminateTime := T } q = s.queue q := by
    intro q; cases q <;> rfl
  refine ⟨⟨?_, h.clocked.clock.of_fields hrun rfl rfl hqueue rfl rfl, h.clocked.not_find⟩,
    h.run.trans hrun, h.numJobs, h.old, h.new, h.mem, h.length, h.sorted, ?_, h.freezeTimes,
    h.async, h.exec, h.trace⟩
  · exact h.clocked.settled.of_fields { h.clocked.settled.wf with terminate_lt := hT }
      rfl rfl rfl rfl rfl rfl
  · intro q hq
    rw [hqueue]
    exact h.others q hq

variable {specs : List JobData} {head tail : List JobId}

theorem Loaded.adv_eq (h : Loaded v frame specs s) :
    s.advanceSimTimeJob = (boot v frame).advanceSimTimeJob := h.clocked.settled.adv

/-- The two jobs of the executive are as the booted executive has them. -/
theorem Loaded.own_jobs (hv : 1 ≤ v) (h : Loaded v frame specs s) :
    s.jobs s.advanceSimTimeJob = (boot v frame).jobs (boot v frame).advanceSimTimeJob ∧
      s.jobs s.freezeJob = (boot v frame).jobs (boot v frame).freezeJob := by
  have hb : Booted (boot v frame) := boot_booted hv
  rw [h.adv_eq, h.run.freezeJob]
  have hlist : ((boot v frame).queue .scheduled).list = _ := hb.jobQueue
  exact ⟨h.old _ (hb.below .scheduled _ (by rw [hlist]; simp)),
    h.old _ (hb.below .scheduled _ (by rw [hlist]; simp))⟩

/-- **What stands in the scheduled queue.** -/
theorem Loaded.mem_cases (hv : 1 ≤ v) (h : Loaded v frame specs s)
    (hj : ∀ i ∈ specs, UserJob v i) {j : JobId} (hmem : j ∈ s.jobQueue.list) :
    j = s.advanceSimTimeJob ∨ j = s.freezeJob ∨
      ((boot v frame).numJobs ≤ j ∧ ∃ i, UserJob v i ∧ Registered v i (s.jobs j)) := by
  have hb : Booted (boot v frame) := boot_booted hv
  rcases (h.mem j).mp hmem with hold | ⟨hge, hlt⟩
  · rw [hb.jobQueue] at hold
    rw [h.adv_eq, h.run.freezeJob]
    rcases List.mem_cons.mp hold with he | he
    · exact Or.inl he
    · exact Or.inr (Or.inl (List.mem_singleton.mp he))
  · obtain ⟨k, rfl⟩ := Nat.exists_eq_add_of_le hge
    rw [h.numJobs] at hlt
    have hk : k < specs.length := Nat.lt_of_add_lt_add_left hlt
    exact Or.inr (Or.inr ⟨hge, specs[k], hj _ (List.getElem_mem hk),
      h.new k _ (List.getElem?_eq_getElem hk)⟩)

/-- The jobs of the user are those that do not reschedule themselves. -/
theorem Loaded.user_iff (hv : 1 ≤ v) (h : Loaded v frame specs s)
    (hj : ∀ i ∈ specs, UserJob v i) (hsplit : s.jobQueue.list = head ++ s.advanceSimTimeJob :: tail)
    (j : JobId) : (planOf s head tail).User j ↔ (boot v frame).numJobs ≤ j ∧ j < s.numJobs := by
  have hwf := h.clocked.settled.wf
  have hb : Booted (boot v frame) := boot_booted hv
  constructor
  · rintro ⟨hin, hsys⟩
    have hsys' : (s.jobs j).systemJobClass = false := hsys
    have hmem : j ∈ s.jobQueue.list := by
      rw [hsplit]
      rcases List.mem_append.mp hin with hin | hin
      · exact List.mem_append_left _ hin
      · exact List.mem_append_right _ (List.mem_cons_of_mem _ hin)
    refine ⟨?_, hwf.below .scheduled j hmem⟩
    rcases h.mem_cases hv hj hmem with rfl | rfl | ⟨hge, _⟩
    · rw [hwf.adv_system] at hsys'; cases hsys'
    · rw [hwf.freeze_system] at hsys'; cases hsys'
    · exact hge
  · rintro ⟨hge, hlt⟩
    have hmem := (h.mem j).mpr (Or.inr ⟨hge, hlt⟩)
    have hnot : ∀ i ∈ (boot v frame).jobQueue.list, j ≠ i := by
      rintro i hi rfl
      exact absurd (hb.below .scheduled _ hi) (not_lt.mpr hge)
    have hadv : j ≠ s.advanceSimTimeJob := by
      rw [h.adv_eq]; exact hnot _ (by rw [hb.jobQueue]; simp)
    have hfrz : j ≠ s.freezeJob := by
      rw [h.run.freezeJob]; exact hnot _ (by rw [hb.jobQueue]; simp)
    refine ⟨?_, ?_⟩
    · rw [hsplit] at hmem
      rcases List.mem_append.mp hmem with hin | hin
      · exact List.mem_append_left _ hin
      · exact List.mem_append_right _ ((List.mem_cons.mp hin).resolve_left hadv)
    · rcases h.mem_cases hv hj hmem with he | he | ⟨_, i, _, hreg⟩
      · exact absurd he hadv
      · exact absurd he hfrz
      · exact hreg.system

/-- **The head holds the classes before the advancing job**, the tail those behind it. -/
theorem Loaded.classes (hv : 1 ≤ v) (h : Loaded v frame specs s)
    (hj : ∀ i ∈ specs, UserJob v i)
    (hsplit : s.jobQueue.list = head ++ s.advanceSimTimeJob :: tail) :
    (∀ j ∈ head, (planOf s head tail).User j ∧ (s.jobs j).jobClass < 1015) ∧
      ∀ j ∈ tail, 1015 < (s.jobs j).jobClass ∧
        (j = s.freezeJob ∨ ((planOf s head tail).User j ∧ (s.jobs j).jobClassName = .integLoop)) := by
  have hwf := h.clocked.settled.wf
  have hb : Booted (boot v frame) := boot_booted hv
  obtain ⟨hadv, hfrz⟩ := h.own_jobs hv
  have hnd := hwf.nodup .scheduled
  rw [show (s.queue .scheduled).list = head ++ s.advanceSimTimeJob :: tail from hsplit] at hnd
  obtain ⟨_, hndtail, hcross⟩ := List.nodup_append.mp hnd
  have hsorted := h.sorted
  rw [hsplit] at hsorted
  obtain ⟨_, hright, hleft⟩ := List.pairwise_append.mp hsorted
  -- a job of the user, by its class
  have huser : ∀ j ∈ s.jobQueue.list, j ≠ s.advanceSimTimeJob → j ≠ s.freezeJob →
      (planOf s head tail).User j ∧ ((s.jobs j).jobClass < 1015 ∨
        (1015 < (s.jobs j).jobClass ∧ (s.jobs j).jobClassName = .integLoop)) := by
    intro j hmem hna hnf
    obtain ⟨hge, i, hi, hreg⟩ := ((h.mem_cases hv hj hmem).resolve_left hna).resolve_left hnf
    refine ⟨(h.user_iff hv hj hsplit j).mpr ⟨hge, hwf.below .scheduled j hmem⟩, ?_⟩
    have hsys := hi.system
    have hcls := hreg.jobClass
    rw [hreg.className]
    cases hn : i.jobClassName <;>
      simp [hn, defaultClassMap, JobClassName.isSystemJobClass] at hcls hsys ⊢ <;> omega
  constructor
  · intro j hjh
    have hmem : j ∈ s.jobQueue.list := by rw [hsplit]; exact List.mem_append_left _ hjh
    have hle := jobClass_le_of_sortKey (hleft j hjh _ (List.mem_cons_self ..))
    rw [hadv, hb.advClass] at hle
    have hna : j ≠ s.advanceSimTimeJob := hcross j hjh _ (List.mem_cons_self ..)
    have hnf : j ≠ s.freezeJob := by
      rintro rfl
      rw [hfrz, hb.frzClass] at hle
      omega
    obtain ⟨hu, hlt | ⟨hgt, _⟩⟩ := huser j hmem hna hnf
    · exact ⟨hu, hlt⟩
    · omega
  · intro j hjt
    have hmem : j ∈ s.jobQueue.list := by
      rw [hsplit]; exact List.mem_append_right _ (List.mem_cons_of_mem _ hjt)
    have hle := jobClass_le_of_sortKey ((List.pairwise_cons.mp hright).1 j hjt)
    rw [hadv, hb.advClass] at hle
    have hna : j ≠ s.advanceSimTimeJob := by
      rintro rfl
      exact (List.nodup_cons.mp hndtail).1 hjt
    by_cases hnf : j = s.freezeJob
    · refine ⟨?_, Or.inl hnf⟩
      rw [hnf, hfrz, hb.frzClass]
      decide
    · obtain ⟨hu, hlt | ⟨hgt, hinteg⟩⟩ := huser j hmem hna hnf
      · omega
      · exact ⟨hgt, Or.inr ⟨hu, hinteg⟩⟩

/-- A job of the user, with the text it comes from. -/
theorem Loaded.registered (hv : 1 ≤ v) (h : Loaded v frame specs s)
    (hj : ∀ i ∈ specs, UserJob v i)
    (hsplit : s.jobQueue.list = head ++ s.advanceSimTimeJob :: tail) {j : JobId}
    (hu : (planOf s head tail).User j) : ∃ i, UserJob v i ∧ Registered v i (s.jobs j) := by
  obtain ⟨hge, hlt⟩ := (h.user_iff hv hj hsplit j).mp hu
  have hmem := (h.mem j).mpr (Or.inr ⟨hge, hlt⟩)
  have hsys : (s.jobs j).systemJobClass = false := hu.2
  have hwf := h.clocked.settled.wf
  rcases h.mem_cases hv hj hmem with rfl | rfl | ⟨_, hi⟩
  · rw [hwf.adv_system] at hsys; cases hsys
  · rw [hwf.freeze_system] at hsys; cases hsys
  · exact hi

/-- The plan asks nothing of the jobs that they do not have. -/
theorem Loaded.plan_ok (hv : 1 ≤ v) (h : Loaded v frame specs s)
    (hj : ∀ i ∈ specs, UserJob v i)
    (hsplit : s.jobQueue.list = head ++ s.advanceSimTimeJob :: tail) :
    (planOf s head tail).Ok := by
  have hwf := h.clocked.settled.wf
  obtain ⟨hhead, htail⟩ := h.classes hv hj hsplit
  have hreg := fun j hu => h.registered hv hj hsplit (j := j) hu
  refine ⟨hwf.terminate_lt, fun j hu => ?_, fun j hu => ?_, fun j hu => ?_, fun j hu => ?_,
    fun j hm => (hhead j hm).1, fun j hm => ?_, hwf.freeze_system, hwf.adv_system⟩
  · obtain ⟨i, _, hr⟩ := hreg j hu
    exact hr.code
  · obtain ⟨i, _, hr⟩ := hreg j hu
    exact hr.disabled
  · obtain ⟨i, hi, hr⟩ := hreg j hu
    exact hr.cycle ▸ hi.cycle
  · obtain ⟨i, hi, hr⟩ := hreg j hu
    show (s.jobs j).nextTics ≤ (s.jobs j).stopTics
    rw [hr.next, hr.stop]
    exact hi.first_le_last hv
  · rcases (htail j hm).2 with he | ⟨hu, _⟩
    · exact Or.inr he
    · exact Or.inl hu

/-- **The run begins on its plan.** -/
theorem Loaded.periodic (hv : 1 ≤ v) (h : Loaded v frame specs s)
    (hj : ∀ i ∈ specs, UserJob v i)
    (hsplit : s.jobQueue.list = head ++ s.advanceSimTimeJob :: tail) (hT : 0 ≤ s.terminateTime)
    (hpc : s.pc = .freezeCheck) : Periodic (planOf s head tail) s := by
  have hb : Booted (boot v frame) := boot_booted hv
  have htime : s.timeTics = 0 := h.run.timeTics.trans hb.time
  obtain ⟨_, hfrz⟩ := h.own_jobs hv
  obtain ⟨hhead, htail⟩ := h.classes hv hj hsplit
  have hreg := fun j hu => h.registered hv hj hsplit (j := j) hu
  -- the first calls: of the head at the start or later, of the tail later
  have hnext : ∀ l t, (∀ j ∈ l, (planOf s head tail).User j → t ≤ (s.jobs j).nextTics) →
      NextFrom (planOf s head tail) s l t := by
    intro l t hl j hjl hu
    exact Cycle.isNext_first ((h.plan_ok hv hj hsplit).first_le j hu) (hl j hjl hu)
  have hnonneg : ∀ j, (planOf s head tail).User j → 0 ≤ (s.jobs j).nextTics := by
    intro j hu
    obtain ⟨i, hi, hr⟩ := hreg j hu
    rw [hr.next]
    exact hi.first_nonneg hv
  have hlater : ∀ j ∈ tail, (planOf s head tail).User j → 1 ≤ (s.jobs j).nextTics := by
    intro j hm hu
    rcases (htail j hm).2 with rfl | ⟨_, hinteg⟩
    · have hsys : (s.jobs s.freezeJob).systemJobClass = false := hu.2
      rw [h.clocked.settled.wf.freeze_system] at hsys
      cases hsys
    · obtain ⟨i, hi, hr⟩ := hreg j hu
      rw [hr.className] at hinteg
      have hstart := toTics_nonneg (v := v) (by omega) hi.start_nonneg
      have hcycle := hi.cycle
      rw [hr.next]
      unfold callCycle
      simp only [if_pos hinteg]
      omega
  unfold Periodic
  rw [hpc]
  refine ⟨⟨hsplit, rfl, rfl, fun j => rfl, ?_, h.freezeTimes, ?_, ?_, h.async, h.exec, rfl,
    le_refl _, ?_⟩, ⟨?_, ?_, ?_, ?_, ?_⟩⟩
  · show (s.jobs s.freezeJob).nextTics = _
    rw [hfrz]; exact hb.frzNext
  · exact (h.others .inputProcessorRun (by decide)).trans hb.input
  · intro q hq j hm
    rw [h.others q hq] at hm
    show (s.jobs j).code ≠ .user
    rw [h.old j (hb.below q j hm)]
    exact hb.others q hq j hm
  · rw [htime]; exact hT
  · intro j hm; cases hm
  · rw [htime]; exact hnext _ _ fun j _ hu => hnonneg j hu
  · rw [htime]
    exact hnext _ _ fun j hm hu => hlater j (List.mem_of_mem_take hm) hu
  · rw [htime]; exact hnext _ _ fun j _ hu => hnonneg j hu
  · have hnone : (planOf s head tail).due tail s.timeTics = [] := by
      refine Plan.due_eq_nil fun j hm hu hd => ?_
      have := hlater j hm hu
      have hfirst : (s.jobs j).nextTics ≤ s.timeTics := hd.1
      omega
    have hstart : (planOf s head tail).before s.timeTics = [] := Plan.before_start
    have htrace : userTrace (planOf s head tail) s = [] := by
      unfold userTrace
      rw [h.trace, List.filter_nil]
    rw [htrace, hstart, show (planOf s head tail).tail = tail from rfl, List.take_length, hnone]
    rfl

/-- The run begins with both invariants. -/
theorem Loaded.runInv (hv : 1 ≤ v) (hframe : 1 ≤ frame) (h : Loaded v frame specs s) :
    RunInv s ∧ ClockRun s := by
  have hboot := boot_started hv hframe
  have hpc : s.pc = .freezeCheck := h.run.pc.trans hboot.pc
  have hlt : s.timeTics < s.nextFrameCheckTics := by
    rw [h.run.timeTics, h.run.nextFrameCheckTics]
    exact hboot.frame
  refine ⟨Started.runInv ⟨h.clocked.settled.wf, hpc, h.clocked.settled.located, hlt⟩,
    Or.inr (Or.inr ⟨h.clocked.clock, fun q hq => ?_⟩)⟩
  rw [hpc] at hq
  cases hq

/-- The cycle of a job in the plan is the one its text asks for. -/
theorem Registered.cycle_eq {i : JobData} {j : JobId} (hr : Registered v i (s.jobs j)) :
    (planOf s head tail).cycle j = callCycle v i := by
  show (⟨(s.jobs j).nextTics, (s.jobs j).cycleTics, (s.jobs j).stopTics⟩ : Cycle) = _
  rw [hr.next, hr.cycle, hr.stop]

/-- The two parts of the queue are in the order of the calls, the tail first. -/
theorem Loaded.callKey_sorted (hv : 1 ≤ v) (h : Loaded v frame specs s)
    (hj : ∀ i ∈ specs, UserJob v i)
    (hsplit : s.jobQueue.list = head ++ s.advanceSimTimeJob :: tail) :
    SortedBy s.callKey head ∧ SortedBy s.callKey tail ∧
      ∀ i ∈ tail, ∀ j ∈ head, s.callKey i ≤ s.callKey j := by
  obtain ⟨hhead, htail⟩ := h.classes hv hj hsplit
  have hadv : (s.jobs s.advanceSimTimeJob).jobClass = 1015 := by
    rw [(h.own_jobs hv).1]
    exact (boot_booted hv).advClass
  have hkeyhead : ∀ j ∈ head, s.callKey j = toLex (1, (s.jobs j).sortKey) := by
    intro j hm
    unfold callKey
    rw [hadv, if_neg (not_lt.mpr (le_of_lt (hhead j hm).2))]
  have hkeytail : ∀ j ∈ tail, s.callKey j = toLex (0, (s.jobs j).sortKey) := by
    intro j hm
    unfold callKey
    rw [hadv, if_pos (htail j hm).1]
  have hsorted := h.sorted
  rw [hsplit] at hsorted
  obtain ⟨hsh, hright, _⟩ := List.pairwise_append.mp hsorted
  refine ⟨?_, ?_, ?_⟩
  · refine hsh.imp_of_mem fun {a b} ha hb hab => ?_
    show s.callKey a ≤ s.callKey b
    rw [hkeyhead a ha, hkeyhead b hb]
    exact Prod.Lex.toLex_le_toLex.mpr (Or.inr ⟨rfl, hab⟩)
  · refine (List.pairwise_cons.mp hright).2.imp_of_mem fun {a b} ha hb hab => ?_
    show s.callKey a ≤ s.callKey b
    rw [hkeytail a ha, hkeytail b hb]
    exact Prod.Lex.toLex_le_toLex.mpr (Or.inr ⟨rfl, hab⟩)
  · intro i hi j hm
    rw [hkeytail i hi, hkeyhead j hm]
    exact Prod.Lex.toLex_le_toLex.mpr (Or.inl Nat.zero_lt_one)

/-! ## The result -/

/-- **Periodic execution.**  The run ends; the job of the `k`-th text has been called once at each
    tic of its cycle up to the terminate time, and never else; the calls come in the order of
    `callKey`. -/
theorem periodic_calls {v frame T : Int} {objects : List SimObject} (hv : 1 ≤ v)
    (hframe : 1 ≤ frame) (hmax : frame ≤ maxLongLong) (hT0 : 0 ≤ T) (hT : T < maxLongLong)
    (hjobs : ∀ j ∈ allJobs objects, UserJob v j)
    (hsize : (allJobs objects).length + 3 < uintSize) :
    ∃ n, (run step (start v frame T objects) (List.replicate n idle)).pc = .terminated ∧
      (∀ (k : Nat) j, (allJobs objects)[k]? = some j → ∀ t,
        (run step (start v frame T objects) (List.replicate n idle)).trace.count
            ((boot v frame).numJobs + k, t) =
          if (callCycle v j).Due t ∧ t ≤ T then 1 else 0) ∧
      SortedBy (fun e => (toLex (e.2, (start v frame T objects).callKey e.1) :
          Int ×ₗ ℕ ×ₗ SortKey))
        ((run step (start v frame T objects) (List.replicate n idle)).trace.filter fun e =>
          (boot v frame).numJobs ≤ e.1 ∧ e.1 < (start v frame T objects).numJobs) := by
  have h := (start_loaded hv hframe hmax hjobs hsize).setTerminateTime hT
  have hstart : ({ objects.foldl addSimObject (boot v frame) with terminateTime := T } :
      Executive) = start v frame T objects := rfl
  rw [hstart] at h
  have hterm : (start v frame T objects).terminateTime = T := rfl
  generalize start v frame T objects = s at h hterm ⊢
  have hb : Booted (boot v frame) := boot_booted hv
  have htime : s.timeTics = 0 := h.run.timeTics.trans hb.time
  have hpc : s.pc = .freezeCheck := h.run.pc.trans (boot_started hv hframe).pc
  -- the queue, split at the advancing job
  obtain ⟨head, tail, hsplit⟩ : ∃ head tail,
      s.jobQueue.list = head ++ s.advanceSimTimeJob :: tail := by
    refine List.append_of_mem ((h.mem _).mpr (Or.inl ?_))
    rw [h.adv_eq, hb.jobQueue]
    exact List.mem_cons_self ..
  have huser := h.user_iff hv hjobs hsplit
  have hnd : ((planOf s head tail).head ++ (planOf s head tail).tail).Nodup := by
    have hnd := h.clocked.settled.wf.nodup .scheduled
    rw [show (s.queue .scheduled).list = head ++ s.advanceSimTimeJob :: tail from hsplit] at hnd
    exact (List.nodup_middle.mp hnd).of_cons
  obtain ⟨hinv, hclock⟩ := h.runInv hv hframe
  obtain ⟨n, hend, htrace⟩ := static_run (h.plan_ok hv hjobs hsplit) hinv hclock
    (h.periodic hv hjobs hsplit (by rw [hterm]; exact hT0) hpc)
  have hbefore : (planOf s head tail).before ((planOf s head tail).terminateTime + 1) =
      (planOf s head tail).before
        ((planOf s head tail).startTics + ((T + 1).toNat : Int)) := by
    have h1 : (planOf s head tail).startTics = 0 := htime
    have h2 : (planOf s head tail).terminateTime = T := hterm
    rw [h1, h2]
    congr 1
    omega
  refine ⟨n, hend, ?_, ?_⟩
  · intro k j hk t
    have hlt := (List.getElem?_eq_some_iff.mp hk).1
    have hr := h.new k j hk
    have hu : (planOf s head tail).User ((boot v frame).numJobs + k) := by
      rw [huser, h.numJobs]
      exact ⟨Nat.le_add_right _ _, Nat.add_lt_add_left hlt _⟩
    have hcount : (userTrace (planOf s head tail)
        (run step s (List.replicate n idle))).count ((boot v frame).numJobs + k, t) =
        (run step s (List.replicate n idle)).trace.count ((boot v frame).numJobs + k, t) :=
      List.count_filter (by simpa using hu)
    have hfirst : (planOf s head tail).startTics ≤
        ((planOf s head tail).cycle ((boot v frame).numJobs + k)).first := by
      show s.timeTics ≤ (s.jobs _).nextTics
      rw [htime, hr.next]
      exact (hjobs j (List.mem_of_getElem? hk)).first_nonneg hv
    have hle : (planOf s head tail).startTics ≤ (planOf s head tail).terminateTime + 1 := by
      show s.timeTics ≤ s.terminateTime + 1
      omega
    rw [← hcount, htrace, Plan.count_before hnd hle hu hfirst, hr.cycle_eq]
    refine if_congr (and_congr_right fun _ => ?_) rfl rfl
    show t < s.terminateTime + 1 ↔ _
    omega
  · have hfilter : ((run step s (List.replicate n idle)).trace.filter fun e =>
        (boot v frame).numJobs ≤ e.1 ∧ e.1 < s.numJobs) =
        userTrace (planOf s head tail) (run step s (List.replicate n idle)) := by
      unfold userTrace
      congr 1
      funext e
      exact decide_eq_decide.mpr (huser e.1).symm
    obtain ⟨hhead, htail, hcross⟩ := h.callKey_sorted hv hjobs hsplit
    rw [hfilter, htrace, hbefore]
    exact Plan.sorted_before hhead htail hcross _

/-- A sim object with a job of the class `scheduled` and a job of the class `integ_loop`, both with a
    cycle of one second. -/
def loopObject : SimObject :=
  .mk [{ id := 1, cycle := 1 }, { jobClassName := .integLoop, id := 2, cycle := 1 }] [] []

/-- One tic a second, ten tics a frame, three seconds. -/
theorem periodic_calls_loop :
    ∃ n, (run step (start 1 10 3 [loopObject]) (List.replicate n idle)).pc = .terminated ∧
      (∀ (k : Nat) j, (allJobs [loopObject])[k]? = some j → ∀ t,
        (run step (start 1 10 3 [loopObject]) (List.replicate n idle)).trace.count
            ((boot 1 10).numJobs + k, t) =
          if (callCycle 1 j).Due t ∧ t ≤ 3 then 1 else 0) ∧
      SortedBy (fun e => (toLex (e.2, (start 1 10 3 [loopObject]).callKey e.1) :
          Int ×ₗ ℕ ×ₗ SortKey))
        ((run step (start 1 10 3 [loopObject]) (List.replicate n idle)).trace.filter fun e =>
          (boot 1 10).numJobs ≤ e.1 ∧ e.1 < (start 1 10 3 [loopObject]).numJobs) := by
  refine periodic_calls (by decide) (by decide) (by decide) (by decide) (by decide) ?_ (by decide)
  intro j hj
  have hj' : j = { id := 1, cycle := 1 } ∨
      j = { jobClassName := .integLoop, id := 2, cycle := 1 } := by
    simpa [allJobs, loopObject, SimObject.inOrder, SimObject.allInOrder] using hj
  rcases hj' with rfl | rfl
  · exact ⟨rfl, rfl, rfl, rfl, rfl, ⟨1007, rfl, by decide⟩, by decide +kernel, by decide +kernel,
      by decide +kernel, by decide +kernel, by decide +kernel⟩
  · exact ⟨rfl, rfl, rfl, rfl, rfl, ⟨1017, rfl, by decide⟩, by decide +kernel, by decide +kernel,
      by decide +kernel, by decide +kernel, by decide +kernel⟩

/-- **The order of the classes is not the order of the calls.**  At tic 1 both jobs are due, and the
    `integ_loop` job, whose class comes last, is called first; and it has not been called at its
    start tic. -/
theorem integLoop_first_run :
    (run step (start 1 10 3 [loopObject]) (List.replicate 60 idle)).pc = .terminated ∧
      ((run step (start 1 10 3 [loopObject]) (List.replicate 60 idle)).trace.filter
        fun e => 4 ≤ e.1) = [(4, 0), (5, 1), (4, 1), (5, 2), (4, 2), (5, 3), (4, 3)] ∧
      ((start 1 10 3 [loopObject]).jobs 4).sortKey <
        ((start 1 10 3 [loopObject]).jobs 5).sortKey ∧
      ((start 1 10 3 [loopObject]).jobs 5).startTics = 0 := by
  decide +kernel

end Trick.Exec.Executive
