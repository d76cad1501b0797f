/-
  Dynamic events: where the calls of `integrate_dt` in one call of `integrate` begin and end.

  1. **Data** — what the integration jobs return, pass by pass, and the time-to-go answers of each dynamic
     event job.  The answers are 0 after the given ones, so each job's sequence is finite: it is at
     its root, or has no event.  `calls` logs the intervals of `integrate_dt`.

  2. **Program** — `processDynamicEvents` asks each job; a negative answer starts the search for the
     root, which integrates back and forth by the answers until one is 0.  If a job has fired, it
     integrates to the end of the interval and starts again on what is left of it.
     `IntegLoopScheduler` calls it with the end of the interval, `MultiDtIntegLoopScheduler`
     with its length.

  3. **Specification** — `Continuous`: the intervals follow one another from the time of the state, and
     if `integrate` returns 0 they end at the simulation time.

  4. **Result** — `continuous_iff`: when that holds, for each of the two schedulers.
-/
import Trick.Integrator.MultiDtIntegLoop

namespace Trick.Integ

open Trick.Lib Trick.Exec

/-! ## The jobs of the loop -/

/-- The integration and dynamic event jobs of a loop; the enabled ones, in the order of the queues. -/
structure LoopJobs where
  /-- `integ_ptr`, the default integrator. -/
  integPtr : Option Nat
  /-- The integration jobs: without `sup_class_data`, or with the pointer that it leads to. -/
  integJobs : List (Option (Option Nat))
  /-- What the integration jobs will return, a list for each pass; 0 where nothing is given. -/
  passes : List (List Int)
  /-- What each dynamic event job will answer; 0 after that. -/
  events : List (List ℚ)
  /-- The intervals of the calls of `integrate_dt`. -/
  calls : List (ℚ × ℚ) := []

/-- One pass over the integration jobs: the status, and what the last job returned. -/
def integPass (integPtr : Option Nat) (exPass : Int) :
    List (Option (Option Nat)) → List Int → Int → Int × Int
  | [], _, ipass => (0, ipass)
  | job :: jobs, answers, ipass =>
    if job.getD integPtr = none then (1, ipass)
    else if answers.headD 0 ≠ 0 ∧ answers.headD 0 ≠ exPass then (1, answers.headD 0)
    else integPass integPtr exPass jobs answers.tail (answers.headD 0)

/-- The passes of `integrate_dt`, until the last job of one returns 0: the status, and what is left. -/
def integPasses (integPtr : Option Nat) (jobs : List (Option (Option Nat))) (exPass ipass : Int) :
    List (List Int) → Int × List (List Int)
  | [] => ((integPass integPtr exPass jobs [] ipass).1, [])
  | answers :: passes =>
    let r := integPass integPtr exPass jobs answers ipass
    if r.1 ≠ 0 ∨ r.2 = 0 then (r.1, passes)
    else integPasses integPtr jobs (exPass + 1) r.2 passes

namespace LoopJobs

/-- What the next call of `integrate_dt` returns. -/
def integStatus (s : LoopJobs) : Int := (integPasses s.integPtr s.integJobs 1 0 s.passes).1

/-- `integrate_dt` -/
def integrateDt (s : LoopJobs) (tStart dt : ℚ) : LoopJobs × Int :=
  ({ s with
      passes := (integPasses s.integPtr s.integJobs 1 0 s.passes).2
      calls := s.calls ++ [(tStart, tStart + dt)] }, s.integStatus)

/-- Where a search stands: `tTo` is the time of the state, `answers` what the job has still to
    answer. -/
structure Search where
  loop : LoopJobs
  status : Int
  tTo : ℚ
  answers : List ℚ

/-- The `while` loop of `process_dynamic_events`, from the job's latest answer on: forward and backward
    alike it integrates from where the state is. -/
def searchRoot (s : LoopJobs) (tTo : ℚ) : List ℚ → Search
  | [] => ⟨s, 0, tTo, []⟩
  | tgo :: answers =>
    if tgo = 0 then ⟨s, 0, tTo, answers⟩
    else
      let tFrom := tTo
      let tTo := tFrom + tgo
      let r := s.integrateDt tFrom (tTo - tFrom)
      if r.2 ≠ 0 then ⟨r.1, r.2, tTo, answers⟩ else searchRoot r.1 tTo answers

/-- Where the loop over the jobs stands; `events` is what the jobs that were asked have still to
    answer. -/
structure Pass where
  loop : LoopJobs
  status : Int
  tTo : ℚ
  fired : Bool
  events : List (List ℚ)

/-- The loop over the dynamic event jobs. -/
def askEvents (s : LoopJobs) (tTo : ℚ) (fired : Bool) : List (List ℚ) → Pass
  | [] => ⟨s, 0, tTo, fired, []⟩
  | answers :: jobs =>
    if answers.headD 0 < 0 then
      let r := s.searchRoot tTo answers
      if r.status ≠ 0 then ⟨r.loop, r.status, r.tTo, true, r.answers :: jobs⟩
      else
        let p := askEvents r.loop r.tTo true jobs
        { p with events := r.answers :: p.events }
    else
      let p := askEvents s tTo fired jobs
      { p with events := answers.tail :: p.events }

/-- `process_dynamic_events`.  The first argument only makes the recursion structural;
    `answersLeft + 1` is enough of it. -/
def processDynamicEvents : Nat → LoopJobs → ℚ → ℚ → LoopJobs × Int
  | 0, s, _, _ => (s, 0)
  | fuel + 1, s, _, tEnd =>
    let p := s.askEvents tEnd false s.events
    let s := { p.loop with events := p.events }
    if p.status ≠ 0 then (s, p.status)
    else if p.fired then
      let tFrom := p.tTo
      let tTo := tEnd
      let r := s.integrateDt tFrom (tTo - tFrom)
      if r.2 ≠ 0 then r else processDynamicEvents fuel r.1 tFrom tTo
    else (s, 0)

/-- How many answers the dynamic event jobs have still to give. -/
def answersLeft (events : List (List ℚ)) : Nat := (events.map List.length).sum

/-- The part that the two schedulers share: the interval, and then the dynamic events, if there are
    jobs for them. -/
def integrateInterval (s : LoopJobs) (tStart dt tTo : ℚ) : LoopJobs × Int :=
  let r := s.integrateDt tStart dt
  if r.2 ≠ 0 then r
  else if r.1.events.isEmpty then r
  else processDynamicEvents (answersLeft r.1.events + 1) r.1 tStart tTo

end LoopJobs

/-- **`IntegLoopScheduler::integrate`**, up to the jobs that follow the integration; `pre` are the
    requests of the pre-integration jobs. -/
def IntegLoop.integrateJobs (s : IntegLoop) (pre : List ℚ) (jobs : LoopJobs) :
    LoopJobs × Option Int :=
  let tEnd := s.simTime
  let tStart := tEnd - s.nextCycle
  let s := pre.foldl IntegLoop.setIntegCycle s
  let r := { jobs with calls := [] }.integrateInterval tStart s.nextCycle tEnd
  (r.1, some r.2)

/-- **`MultiDtIntegLoopScheduler::integrate`**, up to the jobs that follow the integration; `none` if
    `exec_terminate_with_return` ends it. -/
def MultiDtIntegLoop.integrateJobs (s : MultiDtIntegLoop) (jobs : LoopJobs) :
    LoopJobs × Option Int :=
  let tEnd := s.simTime
  let tStart := tEnd - s.nextCycle
  let tStartTics := roundTics s.timeTicValue tStart
  if s.timeTics ≠ s.nextTic then ({ jobs with calls := [] }, none)
  else
    let varNextCycle : ℚ := ((s.timeTics - tStartTics : Int) : ℚ) / s.timeTicValue
    let r := { jobs with calls := [] }.integrateInterval tStart varNextCycle varNextCycle
    (r.1, some r.2)

/-- **Integrator time is continuous**: each call of `integrate_dt` begins where the one before it ended,
    the first one at the time of the state, and if 0 is returned the last one ended at the
    simulation time. -/
def Continuous (tStart simTime : ℚ) (r : LoopJobs × Option Int) : Prop :=
  ∃ t, Tiles tStart t r.1.calls ∧ (r.2 = some 0 → t = simTime)

/-- A dynamic event job answers at once that its event lies in the interval. -/
def LoopJobs.Fires (s : LoopJobs) : Prop := ∃ answers ∈ s.events, answers.headD 0 < 0

instance (s : LoopJobs) : Decidable s.Fires := inferInstanceAs (Decidable (∃ _ ∈ _, _))

namespace LoopJobs

/-! ## The search for a root -/

theorem tiles_integrateDt {x tStart dt tTo : ℚ} {s : LoopJobs} (h : Tiles x tStart s.calls)
    (hto : tStart + dt = tTo) : Tiles x tTo (s.integrateDt tStart dt).1.calls := by
  subst hto
  exact h.snoc

theorem prefix_integrateDt (s : LoopJobs) (tStart dt : ℚ) :
    s.calls <+: (s.integrateDt tStart dt).1.calls := List.prefix_append _ _

/-- The search integrates from where the state is, and says where it has left it. -/
theorem tiles_searchRoot {x : ℚ} (answers : List ℚ) : ∀ (s : LoopJobs) (tTo : ℚ),
    Tiles x tTo s.calls → Tiles x (s.searchRoot tTo answers).tTo (s.searchRoot tTo answers).loop.calls := by
  induction answers with
  | nil => exact fun s tTo h => h
  | cons tgo answers ih =>
    intro s tTo h
    unfold searchRoot
    split
    · exact h
    · have hstep : Tiles x (tTo + tgo) (s.integrateDt tTo (tTo + tgo - tTo)).1.calls :=
        tiles_integrateDt h (by ring)
      simp only
      split
      · exact hstep
      · exact ih _ _ hstep

/-- The search only adds to the log. -/
theorem prefix_searchRoot (answers : List ℚ) : ∀ (s : LoopJobs) (tTo : ℚ),
    s.calls <+: (s.searchRoot tTo answers).loop.calls := by
  induction answers with
  | nil => exact fun s tTo => List.prefix_refl _
  | cons tgo answers ih =>
    intro s tTo
    unfold searchRoot
    split
    · exact List.prefix_refl _
    · simp only
      split
      · exact prefix_integrateDt _ _ _
      · exact (prefix_integrateDt _ _ _).trans (ih (s.integrateDt tTo (tTo + tgo - tTo)).1 _)

/-- A search that begins integrates first from where it was told that the state is. -/
theorem first_searchRoot {tgo : ℚ} (hne : tgo ≠ 0) (answers : List ℚ) (s : LoopJobs) (tTo : ℚ) :
    ∃ z, s.calls ++ [(tTo, z)] <+: (s.searchRoot tTo (tgo :: answers)).loop.calls := by
  refine ⟨tTo + (tTo + tgo - tTo), ?_⟩
  unfold searchRoot
  rw [if_neg hne]
  simp only
  split
  · exact List.prefix_refl _
  · exact prefix_searchRoot answers (s.integrateDt tTo (tTo + tgo - tTo)).1 _

/-- It uses up at least the answer that it begins with. -/
theorem length_searchRoot (answers : List ℚ) : ∀ (s : LoopJobs) (tTo : ℚ),
    (s.searchRoot tTo answers).answers.length ≤ answers.length - 1 := by
  induction answers with
  | nil => exact fun s tTo => Nat.zero_le _
  | cons tgo answers ih =>
    intro s tTo
    unfold searchRoot
    split
    · exact Nat.le_refl _
    · simp only
      split
      · exact Nat.le_refl _
      · have := ih (s.integrateDt tTo (tTo + tgo - tTo)).1 (tTo + tgo)
        rw [List.length_cons]
        omega

/-! ## The loop over the event jobs -/

theorem tiles_askEvents {x : ℚ} (events : List (List ℚ)) : ∀ (s : LoopJobs) (tTo : ℚ) (fired : Bool),
    Tiles x tTo s.calls →
      Tiles x (s.askEvents tTo fired events).tTo (s.askEvents tTo fired events).loop.calls := by
  induction events with
  | nil => exact fun s tTo fired h => h
  | cons answers events ih =>
    intro s tTo fired h
    unfold askEvents
    split
    · have hsearch := tiles_searchRoot answers s tTo h
      simp only
      split
      · exact hsearch
      · exact ih _ _ true hsearch
    · exact ih s tTo fired h

theorem prefix_askEvents (events : List (List ℚ)) : ∀ (s : LoopJobs) (tTo : ℚ) (fired : Bool),
    s.calls <+: (s.askEvents tTo fired events).loop.calls := by
  induction events with
  | nil => exact fun s tTo fired => List.prefix_refl _
  | cons answers events ih =>
    intro s tTo fired
    unfold askEvents
    split
    · have hsearch := prefix_searchRoot answers s tTo
      simp only
      split
      · exact hsearch
      · exact hsearch.trans (ih _ _ true)
    · exact ih s tTo fired

/-- If a job fires, the first call of `integrate_dt` begins at the time that the loop was given. -/
theorem first_askEvents (events : List (List ℚ)) (s : LoopJobs) (tTo : ℚ) (fired : Bool)
    (h : ∃ answers ∈ events, answers.headD 0 < 0) :
    ∃ z, s.calls ++ [(tTo, z)] <+: (s.askEvents tTo fired events).loop.calls := by
  induction events with
  | nil =>
    obtain ⟨_, hmem, _⟩ := h
    exact absurd hmem List.not_mem_nil
  | cons answers events ih =>
    unfold askEvents
    by_cases hneg : answers.headD 0 < 0
    · rw [if_pos hneg]
      cases answers with
      | nil => exact absurd hneg (lt_irrefl 0)
      | cons tgo answers =>
        have hne : tgo ≠ 0 := ne_of_lt hneg
        obtain ⟨z, hz⟩ := first_searchRoot hne answers s tTo
        refine ⟨z, ?_⟩
        simp only
        split
        · exact hz
        · exact hz.trans (prefix_askEvents events _ _ true)
    · rw [if_neg hneg]
      refine ih ?_
      obtain ⟨answers', hmem, hneg'⟩ := h
      rcases List.mem_cons.mp hmem with rfl | hmem
      · exact absurd hneg' hneg
      · exact ⟨answers', hmem, hneg'⟩

theorem fired_askEvents (events : List (List ℚ)) : ∀ (s : LoopJobs) (tTo : ℚ) (fired : Bool),
    (fired = true ∨ ∃ answers ∈ events, answers.headD 0 < 0) →
      (s.askEvents tTo fired events).fired = true := by
  induction events with
  | nil =>
    rintro s tTo fired (h | ⟨_, hmem, _⟩)
    · exact h
    · exact absurd hmem List.not_mem_nil
  | cons answers events ih =>
    intro s tTo fired h
    unfold askEvents
    split
    · simp only
      split
      · rfl
      · exact ih _ _ true (.inl rfl)
    · next hneg =>
      refine ih s tTo fired (h.imp_right ?_)
      rintro ⟨answers', hmem, hneg'⟩
      rcases List.mem_cons.mp hmem with rfl | hmem
      · exact absurd hneg' hneg
      · exact ⟨answers', hmem, hneg'⟩

/-- If no job fires, nothing is integrated. -/
theorem quiet_askEvents (events : List (List ℚ)) (s : LoopJobs) (tTo : ℚ)
    (h : ¬ ∃ answers ∈ events, answers.headD 0 < 0) :
    (s.askEvents tTo false events).loop = s ∧ (s.askEvents tTo false events).status = 0 ∧
      (s.askEvents tTo false events).fired = false := by
  induction events with
  | nil => exact ⟨rfl, rfl, rfl⟩
  | cons answers events ih =>
    have hneg : ¬ answers.headD 0 < 0 := fun hn => h ⟨answers, List.mem_cons_self, hn⟩
    unfold askEvents
    rw [if_neg hneg]
    exact ih fun ⟨a, hmem, hn⟩ => h ⟨a, List.mem_cons_of_mem _ hmem, hn⟩

/-- Each job gives up an answer, if it has one; a job that fires has one. -/
theorem answersLeft_askEvents (events : List (List ℚ)) : ∀ (s : LoopJobs) (tTo : ℚ) (fired : Bool),
    answersLeft (s.askEvents tTo fired events).events ≤ answersLeft events ∧
      (fired = false → (s.askEvents tTo fired events).fired = true →
        answersLeft (s.askEvents tTo fired events).events < answersLeft events) := by
  induction events with
  | nil =>
    intro s tTo fired
    refine ⟨Nat.le_refl _, fun hf hf' => ?_⟩
    have hf' : fired = true := hf'
    exact absurd (hf.symm.trans hf') Bool.false_ne_true
  | cons answers events ih =>
    intro s tTo fired
    have hcons : ∀ (a : List ℚ) (l : List (List ℚ)),
        answersLeft (a :: l) = a.length + answersLeft l := fun _ _ => rfl
    unfold askEvents
    by_cases hneg : answers.headD 0 < 0
    · have hlen := length_searchRoot answers s tTo
      have hpos : 0 < answers.length := by
        cases answers with
        | nil => exact absurd hneg (lt_irrefl 0)
        | cons a l => exact Nat.succ_pos _
      rw [if_pos hneg]
      simp only
      split
      · rw [hcons, hcons]
        exact ⟨by omega, fun _ _ => by omega⟩
      · have hrest := (ih (s.searchRoot tTo answers).loop (s.searchRoot tTo answers).tTo true).1
        rw [hcons, hcons]
        exact ⟨by omega, fun _ _ => by omega⟩
    · rw [if_neg hneg]
      obtain ⟨hle, hlt⟩ := ih s tTo fired
      have htail : answers.tail.length ≤ answers.length := by
        rw [List.length_tail]
        omega
      simp only
      rw [hcons, hcons]
      refine ⟨by omega, fun hf hf' => ?_⟩
      have := hlt hf hf'
      omega

/-! ## The events of an interval -/

/-- **The fuel is enough**: any two that are greater than the number of answers left give the same. -/
theorem processDynamicEvents_fuel : ∀ (fuel fuel' : Nat) (s : LoopJobs) (tStart tEnd : ℚ),
    answersLeft s.events < fuel → answersLeft s.events < fuel' →
      processDynamicEvents fuel s tStart tEnd = processDynamicEvents fuel' s tStart tEnd := by
  intro fuel
  induction fuel with
  | zero => exact fun _ _ _ _ h => absurd h (Nat.not_lt_zero _)
  | succ fuel ih =>
    intro fuel' s tStart tEnd h h'
    cases fuel' with
    | zero => exact absurd h' (Nat.not_lt_zero _)
    | succ fuel' =>
      unfold processDynamicEvents
      simp only
      split
      · rfl
      · split
        · next hf =>
          have hlt := (answersLeft_askEvents s.events s tEnd false).2 rfl hf
          split
          · rfl
          · refine ih fuel' _ _ _ (lt_of_lt_of_le hlt ?_) (lt_of_lt_of_le hlt ?_)
            · exact Nat.le_of_lt_succ h
            · exact Nat.le_of_lt_succ h'
        · rfl

/-- **From the end of the interval back to it.** -/
theorem tiles_processDynamicEvents {x tEnd : ℚ} : ∀ (fuel : Nat) (s : LoopJobs) (tStart : ℚ),
    Tiles x tEnd s.calls → ∃ t, Tiles x t (processDynamicEvents fuel s tStart tEnd).1.calls ∧
      ((processDynamicEvents fuel s tStart tEnd).2 = 0 → t = tEnd) := by
  intro fuel
  induction fuel with
  | zero => exact fun s tStart h => ⟨tEnd, h, fun _ => rfl⟩
  | succ fuel ih =>
    intro s tStart h
    have hask := tiles_askEvents s.events s tEnd false h
    unfold processDynamicEvents
    simp only
    split
    · next hs => exact ⟨_, hask, fun h0 => absurd h0 hs⟩
    · split
      · -- the rest of the interval, with new events on it
        have hrest := tiles_integrateDt (s := { (s.askEvents tEnd false s.events).loop with
            events := (s.askEvents tEnd false s.events).events }) hask
          (add_sub_cancel (s.askEvents tEnd false s.events).tTo tEnd)
        split
        · next hs => exact ⟨_, hrest, fun h0 => absurd h0 hs⟩
        · exact ih _ _ hrest
      · next hf =>
        -- no job has fired, so nothing was integrated
        have hquiet : ¬ ∃ answers ∈ s.events, answers.headD 0 < 0 :=
          fun hfires => hf (fired_askEvents s.events s tEnd false (.inr hfires))
        refine ⟨tEnd, ?_, fun _ => rfl⟩
        rw [(quiet_askEvents s.events s tEnd hquiet).1]
        exact h

/-- Events that fire integrate first from the end that they were given. -/
theorem first_processDynamicEvents (fuel : Nat) {s : LoopJobs} (h : s.Fires) (tStart tEnd : ℚ) :
    ∃ z, s.calls ++ [(tEnd, z)] <+: (processDynamicEvents (fuel + 1) s tStart tEnd).1.calls := by
  have hgrows : ∀ (fuel : Nat) (s : LoopJobs) (tStart tEnd : ℚ),
      s.calls <+: (processDynamicEvents fuel s tStart tEnd).1.calls := by
    intro fuel
    induction fuel with
    | zero => exact fun s _ _ => List.prefix_refl _
    | succ fuel ih =>
      intro s tStart tEnd
      have hask := prefix_askEvents s.events s tEnd false
      unfold processDynamicEvents
      simp only
      split
      · exact hask
      · split
        · split
          · exact hask.trans (List.prefix_append _ _)
          · refine (hask.trans ?_).trans (ih _ _ _)
            exact List.prefix_append _ _
        · exact hask
  obtain ⟨z, hz⟩ := first_askEvents s.events s tEnd false h
  refine ⟨z, ?_⟩
  unfold processDynamicEvents
  simp only
  split
  · exact hz
  · split
    · split
      · exact hz.trans (List.prefix_append _ _)
      · refine (hz.trans ?_).trans (hgrows _ _ _ _)
        exact List.prefix_append _ _
    · exact hz

/-- Events that do not fire leave the state where it is. -/
theorem quiet_processDynamicEvents (fuel : Nat) {s : LoopJobs} (h : ¬ s.Fires) (tStart tEnd : ℚ) :
    (processDynamicEvents (fuel + 1) s tStart tEnd).1.calls = s.calls ∧
      (processDynamicEvents (fuel + 1) s tStart tEnd).2 = 0 := by
  obtain ⟨hloop, hstatus, hfired⟩ := quiet_askEvents s.events s tEnd h
  unfold processDynamicEvents
  simp only
  rw [hstatus, hfired, hloop]
  exact ⟨rfl, rfl⟩

/-- **The intervals of one call**, when the events are told that the interval ends at `tTo`: they follow
    one another up to `t` exactly if the integration jobs fail at once, or the interval ends at `tTo` and
    a job fires, or it ends at `t` and none does. -/
theorem integrateInterval_iff {s : LoopJobs} (hs : s.calls = []) {tStart dt tTo t : ℚ}
    (hto : tStart + dt = tTo → tTo = t) :
    (∃ t', Tiles tStart t' (s.integrateInterval tStart dt tTo).1.calls ∧
      ((s.integrateInterval tStart dt tTo).2 = 0 → t' = t)) ↔
      s.integStatus ≠ 0 ∨ s.Fires ∧ tStart + dt = tTo ∨ ¬ s.Fires ∧ tStart + dt = t := by
  let first := s.integrateDt tStart dt
  have hfirst : Tiles tStart (tStart + dt) first.1.calls := by
    show Tiles tStart (tStart + dt) (s.calls ++ [(tStart, tStart + dt)])
    rw [hs]
    exact ⟨rfl, rfl⟩
  have hfires : first.1.Fires ↔ s.Fires := Iff.rfl
  have hsecond : (s.integrateDt tStart dt).2 = s.integStatus := rfl
  unfold integrateInterval
  simp only [hsecond]
  by_cases hstatus : s.integStatus ≠ 0
  · rw [if_pos hstatus]
    exact iff_of_true ⟨_, hfirst, fun h0 => absurd h0 hstatus⟩ (.inl hstatus)
  rw [if_neg hstatus]
  by_cases hf : s.Fires
  · -- the events are processed
    have hne : ¬ first.1.events.isEmpty := by
      obtain ⟨answers, hmem, _⟩ := hf
      rw [List.isEmpty_iff]
      exact List.ne_nil_of_mem hmem
    rw [if_neg hne]
    constructor
    · rintro ⟨t', htiles, -⟩
      obtain ⟨z, l, hl⟩ := first_processDynamicEvents (answersLeft first.1.events)
        (hfires.mpr hf) tStart tTo
      rw [← hl, List.append_assoc] at htiles
      exact .inr (.inl ⟨hf, (hfirst.start_eq htiles).symm⟩)
    · rintro (h | ⟨-, h⟩ | ⟨h, -⟩)
      · exact absurd h hstatus
      · obtain ⟨t', htiles, hend⟩ := tiles_processDynamicEvents
          (answersLeft first.1.events + 1) first.1 tStart (h ▸ hfirst)
        exact ⟨t', htiles, fun h0 => (hend h0).trans (hto h)⟩
      · exact absurd hf h
  · -- nothing more is integrated
    have hcalls : ∀ r : LoopJobs × Int, r.1.calls = first.1.calls → r.2 = 0 →
        ((∃ t', Tiles tStart t' r.1.calls ∧ (r.2 = 0 → t' = t)) ↔
          s.integStatus ≠ 0 ∨ s.Fires ∧ tStart + dt = tTo ∨ ¬ s.Fires ∧ tStart + dt = t) := by
      intro r hr h0
      rw [hr]
      constructor
      · rintro ⟨t', htiles, hend⟩
        exact .inr (.inr ⟨hf, (hfirst.unique htiles).trans (hend h0)⟩)
      · rintro (h | ⟨h, -⟩ | ⟨-, h⟩)
        · exact absurd h hstatus
        · exact absurd h hf
        · exact ⟨_, hfirst, fun _ => h⟩
    split
    · exact hcalls _ rfl (not_not.mp hstatus)
    · obtain ⟨hc, h0⟩ := quiet_processDynamicEvents (answersLeft first.1.events)
        (fun h => hf (hfires.mp h)) tStart tTo
      exact hcalls _ hc h0

end LoopJobs

/-! ## The two schedulers -/

/-- **When integrator time is continuous.**  With one rate it is so unless the pre-integration jobs have
    changed the cycle that is being integrated; with several rates only if no event fires and the
    time of the state is a whole number of tics, or if the state was at time 0. -/
theorem continuous_iff (s : IntegLoop) (pre : List ℚ) (m : MultiDtIntegLoop) (jobs : LoopJobs) :
    (Continuous (s.simTime - s.nextCycle) s.simTime (s.integrateJobs pre jobs) ↔
      (pre.foldl IntegLoop.setIntegCycle s).nextCycle = s.nextCycle ∨ jobs.integStatus ≠ 0) ∧
    (Continuous (m.simTime - m.nextCycle) m.simTime (m.integrateJobs jobs) ↔
      m.timeTics ≠ m.nextTic ∨ jobs.integStatus ≠ 0 ∨ jobs.Fires ∧ m.nextCycle = m.simTime ∨
        ¬ jobs.Fires ∧ m.simTime - m.nextCycle =
          roundTics m.timeTicValue (m.simTime - m.nextCycle) / m.timeTicValue) := by
  refine ⟨?_, ?_⟩
  · unfold Continuous IntegLoop.integrateJobs
    simp only [Option.some.injEq]
    rw [LoopJobs.integrateInterval_iff rfl fun _ => rfl]
    have hcycle : ∀ c : ℚ, s.simTime - s.nextCycle + c = s.simTime ↔ c = s.nextCycle := by
      intro c
      constructor <;> intro h <;> linarith
    rw [hcycle, ← or_and_right, or_comm, and_iff_right (em _)]
    rfl
  · unfold Continuous MultiDtIntegLoop.integrateJobs
    simp only
    by_cases htic : m.timeTics ≠ m.nextTic
    · rw [if_pos htic]
      exact iff_of_true ⟨_, rfl, fun h => absurd h.symm (Option.some_ne_none 0)⟩ (.inl htic)
    rw [if_neg htic]
    simp only [Option.some.injEq]
    let tics := roundTics m.timeTicValue (m.simTime - m.nextCycle)
    have hvar : ((m.timeTics - tics : Int) : ℚ) / m.timeTicValue =
        m.simTime - tics / m.timeTicValue := by
      rw [Int.cast_sub, sub_div]
      rfl
    have hzero : m.simTime - m.nextCycle = 0 → (tics : ℚ) = 0 := by
      intro h
      show (roundTics m.timeTicValue (m.simTime - m.nextCycle) : ℚ) = 0
      rw [h, roundTics_zero, Int.cast_zero]
    rw [LoopJobs.integrateInterval_iff rfl]
    · have hfires : m.simTime - m.nextCycle + ((m.timeTics - tics : Int) : ℚ) / m.timeTicValue =
          ((m.timeTics - tics : Int) : ℚ) / m.timeTicValue ↔ m.nextCycle = m.simTime := by
        constructor <;> intro h <;> linarith
      have hquiet : m.simTime - m.nextCycle + ((m.timeTics - tics : Int) : ℚ) / m.timeTicValue =
          m.simTime ↔ m.simTime - m.nextCycle = tics / m.timeTicValue := by
        rw [hvar]
        constructor <;> intro h <;> linarith
      rw [hfires, hquiet]
      exact (or_iff_right htic).symm
    · intro h
      have h0 : m.simTime - m.nextCycle = 0 := by linarith
      show ((m.timeTics - tics : Int) : ℚ) / m.timeTicValue = m.simTime
      rw [hvar, hzero h0, zero_div, sub_zero]

/-- An event half a tic before the end of the interval; then the job is at its root. -/
def halfTicAgo : LoopJobs where
  integPtr := some 0
  integJobs := [none]
  passes := []
  events := [[-1 / 20, 0]]

/-- **An event takes the state to another time.**  With several rates, at the second call, the search
    goes on from the length of the interval (0.2 s) and not from its end (0.6 s), and so does the
    rest.  With one rate it is a pre-integration job that breaks the time, by asking for another cycle. -/
theorem not_continuous :
    let second := run MultiDtIntegLoop.step MultiDtIntegLoop.twoRates.initializeRates
      (MultiDtIntegLoop.stop 99 ++ [.advance 99])
    let first := run IntegLoop.step IntegLoop.oneSecond [.advance 99]
    (¬ Continuous (second.simTime - second.nextCycle) second.simTime (second.integrateJobs halfTicAgo) ∧
      (second.integrateJobs halfTicAgo).1.calls =
        [(2 / 5, 3 / 5), (1 / 5, 3 / 20), (3 / 20, 1 / 5)]) ∧
    ¬ Continuous (first.simTime - first.nextCycle) first.simTime
      (first.rescheduled.integrateJobs [1 / 2] halfTicAgo) := by
  intro second first
  have hsecond : (second.integrateJobs halfTicAgo).1.calls =
      [(2 / 5, 3 / 5), (1 / 5, 3 / 20), (3 / 20, 1 / 5)] := by decide +kernel
  have hfirst : (first.rescheduled.integrateJobs [1 / 2] halfTicAgo).1.calls =
      [(0, 1 / 2), (1, 19 / 20), (19 / 20, 1)] := by decide +kernel
  refine ⟨⟨?_, hsecond⟩, ?_⟩
  · rintro ⟨t, ht, -⟩
    rw [hsecond] at ht
    have h : (1 / 5 : ℚ) = 3 / 5 := ht.2.1
    norm_num at h
  · rintro ⟨t, ht, -⟩
    rw [hfirst] at ht
    have h : (1 : ℚ) = 1 / 2 := ht.2.1
    norm_num at h

end Trick.Integ
