/-
  `IPPythonEvent`: when a user event fires.

  An event has conditions, each enabled or not and on hold or not.  An evaluation goes through them, and the
  event fires when all of the enabled conditions have fired, or when any of them has.

  1. **Data.**  `Condition`, `Action` and `IPPythonEvent`; the truth of a condition at an evaluation, which
     comes from a variable, a job or a line of Python, is an argument.

  2. **Program.**  `Condition.evaluate`, the loop over the conditions (`evaluateLoop`), `processUserEvent`,
     `process`, and the commands of the input file (`step`).

  3. **Specification.**  `FiringRule`, about the log of the evaluations: a condition has fired when it is true,
     or is on hold and had fired before (`hasFired`).

  4. **Result.**  `firing_rule`: it holds in every run in which no evaluation for all of the conditions finds
     the first one disabled and another one enabled (`StepOk`).  The loop takes the first condition for the
     start of the conjunction, and with this one skipped the event starts from not fired.
-/
import Trick.Lib.Run

namespace Trick.UserEvent

open Trick.Lib

/-! ## Program -/

/-- `condition_t`, without what the truth of the condition is taken from. -/
structure Condition where
  enabled : Bool := true
  hold : Bool := false
  fired : Bool := false
  firedCount : Nat := 0
  firedTime : Int := -1

/-- `action_t`, without what the action does. -/
structure Action where
  enabled : Bool := true
  ran : Bool := false
  ranCount : Nat := 0
  ranTime : Int := -1

/-- **An evaluation of the conditions**, as it was: the flags of the conditions, what they evaluate to, and whether
    the event has fired. -/
structure Evaluation where
  condAll : Bool
  /-- `enabled` and `hold` of each condition. -/
  flags : List (Bool × Bool)
  values : Nat → Bool
  fired : Bool

/-- What the log of an event keeps. -/
inductive Entry where
  | evaluated (ev : Evaluation)
  /-- The condition was set anew. -/
  | defined (num : Nat)

structure IPPythonEvent where
  active : Bool := false
  manual : Bool := false
  manualFired : Bool := false
  condAll : Bool := false
  fired : Bool := false
  hold : Bool := false
  ran : Bool := false
  conditions : List Condition := []
  actions : List Action := []
  firedCount : Nat := 0
  firedTime : Int := -1
  ranCount : Nat := 0
  ranTime : Int := -1
  /-- Not in the source: the evaluations and definitions of conditions so far. -/
  log : List Entry := []

/-- One condition of the loop, which evaluates to `value` if it is evaluated. -/
def Condition.evaluate (currTime : Int) (value : Bool) (c : Condition) : Condition :=
  if c.enabled = false then { c with fired := false }
  else if c.hold && c.fired then c
  else if value then
    { c with
      fired := true
      firedCount := c.firedCount + 1
      firedTime := currTime }
  else { c with fired := false }

/-- `fired` and `hold` of the event behind the condition `ii`. -/
def accumulate (condAll : Bool) (ii : Nat) (c : Condition) (acc : Bool × Bool) : Bool × Bool :=
  if c.enabled = false then acc
  else if ii = 0 then (c.fired, c.hold)
  else if condAll then (acc.1 && c.fired, acc.2 && c.hold)
  else (acc.1 || c.fired, acc.2 || c.hold)

/-- The loop over the conditions from `ii` on, with `fired` and `hold` of the event. -/
def evaluateLoop (condAll : Bool) (currTime : Int) (values : Nat → Bool) :
    Nat → List Condition → Bool × Bool → List Condition × (Bool × Bool)
  | _, [], acc => ([], acc)
  | ii, c :: rest, acc =>
    let c := c.evaluate currTime (values ii)
    let done := evaluateLoop condAll currTime values (ii + 1) rest (accumulate condAll ii c acc)
    (c :: done.1, done.2)

namespace IPPythonEvent

/-- The part of `process_user_event` that is left out in manual mode. -/
def evaluateConditions (currTime : Int) (values : Nat → Bool) (e : IPPythonEvent) : IPPythonEvent :=
  let done := evaluateLoop e.condAll currTime values 0 e.conditions (e.fired, false)
  { e with
    conditions := done.1
    fired := done.2.1
    hold := done.2.2 }

/-- The loop over the actions: an action that is enabled is run. -/
def runActions (currTime : Int) (e : IPPythonEvent) : IPPythonEvent :=
  { e with
    actions := e.actions.map fun a =>
      if a.enabled then
        { a with
          ran := true
          ranCount := a.ranCount + 1
          ranTime := currTime }
      else { a with ran := false }
    ran := e.actions.any Action.enabled
    manualFired := e.manualFired && e.hold
    fired := e.fired && e.hold }

/-- `process_user_event`, and whether the event has fired. -/
def processUserEvent (currTime : Int) (values : Nat → Bool) (e : IPPythonEvent) : IPPythonEvent × Bool :=
  let start := { e with fired := false, ran := false }
  let e := if e.manual then start else start.evaluateConditions currTime values
  let itFired := e.manualFired || e.fired
  let e :=
    if itFired then
      { e with
        firedCount := e.firedCount + 1
        firedTime := currTime
        active := e.manualFired && e.active }
    else e
  let e := if itFired && !e.actions.isEmpty then e.runActions currTime else e
  let e :=
    if e.ran then
      { e with
        ranCount := e.ranCount + 1
        ranTime := currTime }
    else e
  (e, itFired)

/-- A call of `process_user_event`, written to the log if it evaluates the conditions. -/
def evaluate (currTime : Int) (values : Nat → Bool) (e : IPPythonEvent) : IPPythonEvent :=
  let done := e.processUserEvent currTime values
  let ev : Evaluation :=
    { condAll := e.condAll
      flags := e.conditions.map fun c => (c.enabled, c.hold)
      values := values
      fired := done.2 }
  { done.1 with log := if e.manual then e.log else e.log ++ [.evaluated ev] }

/-- `process`, of an event of the user. -/
def process (currTime : Int) (values : Nat → Bool) (e : IPPythonEvent) : IPPythonEvent :=
  if e.active || e.manualFired then e.evaluate currTime values else e

/-- `condition`: the condition `num` is set anew, or added when it is the next one. -/
def condition (num : Nat) (e : IPPythonEvent) : IPPythonEvent :=
  if num = e.conditions.length then
    { e with
      conditions := e.conditions ++ [{}]
      log := e.log ++ [.defined num] }
  else if num < e.conditions.length then
    { e with
      conditions := e.conditions.modify num fun c =>
        { c with
          enabled := true
          hold := false
          fired := false }
      log := e.log ++ [.defined num] }
  else e

/-- A command that changes one condition. -/
def changeCondition (f : Condition → Condition) (num : Nat) (e : IPPythonEvent) : IPPythonEvent :=
  { e with conditions := e.conditions.modify num f }

/-- `condition_enable` and `condition_disable` -/
def conditionEnable (on : Bool) (num : Nat) (e : IPPythonEvent) : IPPythonEvent :=
  e.changeCondition (fun c => { c with enabled := on }) num

/-- `condition_hold_on` and `condition_hold_off` -/
def conditionHold (on : Bool) (num : Nat) (e : IPPythonEvent) : IPPythonEvent :=
  e.changeCondition (fun c => { c with hold := on }) num

/-- `manual_on` -/
def manualOn (e : IPPythonEvent) : IPPythonEvent :=
  { e with
    manual := true
    manualFired := true
    hold := true
    fired := false }

/-- `manual_fire` -/
def manualFire (currTime : Int) (values : Nat → Bool) (e : IPPythonEvent) : IPPythonEvent :=
  let e :=
    { e with
      manual := true
      manualFired := true
      hold := false
      fired := false }
  e.evaluate currTime values

/-- `manual_off` -/
def manualOff (e : IPPythonEvent) : IPPythonEvent :=
  { e with
    manual := true
    manualFired := false
    hold := false
    fired := false }

/-- `manual_done` -/
def manualDone (e : IPPythonEvent) : IPPythonEvent :=
  { e with
    manual := false
    manualFired := false
    hold := false }

end IPPythonEvent

/-- A command of the input file, or the event's turn in the event manager. -/
inductive Command where
  | process (currTime : Int) (values : Nat → Bool)
  | activate (on : Bool)
  | condition (num : Nat)
  | conditionEnable (on : Bool) (num : Nat)
  | conditionHold (on : Bool) (num : Nat)
  | conditionAll (all : Bool)
  | manualOn
  | manualFire (currTime : Int) (values : Nat → Bool)
  | manualOff
  | manualDone

def step (e : IPPythonEvent) : Command → IPPythonEvent
  | .process currTime values => e.process currTime values
  | .activate on => { e with active := on }
  | .condition num => e.condition num
  | .conditionEnable on num => e.conditionEnable on num
  | .conditionHold on num => e.conditionHold on num
  | .conditionAll all => { e with condAll := all }
  | .manualOn => e.manualOn
  | .manualFire currTime values => e.manualFire currTime values
  | .manualOff => e.manualOff
  | .manualDone => e.manualDone

/-! ## Specification -/

/-- The condition was enabled at the evaluation. -/
def Evaluation.Enabled (ev : Evaluation) (i : Nat) : Prop := ∃ hold, ev.flags[i]? = some (true, hold)

/-- The condition was on hold at the evaluation. -/
def Evaluation.Held (ev : Evaluation) (i : Nat) : Prop := ∃ enabled, ev.flags[i]? = some (enabled, true)

/-- **A condition has fired**, by the log, the last entry first: at the last evaluation it was enabled, and it was
    true, or on hold and had fired before. -/
def HasFired (i : Nat) : List Entry → Prop
  | [] => False
  | .evaluated ev :: earlier => ev.Enabled i ∧ (ev.values i = true ∨ (ev.Held i ∧ HasFired i earlier))
  | .defined num :: earlier => num ≠ i ∧ HasFired i earlier

/-- **The rule for one evaluation**: with `condition_all` the event fires if at least one condition is enabled and
    every enabled one has fired, with `condition_any` if an enabled one has fired. -/
def Evaluation.Right (earlier : List Entry) (ev : Evaluation) : Prop :=
  if ev.condAll then
    ev.fired = true ↔ (∃ i, ev.Enabled i) ∧ ∀ i, ev.Enabled i → HasFired i (.evaluated ev :: earlier)
  else
    ev.fired = true ↔ ∃ i, ev.Enabled i ∧ HasFired i (.evaluated ev :: earlier)

/-- **The firing rule**, for all evaluations of a log. -/
def FiringRule (log : List Entry) : Prop :=
  ∀ earlier ev later, log = earlier ++ .evaluated ev :: later → ev.Right earlier.reverse

/-- The event's turn comes when it is active or was fired by hand. -/
def Evaluates (e : IPPythonEvent) : Prop := e.manual = false ∧ (e.active || e.manualFired) = true

instance (e : IPPythonEvent) : Decidable (Evaluates e) := inferInstanceAs (Decidable (_ ∧ _))

/-- **Where the rule is kept**: an evaluation for any of the conditions, or one that finds the first condition
    enabled, or all of them disabled. -/
def StepOk (e : IPPythonEvent) : Command → Prop
  | .process _ _ => Evaluates e →
    e.condAll = false ∨ (∀ c ∈ e.conditions.head?, c.enabled = true) ∨ ∀ c ∈ e.conditions, c.enabled = false
  | _ => True

instance (e : IPPythonEvent) : (c : Command) → Decidable (StepOk e c)
  | .process _ _ => inferInstanceAs (Decidable (Evaluates e →
      e.condAll = false ∨ (∀ c ∈ e.conditions.head?, c.enabled = true) ∨ ∀ c ∈ e.conditions, c.enabled = false))
  | .activate _ | .condition _ | .conditionEnable _ _ | .conditionHold _ _ | .conditionAll _ | .manualOn
  | .manualFire _ _ | .manualOff | .manualDone => isTrue trivial

/-! ## The loop over the conditions -/

section Loop

variable {currTime : Int} {values : Nat → Bool} {value : Bool}

@[simp] theorem Condition.evaluate_enabled (c : Condition) : (c.evaluate currTime value).enabled = c.enabled := by
  unfold Condition.evaluate
  split_ifs <;> rfl

/-- **One condition**: it has fired behind its evaluation if it is enabled, and is true, or stays fired. -/
theorem Condition.evaluate_fired (c : Condition) :
    (c.evaluate currTime value).fired = true ↔
      c.enabled = true ∧ (value = true ∨ (c.hold = true ∧ c.fired = true)) := by
  unfold Condition.evaluate
  cases henabled : c.enabled with
  | false => simp
  | true =>
    cases hhold : c.hold <;> cases hfired : c.fired <;> cases value <;> simp [hfired]

/-- The conditions behind the loop are those that were evaluated one by one. -/
theorem evaluateLoop_conditions (currTime : Int) (values : Nat → Bool) (condAll : Bool) (ii : Nat)
    (l : List Condition) (acc : Bool × Bool) :
    (evaluateLoop condAll currTime values ii l acc).1 =
      l.mapIdx fun k c => c.evaluate currTime (values (ii + k)) := by
  induction l generalizing ii acc with
  | nil => rfl
  | cons c rest ih =>
    rw [List.mapIdx_cons]
    show c.evaluate currTime (values ii) :: _ = _
    rw [ih]
    have hshift : (fun k (c : Condition) => c.evaluate currTime (values (ii + 1 + k))) =
        fun k c => c.evaluate currTime (values (ii + (k + 1))) := by
      funext k c
      rw [Nat.add_assoc, Nat.add_comm 1 k]
    rw [hshift]
    rfl

/-- `fired` of the event behind the first condition: a conjunction or a disjunction over those that are enabled. -/
theorem evaluateLoop_fired (currTime : Int) (values : Nat → Bool) (condAll : Bool) (ii : Nat)
    (l : List Condition) (acc : Bool × Bool) :
    (evaluateLoop condAll currTime values (ii + 1) l acc).2.1 = true ↔
      if condAll then acc.1 = true ∧ ∀ c ∈ (evaluateLoop condAll currTime values (ii + 1) l acc).1,
        c.enabled = true → c.fired = true
      else acc.1 = true ∨ ∃ c ∈ (evaluateLoop condAll currTime values (ii + 1) l acc).1,
        c.enabled = true ∧ c.fired = true := by
  induction l generalizing ii acc with
  | nil => cases condAll <;> simp [evaluateLoop]
  | cons c rest ih =>
    have hrest := ih (ii + 1) (accumulate condAll (ii + 1) (c.evaluate currTime (values (ii + 1))) acc)
    show (evaluateLoop condAll currTime values (ii + 1 + 1) rest _).2.1 = true ↔ _
    rw [hrest]
    show _ ↔ if condAll then acc.1 = true ∧ ∀ c' ∈ c.evaluate currTime (values (ii + 1)) ::
        (evaluateLoop condAll currTime values (ii + 1 + 1) rest _).1, c'.enabled = true → c'.fired = true
      else acc.1 = true ∨ ∃ c' ∈ c.evaluate currTime (values (ii + 1)) ::
        (evaluateLoop condAll currTime values (ii + 1 + 1) rest _).1, c'.enabled = true ∧ c'.fired = true
    generalize c.evaluate currTime (values (ii + 1)) = c'
    rw [List.forall_mem_cons, List.exists_mem_cons_iff]
    unfold accumulate
    cases condAll <;> cases henabled : c'.enabled <;> simp [and_assoc, or_assoc]

/-- **The whole loop**: for all of the conditions the first one has to be enabled, and every enabled one to have
    fired; for any of them, an enabled one to have fired. -/
theorem evaluateLoop_spec (currTime : Int) (values : Nat → Bool) (condAll : Bool) (l : List Condition) :
    (evaluateLoop condAll currTime values 0 l (false, false)).2.1 = true ↔
      if condAll then (∃ c ∈ l.head?, c.enabled = true) ∧
        ∀ c ∈ (evaluateLoop condAll currTime values 0 l (false, false)).1, c.enabled = true → c.fired = true
      else ∃ c ∈ (evaluateLoop condAll currTime values 0 l (false, false)).1, c.enabled = true ∧ c.fired = true := by
  cases l with
  | nil => cases condAll <;> simp [evaluateLoop]
  | cons c rest =>
    have hrest := evaluateLoop_fired currTime values condAll 0 rest
      (accumulate condAll 0 (c.evaluate currTime (values 0)) (false, false))
    show (evaluateLoop condAll currTime values (0 + 1) rest _).2.1 = true ↔ _
    rw [hrest]
    have hhead : (∃ c' ∈ (c :: rest).head?, c'.enabled = true) ↔
        (c.evaluate currTime (values 0)).enabled = true := by simp
    rw [hhead]
    show _ ↔ if condAll then _ ∧ ∀ c' ∈ c.evaluate currTime (values 0) ::
        (evaluateLoop condAll currTime values (0 + 1) rest _).1, c'.enabled = true → c'.fired = true
      else ∃ c' ∈ c.evaluate currTime (values 0) ::
        (evaluateLoop condAll currTime values (0 + 1) rest _).1, c'.enabled = true ∧ c'.fired = true
    generalize c.evaluate currTime (values 0) = c'
    rw [List.forall_mem_cons, List.exists_mem_cons_iff]
    unfold accumulate
    cases condAll <;> cases henabled : c'.enabled <;> simp

end Loop

/-! ## One evaluation -/

/-- The evaluation that a call writes to the log. -/
def evaluationOf (currTime : Int) (values : Nat → Bool) (e : IPPythonEvent) : Evaluation :=
  { condAll := e.condAll
    flags := e.conditions.map fun c => (c.enabled, c.hold)
    values := values
    fired := (evaluateLoop e.condAll currTime values 0 e.conditions (false, false)).2.1 }

/-- The actions, and what is counted, do not touch the conditions. -/
theorem processUserEvent_manual {currTime : Int} {values : Nat → Bool} {e : IPPythonEvent} (h : e.manual = true) :
    (e.processUserEvent currTime values).1.manual = true ∧
      (e.processUserEvent currTime values).1.conditions = e.conditions := by
  unfold IPPythonEvent.processUserEvent IPPythonEvent.runActions
  simp only [h, if_true]
  split_ifs <;> exact ⟨rfl, rfl⟩

theorem processUserEvent_conditions {currTime : Int} {values : Nat → Bool} {e : IPPythonEvent}
    (h : e.manual = false) (hfired : e.manualFired = false) :
    (e.processUserEvent currTime values).1.manual = false ∧
      (e.processUserEvent currTime values).1.manualFired = false ∧
      (e.processUserEvent currTime values).1.conditions =
        (evaluateLoop e.condAll currTime values 0 e.conditions (false, false)).1 ∧
      (e.processUserEvent currTime values).2 =
        (evaluateLoop e.condAll currTime values 0 e.conditions (false, false)).2.1 := by
  unfold IPPythonEvent.processUserEvent IPPythonEvent.runActions IPPythonEvent.evaluateConditions
  simp only [h, hfired, Bool.false_eq_true, if_false, Bool.false_or, Bool.false_and]
  split_ifs <;> simp

/-! ## The invariant -/

/-- **The event between two commands.** -/
structure Right (e : IPPythonEvent) : Prop where
  rule : FiringRule e.log
  /-- The conditions that are fired are those that have fired by the log. -/
  conditions : ∀ i, HasFired i e.log.reverse ↔ ∃ c, e.conditions[i]? = some c ∧ c.fired = true
  manual : e.manual = false → e.manualFired = false

theorem firingRule_concat {log : List Entry} {entry : Entry} (h : FiringRule log)
    (hentry : ∀ ev, entry = .evaluated ev → ev.Right log.reverse) : FiringRule (log ++ [entry]) := by
  have hsplit := forall_split_concat (P := fun earlier e => ∀ ev, e = .evaluated ev → ev.Right earlier.reverse)
    (fun earlier e later heq ev he => h earlier ev later (he ▸ heq)) hentry
  exact fun earlier ev later heq => hsplit earlier _ later heq ev rfl

section Evaluation

variable {currTime : Int} {values : Nat → Bool} {e : IPPythonEvent}

theorem enabled_iff (i : Nat) :
    (evaluationOf currTime values e).Enabled i ↔ ∃ c, e.conditions[i]? = some c ∧ c.enabled = true := by
  unfold Evaluation.Enabled evaluationOf
  simp only [List.getElem?_map, Option.map_eq_some_iff, Prod.mk.injEq]
  constructor
  · rintro ⟨hold, c, hc, henabled, -⟩
    exact ⟨c, hc, henabled⟩
  · rintro ⟨c, hc, henabled⟩
    exact ⟨c.hold, c, hc, henabled, rfl⟩

theorem held_iff (i : Nat) :
    (evaluationOf currTime values e).Held i ↔ ∃ c, e.conditions[i]? = some c ∧ c.hold = true := by
  unfold Evaluation.Held evaluationOf
  simp only [List.getElem?_map, Option.map_eq_some_iff, Prod.mk.injEq]
  constructor
  · rintro ⟨enabled, c, hc, -, hhold⟩
    exact ⟨c, hc, hhold⟩
  · rintro ⟨c, hc, hhold⟩
    exact ⟨c.enabled, c, hc, rfl, hhold⟩

/-- **The conditions that are fired behind an evaluation** are those that have fired by the log with it. -/
theorem hasFired_evaluated (h : Right e) (i : Nat) :
    HasFired i (.evaluated (evaluationOf currTime values e) :: e.log.reverse) ↔
      ∃ c, (evaluateLoop e.condAll currTime values 0 e.conditions (false, false)).1[i]? = some c ∧
        c.fired = true := by
  show (evaluationOf currTime values e).Enabled i ∧
    (values i = true ∨ ((evaluationOf currTime values e).Held i ∧ HasFired i e.log.reverse)) ↔ _
  rw [enabled_iff, held_iff, h.conditions, evaluateLoop_conditions, List.getElem?_mapIdx]
  cases hc : e.conditions[i]? with
  | none => simp
  | some c => simp [Condition.evaluate_fired]

/-- **An evaluation keeps the rule**, unless it is for all of the conditions, and the first one is disabled and
    another one is not. -/
theorem evaluation_right (h : Right e)
    (hok : e.condAll = false ∨ (∀ c ∈ e.conditions.head?, c.enabled = true) ∨
      ∀ c ∈ e.conditions, c.enabled = false) :
    (evaluationOf currTime values e).Right e.log.reverse := by
  have hspec := evaluateLoop_spec currTime values e.condAll e.conditions
  have hfiredIff := @hasFired_evaluated currTime values _ h
  have hconditions := evaluateLoop_conditions currTime values e.condAll 0 e.conditions (false, false)
  generalize hdone : (evaluateLoop e.condAll currTime values 0 e.conditions (false, false)).1 = done
    at hspec hfiredIff hconditions
  -- the flags behind the loop are those before it
  have hflags : ∀ i c, done[i]? = some c →
      (c.enabled = true ↔ (evaluationOf currTime values e).Enabled i) := by
    intro i c hc
    rw [hconditions, List.getElem?_mapIdx, Option.map_eq_some_iff] at hc
    obtain ⟨c₀, hc₀, rfl⟩ := hc
    rw [enabled_iff, hc₀]
    simp
  have hat : ∀ i, (evaluationOf currTime values e).Enabled i → ∃ c, done[i]? = some c := by
    intro i henabled
    obtain ⟨c, hc, -⟩ := (enabled_iff i).mp henabled
    rw [hconditions, List.getElem?_mapIdx, hc]
    exact ⟨_, rfl⟩
  unfold Evaluation.Right
  show if e.condAll then (evaluateLoop e.condAll currTime values 0 e.conditions (false, false)).2.1 = true ↔ _
    else (evaluateLoop e.condAll currTime values 0 e.conditions (false, false)).2.1 = true ↔ _
  rw [hspec]
  cases hall : e.condAll with
  | false =>
    simp only [Bool.false_eq_true, if_false]
    constructor
    · rintro ⟨c, hc, henabled, hfired⟩
      obtain ⟨i, hi⟩ := List.mem_iff_getElem?.mp hc
      exact ⟨i, (hflags i c hi).mp henabled, (hfiredIff i).mpr ⟨c, hi, hfired⟩⟩
    · rintro ⟨i, henabled, hfired⟩
      obtain ⟨c, hc, hfired⟩ := (hfiredIff i).mp hfired
      exact ⟨c, List.mem_of_getElem? hc, (hflags i c hc).mpr henabled, hfired⟩
  | true =>
    simp only [if_true]
    have hevery : (∀ c ∈ done, c.enabled = true → c.fired = true) ↔
        ∀ i, (evaluationOf currTime values e).Enabled i →
          HasFired i (.evaluated (evaluationOf currTime values e) :: e.log.reverse) := by
      constructor
      · intro hevery i henabled
        obtain ⟨c, hc⟩ := hat i henabled
        exact (hfiredIff i).mpr ⟨c, hc, hevery c (List.mem_of_getElem? hc) ((hflags i c hc).mpr henabled)⟩
      · intro hevery c hc henabled
        obtain ⟨i, hi⟩ := List.mem_iff_getElem?.mp hc
        obtain ⟨c', hc', hfired⟩ := (hfiredIff i).mp (hevery i ((hflags i c hi).mp henabled))
        rw [hi] at hc'
        cases hc'
        exact hfired
    have hsome : (∃ c ∈ e.conditions.head?, c.enabled = true) ↔
        ∃ i, (evaluationOf currTime values e).Enabled i := by
      simp only [enabled_iff]
      constructor
      · rintro ⟨c, hc, henabled⟩
        exact ⟨0, c, (List.head?_eq_getElem? ..).symm.trans hc, henabled⟩
      · rintro ⟨i, c, hc, henabled⟩
        have hmem := List.mem_of_getElem? hc
        rcases hok with hany | hfirst | hnone
        · rw [hall] at hany
          cases hany
        · cases hl : e.conditions with
          | nil =>
            rw [hl] at hmem
            cases hmem
          | cons first rest =>
            rw [hl] at hfirst
            exact ⟨first, rfl, hfirst first rfl⟩
        · rw [hnone c hmem] at henabled
          cases henabled
    rw [hsome, hevery]

end Evaluation

/-! ## One command -/

section Commands

variable {e : IPPythonEvent}

/-- A call of `process_user_event`. -/
theorem Right.evaluate (h : Right e) (currTime : Int) (values : Nat → Bool)
    (hok : e.manual = false → e.condAll = false ∨ (∀ c ∈ e.conditions.head?, c.enabled = true) ∨
      ∀ c ∈ e.conditions, c.enabled = false) : Right (e.evaluate currTime values) := by
  cases hmanual : e.manual with
  | true =>
    -- by hand: the conditions and the log stay
    obtain ⟨hmanual', hconditions⟩ := @processUserEvent_manual currTime values _ hmanual
    have hlog : (e.evaluate currTime values).log = e.log := by
      show (if e.manual then e.log else _) = e.log
      rw [if_pos hmanual]
    refine ⟨?_, ?_, ?_⟩
    · rw [hlog]
      exact h.rule
    · intro i
      rw [hlog, h.conditions]
      show _ ↔ ∃ c, (e.processUserEvent currTime values).1.conditions[i]? = some c ∧ c.fired = true
      rw [hconditions]
    · intro hfalse
      have hfalse : (e.processUserEvent currTime values).1.manual = false := hfalse
      rw [hmanual'] at hfalse
      cases hfalse
  | false =>
    obtain ⟨-, hmanualFired, hconditions, hfired⟩ :=
      @processUserEvent_conditions currTime values _ hmanual (h.manual hmanual)
    have hlog : (e.evaluate currTime values).log = e.log ++ [.evaluated (evaluationOf currTime values e)] := by
      show (if e.manual then e.log else e.log ++ [.evaluated
        { condAll := e.condAll
          flags := e.conditions.map fun c => (c.enabled, c.hold)
          values := values
          fired := (e.processUserEvent currTime values).2 }]) = _
      rw [if_neg (by rw [hmanual]; decide), hfired]
      rfl
    refine ⟨?_, ?_, fun _ => hmanualFired⟩
    · rw [hlog]
      refine firingRule_concat h.rule fun ev hev => ?_
      cases hev
      exact evaluation_right h (hok hmanual)
    · intro i
      rw [hlog, List.reverse_append]
      show HasFired i (.evaluated (evaluationOf currTime values e) :: e.log.reverse) ↔
        ∃ c, (e.processUserEvent currTime values).1.conditions[i]? = some c ∧ c.fired = true
      rw [hconditions]
      exact hasFired_evaluated h i

/-- A flag of a condition does not change whether it has fired. -/
theorem Right.changeCondition (h : Right e) {f : Condition → Condition} (hf : ∀ c, (f c).fired = c.fired) (num : Nat) :
    Right (e.changeCondition f num) := by
  refine ⟨h.rule, ?_, h.manual⟩
  intro i
  show HasFired i e.log.reverse ↔ ∃ c, (e.conditions.modify num f)[i]? = some c ∧ c.fired = true
  rw [h.conditions, List.getElem?_modify]
  cases hc : e.conditions[i]? with
  | none => simp
  | some c => by_cases hi : num = i <;> simp [hi, hf]

/-- A condition that is set anew has not fired. -/
theorem Right.condition (h : Right e) (num : Nat) : Right (e.condition num) := by
  have hrule : FiringRule (e.log ++ [.defined num]) := firingRule_concat h.rule fun ev hev => nomatch hev
  unfold IPPythonEvent.condition
  split_ifs with hnext hin
  · refine ⟨hrule, ?_, h.manual⟩
    intro i
    show HasFired i (e.log ++ [Entry.defined num]).reverse ↔ ∃ c, (e.conditions ++ [({} : Condition)])[i]? = some c ∧ c.fired = true
    rw [List.reverse_append]
    show num ≠ i ∧ HasFired i e.log.reverse ↔ _
    rw [h.conditions]
    rcases lt_trichotomy i e.conditions.length with hlt | rfl | hgt
    · rw [List.getElem?_append_left hlt]
      exact and_iff_right (by omega)
    · rw [List.getElem?_concat_length]
      simp [hnext]
    · rw [List.getElem?_eq_none (by omega), List.getElem?_eq_none (by
        rw [List.length_append]
        show e.conditions.length + 1 ≤ i
        omega)]
      simp
  · refine ⟨hrule, ?_, h.manual⟩
    intro i
    show HasFired i (e.log ++ [Entry.defined num]).reverse ↔
      ∃ c, (e.conditions.modify num fun c => { c with enabled := true, hold := false, fired := false })[i]? = some c ∧
        c.fired = true
    rw [List.reverse_append]
    show num ≠ i ∧ HasFired i e.log.reverse ↔ _
    rw [h.conditions, List.getElem?_modify]
    cases hc : e.conditions[i]? with
    | none => simp
    | some c => by_cases hi : num = i <;> simp [hi]
  · exact h

/-- **A command keeps the event right.** -/
theorem Right.step (h : Right e) {c : Command} (hok : StepOk e c) : Right (step e c) := by
  cases c with
  | process currTime values =>
    show Right (if e.active || e.manualFired then e.evaluate currTime values else e)
    split
    · rename_i hturn
      exact h.evaluate currTime values fun hmanual => hok ⟨hmanual, hturn⟩
    · exact h
  | activate on => exact ⟨h.rule, h.conditions, h.manual⟩
  | condition num => exact h.condition num
  | conditionEnable on num =>
    have hf : ∀ c : Condition, ({ c with enabled := on } : Condition).fired = c.fired := fun _ => rfl
    exact h.changeCondition hf num
  | conditionHold on num =>
    have hf : ∀ c : Condition, ({ c with hold := on } : Condition).fired = c.fired := fun _ => rfl
    exact h.changeCondition hf num
  | conditionAll all => exact ⟨h.rule, h.conditions, h.manual⟩
  | manualOn => exact ⟨h.rule, h.conditions, fun hfalse => nomatch hfalse⟩
  | manualFire currTime values =>
    let e' : IPPythonEvent :=
      { e with
        manual := true
        manualFired := true
        hold := false
        fired := false }
    have h' : Right e' := ⟨h.rule, h.conditions, fun hfalse => nomatch hfalse⟩
    exact h'.evaluate currTime values fun hfalse => nomatch hfalse
  | manualOff => exact ⟨h.rule, h.conditions, fun _ => rfl⟩
  | manualDone => exact ⟨h.rule, h.conditions, fun _ => rfl⟩

end Commands

/-! ## Result -/

theorem start_right : Right {} := by
  refine ⟨?_, ?_, fun _ => rfl⟩
  · intro earlier ev later heq
    exact absurd heq.symm (List.append_ne_nil_of_right_ne_nil _ (List.cons_ne_nil _ _))
  · intro i
    constructor
    · intro hfired
      cases hfired
    · rintro ⟨c, hc, -⟩
      cases hc

/-- **The firing rule** holds in every run of an event whose evaluations are `StepOk`. -/
theorem firing_rule (commands : List Command) (hok : Guarded StepOk step {} commands) :
    FiringRule (run step {} commands).log := by
  have hstep : ∀ e c, Right e → StepOk e c → Right (step e c) := fun _ _ h hc => h.step hc
  exact (Guarded.invariant hstep commands _ start_right hok).rule

/-- Two conditions, one of them held: the event fires when the second one is true behind the first one. -/
def heldAndTrue : List Command :=
  [.condition 0, .condition 1, .conditionHold true 0, .conditionAll true, .activate true,
    .process 0 (fun i => i = 0), .process 1 (fun i => i = 1)]

theorem firing_rule_heldAndTrue : FiringRule (run step {} heldAndTrue).log :=
  firing_rule heldAndTrue (by decide +kernel)

/-- **Not always**: two conditions, the first one disabled and the second one true, and the event that waits for all
    does not fire. -/
theorem not_firing_rule : ¬ ∀ commands : List Command, FiringRule (run step {} commands).log := by
  intro h
  have hrule := h [.condition 0, .condition 1, .conditionEnable false 0, .conditionAll true, .activate true,
    .process 0 (fun _ => true)]
  let ev : Evaluation :=
    { condAll := true
      flags := [(false, false), (true, false)]
      values := fun _ => true
      fired := false }
  have hright : ev.Right [.defined 1, .defined 0] := hrule [.defined 0, .defined 1] ev [] rfl
  have hsome : ∃ i, ev.Enabled i := ⟨1, false, rfl⟩
  have hevery : ∀ i, ev.Enabled i → HasFired i (.evaluated ev :: [.defined 1, .defined 0]) :=
    fun i henabled => ⟨henabled, Or.inl rfl⟩
  have hfired : ev.fired = true := hright.mpr ⟨hsome, hevery⟩
  cases hfired

end Trick.UserEvent
