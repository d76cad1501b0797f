/-
  The times that a group of logs is seen at.

  1. **Specification.**  `Expected` are the time stamps that the group is for: between start and stop time, of any
     stream, or of every stream where time is preserved.  `Merges` says that the loop ends and sees exactly these,
     in order.

  2. **Steps.**  `stepInTime` is a step of the merge of what is left (`stepInTime_eq`); `step` goes on to the next
     time that can be seen (`step_spec`), `begin` to the first one from the start time on, but never looks at the
     first time of all (`march_spec`), and the loop sees the rest (`loop_spec`).

  3. **Main result** (`merges_iff`): the right times are seen exactly if the first time of all is one of them where
     the start time is 0, and none of them otherwise.
-/
import Trick.Lib.Merge
import Trick.DataProducts.DataStreamGroup

namespace Trick.Log

open Trick.Lib

variable {ν : Type}

namespace DataStreamGroup

/-! ## Specification -/

/-- The time stamps of the logs. -/
def stamps (g : DataStreamGroup ν) : List (List ℚ) := g.dataStreams.map fun s => s.stream.records.map Prod.fst

/-- The time stamps that have not been read. -/
def ahead (g : DataStreamGroup ν) : List (List ℚ) := g.dataStreams.map fun s => s.stream.rest.map Prod.fst

/-- **A time that the group is for.** -/
def Expected (g : DataStreamGroup ν) (t : ℚ) : Prop :=
  g.startTime ≤ t ∧ t ≤ g.stopTime ∧
    if g.preserveTime = true then ∀ l ∈ g.stamps, t ∈ l else ∃ l ∈ g.stamps, t ∈ l

/-- **The loop sees the expected times**, each once and in order. -/
def Merges (fuel : Nat) (g : DataStreamGroup ν) : Prop :=
  ∃ ts, g.times fuel = some ts ∧ ts.Pairwise (· < ·) ∧ ∀ t, t ∈ ts ↔ g.Expected t

/-- **The first time of all is seen exactly if the start time is 0.**  A time stamp `DBL_MAX` cannot be told from
    a log that has ended. -/
def Starts (g : DataStreamGroup ν) : Prop :=
  (g.startTime = 0 ↔ g.Expected (soonest dblMax g.stamps)) ∧
    (g.preserveTime = true → dblMax ≤ g.stopTime → soonest dblMax g.stamps < dblMax → (∃ l ∈ g.stamps, dblMax ∈ l) →
      ∀ l ∈ g.stamps, dblMax ∈ l)

/-- A time of the logs at which `step` stops. -/
def Upcoming (preserve : Bool) (stop : ℚ) (R : List (List ℚ)) (t : ℚ) : Prop :=
  t ≤ stop ∧ (∃ l ∈ R, t ∈ l) ∧ (preserve = true → t = dblMax ∨ ∀ l ∈ R, t ∈ l)

/-! ## One step through time -/

/-- The parameters are the same. -/
structure Same (g g' : DataStreamGroup ν) : Prop where
  preserveTime : g'.preserveTime = g.preserveTime
  startTime : g'.startTime = g.startTime
  stopTime : g'.stopTime = g.stopTime
  nextFrequencyCheck : g'.nextFrequencyCheck = g.nextFrequencyCheck

theorem Same.refl (g : DataStreamGroup ν) : Same g g := ⟨rfl, rfl, rfl, rfl⟩

theorem Same.trans {g g' g'' : DataStreamGroup ν} (h : Same g g') (h' : Same g' g'') : Same g g'' :=
  ⟨h'.1.trans h.1, h'.2.trans h.2, h'.3.trans h.3, h'.4.trans h.4⟩

/-- **A group without a frequency**, with logs in order. -/
structure Ready (g : DataStreamGroup ν) : Prop where
  nextFrequencyCheck : g.nextFrequencyCheck = dblMax
  increasing : Increasing dblMax g.ahead
  nonempty : g.ahead ≠ []

/-- The entries of `currTime_`. -/
def currTimes (g : DataStreamGroup ν) : List ℚ := g.dataStreams.map Slot.currTime

theorem look_currTime (s : Slot ν) : s.look.currTime = current dblMax (s.stream.rest.map Prod.fst) := by
  show (s.stream.rest.head?.map Prod.fst).getD dblMax = ((s.stream.rest.map Prod.fst).head?).getD dblMax
  rw [List.head?_map]

/-- **`getTime`** is the earliest time. -/
theorem getTime_eq (g : DataStreamGroup ν) : g.getTime.2 = soonest dblMax g.ahead := by
  have hcurr : (g.dataStreams.map Slot.look).map Slot.currTime = g.ahead.map (current dblMax) := by
    unfold ahead
    rw [List.map_map, List.map_map]
    exact List.map_congr_left fun s _ => look_currTime s
  unfold soonest earliest
  rw [← hcurr, List.foldl_map]
  rfl

theorem getTime_ahead (g : DataStreamGroup ν) : g.getTime.1.ahead = g.ahead := by
  show (g.dataStreams.map Slot.look).map _ = _
  rw [List.map_map]
  rfl

theorem getTime_currTimes (g : DataStreamGroup ν) : g.getTime.1.currTimes = g.ahead.map (current dblMax) := by
  show (g.dataStreams.map Slot.look).map _ = _
  unfold ahead
  rw [List.map_map, List.map_map]
  exact List.map_congr_left fun s _ => look_currTime s

/-- A stream at the time `minTime` goes on. -/
theorem take_look (minTime : ℚ) (s : Slot ν) :
    (Slot.take minTime s.look).stream.rest.map Prod.fst =
      if (s.stream.rest.map Prod.fst).head? = some minTime then (s.stream.rest.map Prod.fst).tail
      else s.stream.rest.map Prod.fst := by
  have hat : s.look.currTime = minTime ∧ s.look.stream.atEnd = false ↔ (s.stream.rest.map Prod.fst).head? = some minTime := by
    rw [look_currTime]
    show _ ∧ s.stream.rest.isEmpty = false ↔ _
    cases s.stream.rest with
    | nil => exact ⟨fun h => absurd h.2.symm Bool.false_ne_true, fun h => absurd h.symm (Option.some_ne_none minTime)⟩
    | cons r rest => exact ⟨fun h => congrArg some h.1, fun h => ⟨Option.some.inj h, rfl⟩⟩
  unfold Slot.take
  by_cases h : (s.stream.rest.map Prod.fst).head? = some minTime
  · rw [if_pos (hat.mpr h), if_pos h]
    show (((s.stream.get).map Prod.snd).getD s.stream).rest.map Prod.fst = _
    unfold DataStream.get
    cases hrest : s.stream.rest with
    | nil =>
      rw [hrest] at h
      exact absurd h.symm (Option.some_ne_none minTime)
    | cons r rest => rfl
  · rw [if_neg fun h' => h (hat.mp h'), if_neg h]
    rfl

theorem atEnd_iff (s : Slot ν) : s.stream.atEnd = true ↔ s.stream.rest.map Prod.fst = [] := by
  show s.stream.rest.isEmpty = true ↔ _
  rw [List.isEmpty_iff, List.map_eq_nil_iff]

theorem allAtEnd_iff (g : DataStreamGroup ν) :
    (∀ s ∈ g.dataStreams, s.stream.atEnd = true) ↔ ∀ l ∈ g.ahead, l = [] := by
  unfold ahead
  rw [List.forall_mem_map]
  exact forall₂_congr fun s _ => atEnd_iff s

/-- **`stepInTime_`** is a step of the merge. -/
theorem stepInTime_eq (fuel : Nat) {g : DataStreamGroup ν} (h : g.nextFrequencyCheck = dblMax) :
    ∃ g', g.stepInTime fuel = some (g', true) ∧ Same g g' ∧ g'.ahead = advance dblMax g.ahead ∧
      (((∀ l ∈ g'.ahead, l = []) ∧ g'.isEOF = true ∧ g'.currTimes = g.ahead.map (current dblMax)) ∨
        ((∃ l ∈ g'.ahead, l ≠ []) ∧ g'.currTimes = g'.ahead.map (current dblMax) ∧
          g'.isEOF = (g.isEOF || decide (g.stopTime < soonest dblMax g'.ahead)))) := by
  -- the streams after the reads
  let g₁ : DataStreamGroup ν :=
    { g.getTime.1 with dataStreams := g.getTime.1.dataStreams.map (Slot.take g.getTime.2) }
  have hahead : g₁.ahead = advance dblMax g.ahead := by
    show ((g.dataStreams.map Slot.look).map (Slot.take g.getTime.2)).map _ = _
    unfold advance
    rw [getTime_eq]
    unfold ahead
    rw [List.map_map, List.map_map, List.map_map]
    exact List.map_congr_left fun s _ => take_look _ s
  have hcurr : g₁.currTimes = g.ahead.map (current dblMax) := by
    rw [← getTime_currTimes]
    show (g.getTime.1.dataStreams.map (Slot.take g.getTime.2)).map _ = _
    rw [List.map_map]
    refine List.map_congr_left fun s _ => ?_
    show (Slot.take g.getTime.2 s).currTime = s.currTime
    unfold Slot.take
    split
    · rfl
    · rfl
  have hempty := allAtEnd_iff g₁
  have hrun : g.stepInTime fuel =
      if ∀ s ∈ g₁.dataStreams, s.stream.atEnd = true then some ({ g₁ with isEOF := true }, true)
      else g₁.getTime.1.checkTime fuel g₁.getTime.2 := rfl
  by_cases hall : ∀ l ∈ g₁.ahead, l = []
  · rw [if_pos (hempty.mpr hall)] at hrun
    exact ⟨_, hrun, ⟨rfl, rfl, rfl, rfl⟩, hahead, Or.inl ⟨hall, rfl, hcurr⟩⟩
  · have hsome : ∃ l ∈ g₁.ahead, l ≠ [] := by
      by_contra hno
      exact hall fun l hl => by_contra fun hne => hno ⟨l, hl, hne⟩
    rw [if_neg fun h' => hall (hempty.mp h')] at hrun
    have hcurr₂ : g₁.getTime.1.currTimes = g₁.getTime.1.ahead.map (current dblMax) := by
      rw [getTime_currTimes, getTime_ahead]
    have hahead₂ := getTime_ahead g₁
    unfold checkTime at hrun
    by_cases hstop : g.stopTime < soonest dblMax g₁.ahead
    · rw [if_pos (show g₁.getTime.1.stopTime < g₁.getTime.2 from getTime_eq g₁ ▸ hstop)] at hrun
      refine ⟨_, hrun, ⟨rfl, rfl, rfl, rfl⟩, hahead₂.trans hahead, Or.inr ⟨hahead₂.symm ▸ hsome, hcurr₂, ?_⟩⟩
      show true = (g.isEOF || decide (g.stopTime < soonest dblMax g₁.getTime.1.ahead))
      rw [hahead₂, decide_eq_true hstop, Bool.or_true]
    · rw [if_neg (show ¬ g₁.getTime.1.stopTime < g₁.getTime.2 from getTime_eq g₁ ▸ hstop),
        if_pos (show g₁.getTime.1.nextFrequencyCheck = dblMax from h)] at hrun
      refine ⟨_, hrun, ⟨rfl, rfl, rfl, rfl⟩, hahead₂.trans hahead, Or.inr ⟨hahead₂.symm ▸ hsome, hcurr₂, ?_⟩⟩
      show g.isEOF = (g.isEOF || decide (g.stopTime < soonest dblMax g₁.getTime.1.ahead))
      rw [hahead₂, decide_eq_false hstop, Bool.or_false]

/-- **When `step` takes another step.** -/
theorem stepAgain_eq_false {g : DataStreamGroup ν} {R : List (List ℚ)} (hR : Increasing dblMax R) (hne : R ≠ [])
    (hcurr : g.currTimes = R.map (current dblMax)) :
    g.stepAgain = false ↔ ∀ l ∈ R, current dblMax l = soonest dblMax R := by
  have hall : g.stepAgain = false ↔ ∀ l ∈ R, ∀ l' ∈ R, current dblMax l = current dblMax l' := by
    obtain ⟨l, R, rfl⟩ := List.exists_cons_of_ne_nil hne
    unfold stepAgain currTimes at *
    cases hs : g.dataStreams with
    | nil =>
      rw [hs] at hcurr
      exact absurd hcurr.symm (List.cons_ne_nil _ _)
    | cons s slots =>
      rw [hs] at hcurr
      obtain ⟨hhead, htail⟩ := List.cons.inj hcurr
      have hothers : (∀ s' ∈ slots, s.currTime = s'.currTime) ↔ ∀ l' ∈ R, current dblMax l = current dblMax l' := by
        have hcurrs : (∀ s' ∈ slots, current dblMax l = s'.currTime) ↔ ∀ c ∈ slots.map Slot.currTime, current dblMax l = c :=
          List.forall_mem_map.symm
        rw [hhead, hcurrs, htail, List.forall_mem_map]
      show (slots.any fun s' => decide (s.currTime ≠ s'.currTime)) = false ↔ _
      rw [List.any_eq_false]
      simp only [decide_eq_true_eq, not_not]
      rw [hothers]
      constructor
      · intro h l₁ hl₁ l₂ hl₂
        have heq : ∀ l' ∈ l :: R, current dblMax l = current dblMax l' := fun l' hl' =>
          (List.mem_cons.mp hl').elim (fun h' => h' ▸ rfl) (h l')
        exact (heq l₁ hl₁).symm.trans (heq l₂ hl₂)
      · exact fun h l' hl' => h l List.mem_cons_self l' (List.mem_cons_of_mem l hl')
  rw [hall]
  constructor
  · intro h l hl
    obtain ⟨l', hl', heq⟩ := exists_current hR hne
    exact (h l hl l' hl').trans heq
  · exact fun h l hl l' hl' => (h l hl).trans (h l' hl').symm

/-! ## Whole steps -/

/-- **A step of the merge** leaves the times after the earliest one. -/
theorem upcoming_advance {preserve : Bool} {stop : ℚ} {R : List (List ℚ)} (hR : Increasing dblMax R) (t : ℚ) :
    Upcoming preserve stop (advance dblMax R) t ↔ soonest dblMax R < t ∧ Upcoming preserve stop R t := by
  unfold Upcoming
  rw [exists_mem_advance hR]
  constructor
  · rintro ⟨hstop, ⟨hlt, hmem⟩, hshared⟩
    rw [forall_mem_advance hR hlt] at hshared
    exact ⟨hlt, hstop, hmem, hshared⟩
  · rintro ⟨hlt, hstop, hmem, hshared⟩
    rw [forall_mem_advance hR hlt]
    exact ⟨hstop, ⟨hlt, hmem⟩, hshared⟩

theorem soonest_le_upcoming {preserve : Bool} {stop : ℚ} {R : List (List ℚ)} (hR : Increasing dblMax R) {t : ℚ}
    (ht : Upcoming preserve stop R t) : soonest dblMax R ≤ t := by
  obtain ⟨-, ⟨l, hl, hmem⟩, -⟩ := ht
  exact soonest_le hR hl hmem

/-- **What a step does**: it stops at the next time, or sets the end flag because there is none. -/
structure Stepped (g g' : DataStreamGroup ν) : Prop where
  same : Same g g'
  ready : Ready g'
  shorter : total g'.ahead < total g.ahead ∨ g'.isEOF = true ∧ ∀ l ∈ g'.ahead, l = []
  next : (g'.isEOF = true ∧ (g.isEOF = false → ∀ t, soonest dblMax g.ahead < t →
      ¬ Upcoming g.preserveTime g.stopTime g.ahead t)) ∨
    (g.isEOF = false ∧ g'.isEOF = false ∧
      Upcoming g.preserveTime g.stopTime g'.ahead (soonest dblMax g'.ahead) ∧
      ∀ t, Upcoming g.preserveTime g.stopTime g'.ahead t ↔
        soonest dblMax g.ahead < t ∧ Upcoming g.preserveTime g.stopTime g.ahead t)

theorem ready_advance {g g' : DataStreamGroup ν} (h : Ready g) (hsame : Same g g')
    (hahead : g'.ahead = advance dblMax g.ahead) : Ready g' := by
  refine ⟨hsame.nextFrequencyCheck.trans h.nextFrequencyCheck, ?_, ?_⟩
  · rw [hahead]
    exact increasing_advance h.increasing
  · rw [hahead]
    exact fun hnil => h.nonempty (List.map_eq_nil_iff.mp hnil)

theorem stepLoop_eq {fuel : Nat} (hfuel : 0 < fuel) {g g' : DataStreamGroup ν}
    (h : g.stepInTime fuel = some (g', true)) : g.stepLoop fuel fuel = some g' := by
  obtain ⟨k, rfl⟩ : ∃ k, fuel = k + 1 := ⟨fuel - 1, by omega⟩
  show (g.stepInTime (k + 1)).bind _ = _
  rw [h]
  rfl

/-- A step where every log has ended. -/
theorem step_empty {fuel n : Nat} (hfuel : 0 < fuel) {g : DataStreamGroup ν} (h : Ready g)
    (hall : ∀ l ∈ g.ahead, l = []) :
    ∃ g', g.step fuel (n + 1) = some g' ∧ Same g g' ∧ Ready g' ∧ g'.isEOF = true ∧ ∀ l ∈ g'.ahead, l = [] := by
  obtain ⟨g₁, hrun, hsame, hahead, hcases⟩ := stepInTime_eq fuel h.nextFrequencyCheck
  have hempty : ∀ l ∈ g₁.ahead, l = [] := by
    intro l hl
    by_contra hne
    obtain ⟨a, l, rfl⟩ := List.exists_cons_of_ne_nil hne
    rw [hahead] at hl
    obtain ⟨-, l', hl', hmem⟩ := (exists_mem_advance h.increasing).mp ⟨_, hl, List.mem_cons_self⟩
    exact absurd (hall l' hl' ▸ hmem) List.not_mem_nil
  rcases hcases with ⟨-, heof, hcurr⟩ | ⟨⟨l, hl, hne⟩, -⟩
  · have hagain : g₁.stepAgain = false := by
      refine (stepAgain_eq_false h.increasing h.nonempty hcurr).mpr fun l hl => ?_
      rw [soonest_of_empty hall, hall l hl]
      rfl
    refine ⟨g₁, ?_, hsame, ready_advance h hsame hahead, heof, hempty⟩
    show (g.stepLoop fuel fuel).bind _ = _
    rw [stepLoop_eq hfuel hrun]
    show (if g₁.preserveTime = true ∧ g₁.stepAgain = true then _ else _) = _
    rw [if_neg fun hc => Bool.false_ne_true (hagain.symm.trans hc.2)]
  · exact absurd (hempty l hl) hne

/-- **`step`**. -/
theorem step_spec {fuel n : Nat} (hfuel : 0 < fuel) {g : DataStreamGroup ν} (h : Ready g) (hn : total g.ahead + 1 < n) :
    ∃ g', g.step fuel n = some g' ∧ Stepped g g' := by
  induction n generalizing g with
  | zero => exact absurd hn (Nat.not_lt_zero _)
  | succ n ih =>
    obtain ⟨g₁, hrun, hsame, hahead, hcases⟩ := stepInTime_eq fuel h.nextFrequencyCheck
    have hready := ready_advance h hsame hahead
    have hturn : g.step fuel (n + 1) = if g₁.preserveTime = true ∧ g₁.stepAgain = true then g₁.step fuel n else some g₁ := by
      show (g.stepLoop fuel fuel).bind _ = _
      rw [stepLoop_eq hfuel hrun]
      rfl
    have hup : ∀ t, Upcoming g.preserveTime g.stopTime g₁.ahead t ↔
        soonest dblMax g.ahead < t ∧ Upcoming g.preserveTime g.stopTime g.ahead t := by
      rw [hahead]
      exact upcoming_advance h.increasing
    rw [hturn]
    rcases hcases with ⟨hall, heof, -⟩ | ⟨hsome, hcurr, heof⟩
    · -- all logs have ended
      have hnone : ∀ t, soonest dblMax g.ahead < t → ¬ Upcoming g.preserveTime g.stopTime g.ahead t := by
        intro t hlt ht
        obtain ⟨-, ⟨l, hl, hmem⟩, -⟩ := (hup t).mpr ⟨hlt, ht⟩
        exact absurd (hall l hl ▸ hmem) List.not_mem_nil
      split
      · obtain ⟨k, rfl⟩ : ∃ k, n = k + 1 := ⟨n - 1, by omega⟩
        obtain ⟨g', hrun', hsame', hready', heof', hall'⟩ := @step_empty ν fuel k hfuel g₁ hready hall
        exact ⟨g', hrun', hsame.trans hsame', hready', Or.inr ⟨heof', hall'⟩, Or.inl ⟨heof', fun _ => hnone⟩⟩
      · exact ⟨g₁, rfl, hsame, hready, Or.inr ⟨heof, hall⟩, Or.inl ⟨heof, fun _ => hnone⟩⟩
    · have hshort : total g₁.ahead < total g.ahead := by
        rw [hahead]
        obtain ⟨l, hl, hne⟩ := hsome
        obtain ⟨a, l, rfl⟩ := List.exists_cons_of_ne_nil hne
        rw [hahead] at hl
        obtain ⟨-, l', hl', hmem⟩ := (exists_mem_advance h.increasing).mp ⟨_, hl, List.mem_cons_self⟩
        exact total_advance h.increasing ⟨l', hl', List.ne_nil_of_mem hmem⟩
      have hafter : g.isEOF = false → g₁.isEOF = true → ∀ t, soonest dblMax g.ahead < t →
          ¬ Upcoming g.preserveTime g.stopTime g.ahead t := by
        intro hopen hclosed t hlt ht
        rw [heof, hopen, Bool.false_or, decide_eq_true_eq] at hclosed
        have hle := soonest_le_upcoming hready.increasing ((hup t).mpr ⟨hlt, ht⟩)
        exact absurd (lt_of_lt_of_le hclosed hle) (not_lt.mpr ht.1)
      split
      · -- some streams are at another time
        next hagain =>
        obtain ⟨g', hrun', hstep⟩ := ih hready (by omega)
        refine ⟨g', hrun', hsame.trans hstep.same, hstep.ready, hstep.shorter.imp_left fun hlt => hlt.trans hshort, ?_⟩
        have hskip : ¬ Upcoming g.preserveTime g.stopTime g₁.ahead (soonest dblMax g₁.ahead) := by
          rintro ⟨-, -, hshared⟩
          have hagree := (agree_iff hready.increasing).mpr (hshared (hsame.preserveTime ▸ hagain.1))
          exact Bool.false_ne_true (((stepAgain_eq_false hready.increasing hready.nonempty hcurr).mpr hagree).symm.trans hagain.2)
        have hnext := hstep.next
        rw [hsame.preserveTime, hsame.stopTime] at hnext
        have hlater : ∀ t, soonest dblMax g₁.ahead < t ∧ Upcoming g.preserveTime g.stopTime g₁.ahead t ↔
            soonest dblMax g.ahead < t ∧ Upcoming g.preserveTime g.stopTime g.ahead t := by
          intro t
          rw [← hup]
          refine ⟨And.right, fun ht => ⟨lt_of_le_of_ne (soonest_le_upcoming hready.increasing ht) ?_, ht⟩⟩
          rintro heq
          exact hskip (heq ▸ ht)
        rcases hnext with ⟨heof', hnone⟩ | ⟨hopen₁, hopen', hat, hiff⟩
        · refine Or.inl ⟨heof', fun hopen t hlt ht => ?_⟩
          by_cases hclosed : g₁.isEOF = true
          · exact hafter hopen hclosed t hlt ht
          · obtain ⟨hlt₁, ht₁⟩ := (hlater t).mpr ⟨hlt, ht⟩
            exact hnone (Bool.eq_false_iff.mpr hclosed) t hlt₁ ht₁
        · have hopen : g.isEOF = false := by
            rw [heof] at hopen₁
            exact (Bool.or_eq_false_iff.mp hopen₁).1
          exact Or.inr ⟨hopen, hopen', hat, fun t => (hiff t).trans (hlater t)⟩
      · next hagain =>
        refine ⟨g₁, rfl, hsame, hready, Or.inl hshort, ?_⟩
        cases hclosed : g₁.isEOF with
        | true => exact Or.inl ⟨rfl, fun hopen => hafter hopen hclosed⟩
        | false =>
          rw [heof, Bool.or_eq_false_iff, decide_eq_false_iff_not, not_lt] at hclosed
          refine Or.inr ⟨hclosed.1, rfl, ⟨hclosed.2, soonest_mem hready.increasing hsome, fun hpreserve => ?_⟩, hup⟩
          have hagree : g₁.stepAgain = false := by
            cases hc : g₁.stepAgain with
            | false => rfl
            | true => exact absurd ⟨hsame.preserveTime.trans hpreserve, hc⟩ hagain
          exact (agree_iff hready.increasing).mp ((stepAgain_eq_false hready.increasing hready.nonempty hcurr).mp hagree)

/-! ## The loops -/

theorem same_getTime (g : DataStreamGroup ν) : Same g g.getTime.1 := ⟨rfl, rfl, rfl, rfl⟩

theorem ready_getTime {g : DataStreamGroup ν} (h : Ready g) : Ready g.getTime.1 := by
  refine ⟨h.nextFrequencyCheck, ?_, ?_⟩
  · rw [getTime_ahead]
    exact h.increasing
  · rw [getTime_ahead]
    exact h.nonempty

/-- **The loop** sees the time that the group is at and all times at which `step` stops after it. -/
theorem loop_spec {fuel n : Nat} {g : DataStreamGroup ν} (h : Ready g) (hopen : g.isEOF = false)
    (hfuel : total g.ahead + 1 < fuel) (hn : total g.ahead + 1 < n) :
    ∃ ts, g.loop fuel n = some (soonest dblMax g.ahead :: ts) ∧ ts.Pairwise (· < ·) ∧
      ∀ t, t ∈ ts ↔ soonest dblMax g.ahead < t ∧ Upcoming g.preserveTime g.stopTime g.ahead t := by
  induction n generalizing g with
  | zero => exact absurd hn (Nat.not_lt_zero _)
  | succ n ih =>
    obtain ⟨g', hstep, hst⟩ := step_spec (show 0 < fuel by omega) (ready_getTime h)
      (show total g.getTime.1.ahead + 1 < fuel from getTime_ahead g ▸ hfuel)
    obtain ⟨hsame, hready, hshort, hnext⟩ := hst
    rw [getTime_ahead] at hshort hnext
    have hturn : g.loop fuel (n + 1) = (g'.loop fuel n).map (soonest dblMax g.ahead :: ·) := by
      show (if g.isEOF = true then _ else (g.getTime.1.step fuel fuel).bind _) = _
      rw [if_neg (Bool.eq_false_iff.mp hopen), hstep, ← getTime_eq]
      rfl
    rcases hnext with ⟨hclosed, hnone⟩ | ⟨-, hopen', hat, hiff⟩
    · obtain ⟨k, rfl⟩ : ∃ k, n = k + 1 := ⟨n - 1, by omega⟩
      refine ⟨[], ?_, List.Pairwise.nil, fun t => ⟨fun ht => absurd ht List.not_mem_nil, ?_⟩⟩
      · have hlast : g'.loop fuel (k + 1) = some [] := if_pos hclosed
        rw [hturn, hlast]
        rfl
      · exact fun ⟨hlt, ht⟩ => absurd ht (hnone hopen t hlt)
    · have hlt : total g'.ahead < total g.ahead := hshort.resolve_right fun hc => Bool.false_ne_true (hopen'.symm.trans hc.1)
      obtain ⟨ts, hrun, hsorted, hmem⟩ := ih hready hopen' (by omega) (by omega)
      rw [hsame.preserveTime, hsame.stopTime] at hmem
      change ∀ t, t ∈ ts ↔ _ < t ∧ Upcoming g.preserveTime g.stopTime g'.ahead t at hmem
      change Upcoming g.preserveTime g.stopTime _ _ at hat
      change ∀ t, Upcoming g.preserveTime g.stopTime g'.ahead t ↔ _ < t ∧ Upcoming g.preserveTime g.stopTime g.ahead t at hiff
      refine ⟨soonest dblMax g'.ahead :: ts, ?_, List.pairwise_cons.mpr ⟨fun t ht => ((hmem t).mp ht).1, hsorted⟩, ?_⟩
      · rw [hturn, hrun]
        rfl
      · intro t
        rw [List.mem_cons, hmem, ← hiff]
        constructor
        · rintro (rfl | ⟨-, ht⟩)
          · exact hat
          · exact ht
        · intro ht
          rcases lt_or_eq_of_le (soonest_le_upcoming hready.increasing ht) with hlt' | heq
          · exact Or.inr ⟨hlt', ht⟩
          · exact Or.inl heq.symm

/-- **The group on its march** to the start time: it is at the next time, or there is none. -/
structure Marching (start stop : ℚ) (preserve : Bool) (R : List (List ℚ)) (g : DataStreamGroup ν) : Prop where
  ready : Ready g
  startTime : g.startTime = start
  stopTime : g.stopTime = stop
  preserveTime : g.preserveTime = preserve
  shorter : total g.ahead ≤ total R
  next : (g.isEOF = true ∧ ∀ t, start ≤ t → soonest dblMax R < t → ¬ Upcoming preserve stop R t) ∨
    (g.isEOF = false ∧ Upcoming preserve stop g.ahead (soonest dblMax g.ahead) ∧
      ∀ t, start ≤ t → (Upcoming preserve stop g.ahead t ↔ soonest dblMax R < t ∧ Upcoming preserve stop R t))

/-- A step on the march. -/
theorem marching_step {start stop : ℚ} {preserve : Bool} {R : List (List ℚ)} {g g' : DataStreamGroup ν}
    (h : Marching start stop preserve R g) (hbefore : soonest dblMax g.ahead < start) (hstep : Stepped g.getTime.1 g') :
    Marching start stop preserve R g' := by
  obtain ⟨hready, rfl, rfl, rfl, hle, hnext⟩ := h
  obtain ⟨hsame, hready', hshort, hnext'⟩ := hstep
  rw [getTime_ahead] at hshort hnext'
  have hle' : total g'.ahead ≤ total R := by
    rcases hshort with hlt | ⟨-, hall⟩
    · omega
    · rw [total_eq_zero.mpr hall]
      exact Nat.zero_le _
  refine ⟨hready', hsame.startTime, hsame.stopTime, hsame.preserveTime, hle', ?_⟩
  rcases hnext with ⟨hclosed, hnone⟩ | ⟨hopen, hat, hiff⟩
  · rcases hnext' with ⟨hclosed', -⟩ | ⟨hopen, -⟩
    · exact Or.inl ⟨hclosed', hnone⟩
    · exact absurd (hopen.symm.trans hclosed) Bool.false_ne_true
  · rcases hnext' with ⟨hclosed', hnone⟩ | ⟨-, hopen', hat', hiff'⟩
    · refine Or.inl ⟨hclosed', fun t hstart hlt ht => ?_⟩
      exact hnone hopen t (lt_of_lt_of_le hbefore hstart) ((hiff t hstart).mpr ⟨hlt, ht⟩)
    · refine Or.inr ⟨hopen', hat', fun t hstart => ?_⟩
      rw [← hiff t hstart]
      exact (hiff' t).trans (and_iff_right (lt_of_lt_of_le hbefore hstart))

/-- **The march** ends at the start time or later. -/
theorem march_spec {start stop : ℚ} {preserve : Bool} {R : List (List ℚ)} (hstart : start ≤ dblMax) {fuel n : Nat}
    (hfuel : total R + 1 < fuel) {g : DataStreamGroup ν} (h : Marching start stop preserve R g)
    (hn : total g.ahead < n) :
    ∃ g', g.getTime.1.march fuel n (soonest dblMax g.ahead) = some g' ∧ Marching start stop preserve R g' ∧
      start ≤ soonest dblMax g'.ahead := by
  induction n generalizing g with
  | zero => exact absurd hn (Nat.not_lt_zero _)
  | succ n ih =>
    have hturn : g.getTime.1.march fuel (n + 1) (soonest dblMax g.ahead) =
        if soonest dblMax g.ahead < g.startTime then
          (g.getTime.1.step fuel fuel).bind fun g => march fuel n g.getTime.2 g.getTime.1
        else some g.getTime.1 := rfl
    rw [hturn, h.startTime]
    by_cases hbefore : soonest dblMax g.ahead < start
    · obtain ⟨g', hstep, hst⟩ := step_spec (show 0 < fuel by omega) (ready_getTime h.ready)
        (show total g.getTime.1.ahead + 1 < fuel by rw [getTime_ahead]; have := h.shorter; omega)
      have hmarch := marching_step h hbefore hst
      have hlt : total g'.ahead < n := by
        have hshort := hst.shorter
        rw [getTime_ahead] at hshort
        rcases hshort with hlt | ⟨-, hall⟩
        · omega
        · -- the logs had not all ended before, so the march has turns left
          have hsome : total g.ahead ≠ 0 := by
            intro hzero
            rw [soonest_of_empty (total_eq_zero.mp hzero)] at hbefore
            exact absurd hbefore (not_lt.mpr hstart)
          rw [total_eq_zero.mpr hall]
          omega
      obtain ⟨g'', hrun, hmarch', hle⟩ := ih hmarch hlt
      refine ⟨g'', ?_, hmarch', hle⟩
      rw [if_pos hbefore, hstep]
      show g'.getTime.1.march fuel n g'.getTime.2 = _
      rw [getTime_eq]
      exact hrun
    · rw [if_neg hbefore]
      refine ⟨_, rfl, ⟨ready_getTime h.ready, h.startTime, h.stopTime, h.preserveTime, ?_, ?_⟩, ?_⟩
      · rw [getTime_ahead]
        exact h.shorter
      · rw [getTime_ahead]
        exact h.next
      · rw [getTime_ahead]
        exact not_lt.mp hbefore

/-- **A group of logs** without a frequency, every log in order. -/
structure Logs (g : DataStreamGroup ν) : Prop where
  frequency : g.frequency = 0
  increasing : Increasing dblMax g.stamps
  nonempty : g.dataStreams ≠ []
  start_nonneg : 0 ≤ g.startTime
  start_le : g.startTime ≤ dblMax

theorem reset_ahead (g : DataStreamGroup ν) : g.reset.ahead = g.stamps := by
  show (g.dataStreams.map fun s => { s with stream := s.stream.begin }).map _ = _
  rw [List.map_map]
  rfl

theorem ready_reset {g : DataStreamGroup ν} (h : Logs g) : Ready g.reset := by
  refine ⟨if_pos h.frequency, ?_, ?_⟩
  · rw [reset_ahead]
    exact h.increasing
  · rw [reset_ahead]
    exact fun hnil => h.nonempty (List.map_eq_nil_iff.mp hnil)

theorem begin_eq {fuel : Nat} {g g' : DataStreamGroup ν} (h : g.reset.march fuel fuel 0 = some g') :
    g.begin fuel = some { g' with dataStreams := g'.dataStreams.map Slot.grab } := by
  unfold begin
  rw [h]
  rfl

theorem grab_ahead (g : DataStreamGroup ν) :
    ({ g with dataStreams := g.dataStreams.map Slot.grab } : DataStreamGroup ν).ahead = g.ahead := by
  show (g.dataStreams.map Slot.grab).map _ = _
  rw [List.map_map]
  rfl

theorem ready_grab {g : DataStreamGroup ν} (h : Ready g) :
    Ready ({ g with dataStreams := g.dataStreams.map Slot.grab } : DataStreamGroup ν) := by
  refine ⟨h.nextFrequencyCheck, ?_, ?_⟩
  · rw [grab_ahead]
    exact h.increasing
  · rw [grab_ahead]
    exact h.nonempty

/-- **From the start time 0** the loop sees the first time of all, whatever it is. -/
theorem times_zero {fuel : Nat} {g : DataStreamGroup ν} (h : Logs g) (hstart : g.startTime = 0)
    (hfuel : total g.stamps + 1 < fuel) :
    ∃ ts, g.times fuel = some (soonest dblMax g.stamps :: ts) ∧ ts.Pairwise (· < ·) ∧
      ∀ t, t ∈ ts ↔ soonest dblMax g.stamps < t ∧ Upcoming g.preserveTime g.stopTime g.stamps t := by
  have hmarch : g.reset.march fuel fuel 0 = some g.reset := by
    obtain ⟨k, rfl⟩ : ∃ k, fuel = k + 1 := ⟨fuel - 1, by omega⟩
    exact if_neg (show ¬ (0 : ℚ) < g.startTime from hstart ▸ lt_irrefl _)
  have hloop := @loop_spec ν fuel fuel _ (ready_grab (ready_reset h)) rfl
  rw [grab_ahead, reset_ahead] at hloop
  unfold times
  rw [begin_eq hmarch]
  exact hloop hfuel hfuel

/-- **From a later start time on** the loop never sees the first time of all. -/
theorem times_pos {fuel : Nat} {g : DataStreamGroup ν} (h : Logs g) (hstart : 0 < g.startTime)
    (hfuel : total g.stamps + 2 < fuel) :
    ∃ ts, g.times fuel = some ts ∧ ts.Pairwise (· < ·) ∧ ∀ t, t ∈ ts ↔ g.startTime ≤ t ∧
      soonest dblMax g.stamps < t ∧ Upcoming g.preserveTime g.stopTime g.stamps t := by
  obtain ⟨k, rfl⟩ : ∃ k, fuel = k + 1 := ⟨fuel - 1, by omega⟩
  -- the first step is taken before any look at the time
  obtain ⟨g₁, hstep, hst⟩ := step_spec (show 0 < k + 1 by omega) (ready_reset h)
    (show total g.reset.ahead + 1 < k + 1 by rw [reset_ahead]; omega)
  obtain ⟨hsame, hready, hshort, hnext⟩ := hst
  rw [reset_ahead] at hshort hnext
  have hle : total g₁.ahead ≤ total g.stamps := by
    rcases hshort with hlt | ⟨-, hall⟩
    · omega
    · rw [total_eq_zero.mpr hall]
      exact Nat.zero_le _
  have hmarching : Marching g.startTime g.stopTime g.preserveTime g.stamps g₁ := by
    refine ⟨hready, hsame.startTime, hsame.stopTime, hsame.preserveTime, hle, ?_⟩
    rcases hnext with ⟨hclosed, hnone⟩ | ⟨-, hopen, hat, hiff⟩
    · exact Or.inl ⟨hclosed, fun t _ hlt => hnone rfl t hlt⟩
    · exact Or.inr ⟨hopen, hat, fun t _ => hiff t⟩
  obtain ⟨g₂, hrun, hmarched, hat⟩ := march_spec h.start_le (show total g.stamps + 1 < k + 1 by omega)
    hmarching (show total g₁.ahead < k by omega)
  have hbegin : g.reset.march (k + 1) (k + 1) 0 = some g₂ := by
    show (if (0 : ℚ) < g.startTime then (g.reset.step (k + 1) (k + 1)).bind _ else _) = _
    rw [if_pos hstart, hstep]
    show g₁.getTime.1.march (k + 1) k g₁.getTime.2 = _
    rw [getTime_eq]
    exact hrun
  unfold times
  rw [begin_eq hbegin]
  rcases hmarched.next with ⟨hclosed, hnone⟩ | ⟨hopen, hup, hiff⟩
  · refine ⟨[], if_pos hclosed, List.Pairwise.nil, fun t => ⟨fun ht => absurd ht List.not_mem_nil, ?_⟩⟩
    exact fun ⟨hge, hlt, ht⟩ => absurd ht (hnone t hge hlt)
  · have hlen := hmarched.shorter
    obtain ⟨ts, hts, hsorted, hmem⟩ := @loop_spec ν (k + 1) (k + 1) _ (ready_grab hmarched.ready) hopen
      (by rw [grab_ahead]; omega) (by rw [grab_ahead]; omega)
    rw [grab_ahead] at hts hmem
    refine ⟨_, hts, List.pairwise_cons.mpr ⟨fun t ht => ((hmem t).mp ht).1, hsorted⟩, fun t => ?_⟩
    have hparams : Upcoming g₂.preserveTime g₂.stopTime g₂.ahead t ↔ Upcoming g.preserveTime g.stopTime g₂.ahead t := by
      rw [hmarched.preserveTime, hmarched.stopTime]
    rw [List.mem_cons, hmem, hparams]
    constructor
    · rintro (rfl | ⟨hlt, ht⟩)
      · exact ⟨hat, (hiff _ hat).mp hup⟩
      · have hge := hat.trans (le_of_lt hlt)
        exact ⟨hge, (hiff t hge).mp ht⟩
    · rintro ⟨hge, ht⟩
      have ht' := (hiff t hge).mpr ht
      rcases lt_or_eq_of_le (soonest_le_upcoming hmarched.ready.increasing ht') with hlt | heq
      · exact Or.inr ⟨hlt, ht'⟩
      · exact Or.inl heq.symm

/-! ## Which times are seen -/

theorem stamps_ne_nil {g : DataStreamGroup ν} (h : Logs g) : g.stamps ≠ [] :=
  fun hnil => h.nonempty (List.map_eq_nil_iff.mp hnil)

/-- An expected time is one at which `step` stops. -/
theorem upcoming_of_expected {g : DataStreamGroup ν} (h : Logs g) {t : ℚ} (ht : g.Expected t) :
    Upcoming g.preserveTime g.stopTime g.stamps t := by
  obtain ⟨-, hstop, hmem⟩ := ht
  by_cases hpreserve : g.preserveTime = true
  · rw [if_pos hpreserve] at hmem
    obtain ⟨l, hl⟩ := List.exists_mem_of_ne_nil _ (stamps_ne_nil h)
    exact ⟨hstop, ⟨l, hl, hmem l hl⟩, fun _ => Or.inr hmem⟩
  · rw [if_neg hpreserve] at hmem
    exact ⟨hstop, hmem, fun hp => absurd hp hpreserve⟩

/-- A time at which `step` stops is an expected one, but for `DBL_MAX`. -/
theorem expected_of_upcoming {g : DataStreamGroup ν} (hmax : g.preserveTime = true → dblMax ≤ g.stopTime →
      soonest dblMax g.stamps < dblMax → (∃ l ∈ g.stamps, dblMax ∈ l) → ∀ l ∈ g.stamps, dblMax ∈ l) {t : ℚ}
    (hstart : g.startTime ≤ t) (hlt : soonest dblMax g.stamps < t)
    (ht : Upcoming g.preserveTime g.stopTime g.stamps t) : g.Expected t := by
  obtain ⟨hstop, hsome, hshared⟩ := ht
  refine ⟨hstart, hstop, ?_⟩
  by_cases hpreserve : g.preserveTime = true
  · rw [if_pos hpreserve]
    rcases hshared hpreserve with rfl | hall
    · exact hmax hpreserve hstop hlt hsome
    · exact hall
  · rw [if_neg hpreserve]
    exact hsome

/-- **The expected times are seen exactly if the loop starts right.** -/
theorem merges_iff_starts {fuel : Nat} {g : DataStreamGroup ν} (h : Logs g) (hfuel : total g.stamps + 2 < fuel) :
    g.Merges fuel ↔ g.Starts := by
  have hafter : ∀ t, g.Expected t → soonest dblMax g.stamps ≤ t := fun t ht =>
    soonest_le_upcoming h.increasing (upcoming_of_expected h ht)
  have hupmax : dblMax ≤ g.stopTime → (∃ l ∈ g.stamps, dblMax ∈ l) →
      Upcoming g.preserveTime g.stopTime g.stamps dblMax := fun hstop hsome => ⟨hstop, hsome, fun _ => Or.inl rfl⟩
  have hmem_max : g.preserveTime = true → g.Expected dblMax → ∀ l ∈ g.stamps, dblMax ∈ l := by
    intro hpreserve hexp
    have hall := hexp.2.2
    rwa [if_pos hpreserve] at hall
  rcases eq_or_lt_of_le h.start_nonneg with hzero | hpos
  · obtain ⟨ts, hrun, hsorted, hmem⟩ := times_zero h hzero.symm (show total g.stamps + 1 < fuel by omega)
    constructor
    · rintro ⟨ts', hrun', -, hexp⟩
      obtain rfl := Option.some.inj (hrun'.symm.trans hrun)
      refine ⟨⟨fun _ => (hexp _).mp List.mem_cons_self, fun _ => hzero.symm⟩, ?_⟩
      intro hpreserve hstop hlt hsome
      have hin : dblMax ∈ soonest dblMax g.stamps :: ts :=
        List.mem_cons_of_mem _ ((hmem _).mpr ⟨hlt, hupmax hstop hsome⟩)
      exact hmem_max hpreserve ((hexp _).mp hin)
    · rintro ⟨hfirst, hmax⟩
      have hfirst' := hfirst.mp hzero.symm
      refine ⟨_, hrun, List.pairwise_cons.mpr ⟨fun t ht => ((hmem t).mp ht).1, hsorted⟩, fun t => ?_⟩
      rw [List.mem_cons, hmem]
      constructor
      · rintro (rfl | ⟨hlt, ht⟩)
        · exact hfirst'
        · exact expected_of_upcoming hmax (hfirst'.1.trans (le_of_lt hlt)) hlt ht
      · intro ht
        rcases lt_or_eq_of_le (hafter t ht) with hlt | heq
        · exact Or.inr ⟨hlt, upcoming_of_expected h ht⟩
        · exact Or.inl heq.symm
  · obtain ⟨ts, hrun, hsorted, hmem⟩ := times_pos h hpos hfuel
    constructor
    · rintro ⟨ts', hrun', -, hexp⟩
      obtain rfl := Option.some.inj (hrun'.symm.trans hrun)
      refine ⟨⟨fun hzero => absurd hzero (ne_of_gt hpos), fun hfirst => ?_⟩, ?_⟩
      · exact absurd ((hmem _).mp ((hexp _).mpr hfirst)).2.1 (lt_irrefl _)
      · intro hpreserve hstop hlt hsome
        exact hmem_max hpreserve ((hexp _).mp ((hmem _).mpr ⟨h.start_le, hlt, hupmax hstop hsome⟩))
    · rintro ⟨hfirst, hmax⟩
      refine ⟨ts, hrun, hsorted, fun t => ?_⟩
      rw [hmem]
      constructor
      · exact fun ⟨hge, hlt, ht⟩ => expected_of_upcoming hmax hge hlt ht
      · intro ht
        refine ⟨ht.1, lt_of_le_of_ne (hafter t ht) ?_, upcoming_of_expected h ht⟩
        rintro rfl
        exact ne_of_gt hpos (hfirst.mpr ht)

end DataStreamGroup

end Trick.Log
