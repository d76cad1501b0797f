/-
  The positions at which all logs of a group match.

  1. **Specification.**  A position is one record of every log; it agrees if any two of its times are within the
     tolerance.  `MatchesRight` says that `matchTimeStamps` goes to the first agreeing position between start and
     stop time, and returns 0 only if there is none.

  2. **Turns.**  Let `M` be the latest of the next times (and the start time).  A turn of the loop goes in every log
     to the first record that is not too far before `M` (`matchTurn_eq`).  It passes no agreeing position
     (`not_dropped`), but if one log is then too far behind `M`, the next turn begins by reading all logs.

  3. **Main results** (`matches_iff`): the function is right exactly if what such a turn throws away is in no
     agreeing position (`Clean`).  Together with the times of the loop: `group_iff`.
-/
import Trick.DataProducts.MergedTimes
import Trick.Lib.Forall2

namespace Trick.Log

open Trick.Lib

variable {ν : Type}

/-! ## Specification -/

/-- **Any two of the times are within the tolerance.** -/
def Agree (tolerance : ℚ) (d : List ℚ) : Prop := ∀ a ∈ d, ∀ b ∈ d, a - b ≤ tolerance

/-- **An agreeing position** of the logs, between start and stop time. -/
structure Matching (start stop tolerance : ℚ) (R : List (List ℚ)) (d : List ℚ) : Prop where
  position : List.Forall₂ (fun t l => t ∈ l) d R
  agree : Agree tolerance d
  range : ∀ t ∈ d, start ≤ t ∧ t ≤ stop

/-- The times of the last records that were read. -/
def DataStreamGroup.lastTimes (g : DataStreamGroup ν) : List ℚ := g.dataStreams.map fun s => s.lastRead.1

/-- The result is right for logs of which `R` is left: the first agreeing position, or none. -/
def Right (start stop tolerance : ℚ) (R : List (List ℚ)) (result : Option (List ℚ)) : Prop :=
  (∀ c, result = some c → Agree tolerance c ∧ ∀ d, Matching start stop tolerance R d → List.Forall₂ (· ≤ ·) c d) ∧
    (result = none → ∀ d, ¬ Matching start stop tolerance R d)

/-- **`matchTimeStamps` succeeds at agreeing positions only, and skips none.** -/
def DataStreamGroup.MatchesRight (fuel : Nat) (g : DataStreamGroup ν) : Prop :=
  ∃ g' ok, g.matchTimeStamps fuel fuel = some (g', ok) ∧
    Right g.startTime g.stopTime g.timeMatchTolerance g.ahead (if ok = true then some g'.lastTimes else none)

/-! ## Turns -/

/-- The latest of the next times, or the start time. -/
def latest (start : ℚ) (R : List (List ℚ)) : ℚ := R.foldl (fun m l => max m (l.headD start)) start

/-- A log from the first time on that is not too far before `M`. -/
def reach (M tolerance : ℚ) (l : List ℚ) : List ℚ := l.dropWhile fun t => tolerance < M - t

section
variable (start stop tolerance : ℚ)

/-- A log ends, or the stop time is passed. -/
def Over (R : List (List ℚ)) : Prop :=
  (∃ l ∈ R, reach (latest start R) tolerance l = []) ∨ stop < latest start R

/-- The times that a turn goes to. -/
def reached (R : List (List ℚ)) : List ℚ := R.map fun l => (reach (latest start R) tolerance l).headD 0

/-- What a turn leaves. -/
def after (R : List (List ℚ)) : List (List ℚ) := R.map fun l => (reach (latest start R) tolerance l).tail

/-- The test at the end of a turn. -/
def Matched (R : List (List ℚ)) : Prop :=
  ∀ t ∈ reached start tolerance R, t - latest start R ≤ tolerance ∧ latest start R - t ≤ tolerance

/-- **No turn goes wrong**: where the test succeeds the times agree with each other and not only with the latest
    one, and where it fails none of the records that the next turn leaves behind is in an agreeing position. -/
inductive Clean : List (List ℚ) → Prop
  | over {R : List (List ℚ)} (h : Over start stop tolerance R) : Clean R
  | found {R : List (List ℚ)} (h : Matched start tolerance R) (hagree : Agree tolerance (reached start tolerance R)) :
      Clean R
  | later {R : List (List ℚ)} (h : ¬ Matched start tolerance R)
      (hunused : ∀ d, Matching start stop tolerance R d → List.Forall₂ (· ≠ ·) (reached start tolerance R) d)
      (hrest : Clean (after start tolerance R)) : Clean R

end

/-! ## Positions -/

section
variable {start stop tolerance : ℚ} {R : List (List ℚ)} {d : List ℚ}

theorem foldl_max_cases (start : ℚ) (R : List (List ℚ)) : ∀ m, m = start ∨ (∃ l ∈ R, l.head? = some m) → ∀ L, L ⊆ R →
    L.foldl (fun m l => max m (l.headD start)) m = start ∨
      ∃ l ∈ R, l.head? = some (L.foldl (fun m l => max m (l.headD start)) m) := by
  intro m hm L hL
  induction L generalizing m with
  | nil => exact hm
  | cons l L ih =>
    refine ih (max m (l.headD start)) ?_ fun l' hl' => hL (List.mem_cons_of_mem l hl')
    rcases max_choice m (l.headD start) with h | h
    · rw [h]
      exact hm
    · rw [h]
      cases l with
      | nil => exact Or.inl rfl
      | cons a l => exact Or.inr ⟨a :: l, hL List.mem_cons_self, rfl⟩

/-- The latest time is the start time or a next time. -/
theorem latest_cases (start : ℚ) (R : List (List ℚ)) :
    latest start R = start ∨ ∃ l ∈ R, l.head? = some (latest start R) :=
  foldl_max_cases start R start (Or.inl rfl) R (List.Subset.refl R)

variable (hR : ∀ l ∈ R, l.Pairwise (· < ·))
include hR

/-- **A time of an agreeing position is never too far before the latest time.** -/
theorem not_dropped (h : Matching start stop tolerance R d) : ∀ t ∈ d, latest start R - t ≤ tolerance := by
  intro t ht
  rcases latest_cases start R with hstart | ⟨l, hl, hhead⟩
  · have hzero := h.agree t ht t ht
    have hge := (h.range t ht).1
    rw [hstart]
    linarith
  · -- the position has a record of the log with the latest time
    obtain ⟨b, hb, hmem⟩ := exists_of_forall₂ h.position hl
    obtain ⟨a, l, rfl⟩ := List.exists_cons_of_ne_nil (List.ne_nil_of_mem hmem)
    have hle : latest start R ≤ b := by
      rw [← Option.some.inj hhead]
      exact @current_le ℚ _ 0 _ _ (hR _ hl) hmem
    have hagree := h.agree b hb t ht
    linarith

theorem position_reach (h : Matching start stop tolerance R d) :
    List.Forall₂ (fun t l => t ∈ reach (latest start R) tolerance l) d R := by
  refine forall₂_imp_mem h.position fun t ht l _ hmem => ?_
  have hnot := not_dropped hR h t ht
  have hsplit : t ∈ l.takeWhile (fun t => tolerance < latest start R - t) ++
      l.dropWhile (fun t => tolerance < latest start R - t) := by
    rw [List.takeWhile_append_dropWhile]
    exact hmem
  rcases List.mem_append.mp hsplit with hfirst | hrest
  · have hlt := List.mem_takeWhile_imp hfirst
    rw [decide_eq_true_eq] at hlt
    exact absurd hlt (not_lt.mpr hnot)
  · exact hrest

/-- **Where a log ends or the stop time is passed**, there is no agreeing position. -/
theorem not_matching_of_over (hne : R ≠ []) (hover : Over start stop tolerance R) :
    ¬ Matching start stop tolerance R d := by
  intro h
  rcases hover with ⟨l, hl, hnil⟩ | hstop
  · obtain ⟨t, -, hmem⟩ := exists_of_forall₂ (position_reach hR h) hl
    rw [hnil] at hmem
    exact absurd hmem List.not_mem_nil
  · rcases latest_cases start R with hstart | ⟨l, hl, hhead⟩
    · obtain ⟨l, hl⟩ := List.exists_mem_of_ne_nil R hne
      obtain ⟨t, ht, -⟩ := exists_of_forall₂ h.position hl
      obtain ⟨hge, hle⟩ := h.range t ht
      linarith
    · obtain ⟨t, ht, hmem⟩ := exists_of_forall₂ h.position hl
      obtain ⟨a, l, rfl⟩ := List.exists_cons_of_ne_nil (List.ne_nil_of_mem hmem)
      have hle : latest start R ≤ t := by
        rw [← Option.some.inj hhead]
        exact @current_le ℚ _ 0 _ _ (hR _ hl) hmem
      have hrange := (h.range t ht).2
      linarith

/-- The logs from the reached times on. -/
theorem increasing_reach : ∀ l ∈ R, (reach (latest start R) tolerance l).Pairwise (· < ·) :=
  fun l hl => (hR l hl).sublist (List.dropWhile_sublist _)

theorem reached_le (h : Matching start stop tolerance R d) : List.Forall₂ (· ≤ ·) (reached start tolerance R) d := by
  unfold reached
  rw [List.forall₂_map_left_iff]
  refine forall₂_imp_mem (position_reach hR h).flip fun l hl t _ hmem => ?_
  have hsorted := @increasing_reach start tolerance R hR l hl
  obtain ⟨a, l', heq⟩ := List.exists_cons_of_ne_nil (List.ne_nil_of_mem (show t ∈ reach (latest start R) tolerance l from hmem))
  rw [heq] at hsorted ⊢
  exact @current_le ℚ _ 0 _ _ hsorted (heq ▸ hmem)

/-- What a turn leaves is later than the reached times. -/
theorem later_than_reached (h : List.Forall₂ (fun t l => t ∈ l) d (after start tolerance R)) :
    List.Forall₂ (· < ·) (reached start tolerance R) d := by
  unfold after at h
  rw [List.forall₂_map_right_iff] at h
  unfold reached
  rw [List.forall₂_map_left_iff]
  refine forall₂_imp_mem h.flip fun l hl t _ hmem => ?_
  have hsorted := @increasing_reach start tolerance R hR l hl
  change t ∈ (reach (latest start R) tolerance l).tail at hmem
  cases hreach : reach (latest start R) tolerance l with
  | nil =>
    rw [hreach] at hmem
    exact absurd hmem List.not_mem_nil
  | cons a l' =>
    rw [hreach] at hmem hsorted
    exact (List.pairwise_cons.mp hsorted).1 t hmem

/-- **What a turn leaves** has the agreeing positions that use none of the reached times. -/
theorem matching_after : Matching start stop tolerance (after start tolerance R) d ↔
    Matching start stop tolerance R d ∧ List.Forall₂ (· ≠ ·) (reached start tolerance R) d := by
  constructor
  · rintro ⟨hpos, hagree, hrange⟩
    have hpos' := hpos
    unfold after at hpos
    rw [List.forall₂_map_right_iff] at hpos
    have hin : ∀ t l, t ∈ (reach (latest start R) tolerance l).tail → t ∈ l := fun t l hmem =>
      (List.dropWhile_sublist _).subset (List.mem_of_mem_tail hmem)
    refine ⟨⟨forall₂_imp_mem hpos fun t _ l _ hmem => hin t l hmem, hagree, hrange⟩, ?_⟩
    exact forall₂_imp_mem (later_than_reached hR hpos') fun a _ b _ hlt => ne_of_lt hlt
  · rintro ⟨h, hne⟩
    refine ⟨?_, h.agree, h.range⟩
    have hpos := position_reach hR h
    unfold reached at hne
    rw [List.forall₂_map_left_iff] at hne
    unfold after
    rw [List.forall₂_map_right_iff]
    refine forall₂_imp_mem (forall₂_both hpos hne.flip) fun t _ l _ ⟨hmem, hhead⟩ => ?_
    cases hreach : reach (latest start R) tolerance l with
    | nil =>
      rw [hreach] at hmem
      exact absurd hmem List.not_mem_nil
    | cons a l' =>
      rw [hreach] at hmem hhead
      exact (List.mem_cons.mp hmem).resolve_left fun heq => hhead heq.symm

end

/-! ## Turns of the code -/

/-- The last record of a stream, and what is left. -/
def Slot.whole (s : Slot ν) : List (Record ν) := s.lastRead :: s.stream.rest

/-- **The first reads of a turn.** -/
theorem nextEach_eq {slots : List (Slot ν)} (h : ∀ s ∈ slots, s.stream.rest ≠ []) :
    (DataStreamGroup.nextEach slots).2 = true ∧
      (DataStreamGroup.nextEach slots).1.map Slot.whole = slots.map fun s => s.stream.rest := by
  induction slots with
  | nil => exact ⟨rfl, rfl⟩
  | cons s slots ih =>
    rw [List.forall_mem_cons] at h
    obtain ⟨hok, hmap⟩ := ih h.2
    obtain ⟨r, rest, hrest⟩ := List.exists_cons_of_ne_nil h.1
    have hnext : s.next = some { s with lastRead := r, stream := { s.stream with rest := rest } } := by
      unfold Slot.next DataStream.get
      rw [hrest]
      rfl
    unfold DataStreamGroup.nextEach
    rw [hnext]
    refine ⟨hok, ?_⟩
    show (r :: rest) :: _ = s.stream.rest :: _
    rw [hrest, hmap]

theorem nextEach_fail {slots : List (Slot ν)} {s : Slot ν} (hs : s ∈ slots) (h : s.stream.rest = []) :
    (DataStreamGroup.nextEach slots).2 = false := by
  induction slots with
  | nil => exact absurd hs List.not_mem_nil
  | cons s' slots ih =>
    unfold DataStreamGroup.nextEach
    cases hnext : s'.next with
    | none => rfl
    | some s'' =>
      rcases List.mem_cons.mp hs with rfl | hs
      · unfold Slot.next DataStream.get at hnext
        rw [h] at hnext
        exact absurd hnext.symm (Option.some_ne_none _)
      · exact ih hs

/-- **The reads of one stream.** -/
theorem passRest_eq (maxTime tolerance : ℚ) (last : Record ν) (rest : List (Record ν)) :
    ((last :: rest).dropWhile (fun r => tolerance < maxTime - r.1) = [] →
      (Slot.passRest maxTime tolerance last rest).2 = false) ∧
    ∀ c rest', (last :: rest).dropWhile (fun r => tolerance < maxTime - r.1) = c :: rest' →
      Slot.passRest maxTime tolerance last rest = ((c, rest'), true) := by
  induction rest generalizing last with
  | nil =>
    by_cases h : tolerance < maxTime - last.1
    · rw [List.dropWhile_cons_of_pos (p := fun r : Record ν => decide (tolerance < maxTime - r.1)) (decide_eq_true h)]
      refine ⟨fun _ => ?_, fun c rest' hc => absurd hc (List.cons_ne_nil c rest').symm⟩
      exact decide_eq_false (not_not.mpr h)
    · rw [List.dropWhile_cons_of_neg (by rw [decide_eq_true_eq]; exact h)]
      refine ⟨fun hnil => absurd hnil (List.cons_ne_nil _ _), fun c rest' hc => ?_⟩
      obtain ⟨rfl, rfl⟩ := List.cons.inj hc
      exact congrArg (Prod.mk (last, [])) (decide_eq_true h)
  | cons r rest ih =>
    have hturn : Slot.passRest maxTime tolerance last (r :: rest) =
        if tolerance < maxTime - last.1 then Slot.passRest maxTime tolerance r rest else ((last, r :: rest), true) := rfl
    rw [hturn]
    by_cases h : tolerance < maxTime - last.1
    · rw [List.dropWhile_cons_of_pos (p := fun r : Record ν => decide (tolerance < maxTime - r.1)) (decide_eq_true h), if_pos h]
      exact ih r
    · rw [List.dropWhile_cons_of_neg (by rw [decide_eq_true_eq]; exact h), if_neg h]
      refine ⟨fun hnil => absurd hnil (List.cons_ne_nil _ _), fun c rest' hc => ?_⟩
      obtain ⟨rfl, rfl⟩ := List.cons.inj hc
      rfl

/-- **The reads of all streams.** -/
theorem passEach_eq {maxTime tolerance : ℚ} {slots : List (Slot ν)}
    (h : ∀ s ∈ slots, s.whole.dropWhile (fun r => tolerance < maxTime - r.1) ≠ []) :
    (DataStreamGroup.passEach maxTime tolerance slots).2 = true ∧
      (DataStreamGroup.passEach maxTime tolerance slots).1.map Slot.whole =
        slots.map fun s => s.whole.dropWhile fun r => tolerance < maxTime - r.1 := by
  induction slots with
  | nil => exact ⟨rfl, rfl⟩
  | cons s slots ih =>
    rw [List.forall_mem_cons] at h
    obtain ⟨hok, hmap⟩ := ih h.2
    obtain ⟨c, rest, hc⟩ := List.exists_cons_of_ne_nil h.1
    have hpass := (passRest_eq maxTime tolerance s.lastRead s.stream.rest).2 c rest hc
    unfold DataStreamGroup.passEach
    dsimp only
    have hslot : (s.pass maxTime tolerance).2 = true ∧ (s.pass maxTime tolerance).1.whole = c :: rest := by
      unfold Slot.pass Slot.whole
      dsimp only
      rw [hpass]
      exact ⟨rfl, rfl⟩
    rw [if_neg (by rw [hslot.1]; exact Bool.false_ne_true.symm)]
    refine ⟨hok, ?_⟩
    rw [List.map_cons, List.map_cons, hmap, hslot.2, hc]

theorem passEach_fail {maxTime tolerance : ℚ} {slots : List (Slot ν)} {s : Slot ν} (hs : s ∈ slots)
    (h : s.whole.dropWhile (fun r => tolerance < maxTime - r.1) = []) :
    (DataStreamGroup.passEach maxTime tolerance slots).2 = false := by
  induction slots with
  | nil => exact absurd hs List.not_mem_nil
  | cons s' slots ih =>
    unfold DataStreamGroup.passEach
    dsimp only
    by_cases hok : (s'.pass maxTime tolerance).2 = false
    · rw [if_pos hok]
    · rw [if_neg hok]
      rcases List.mem_cons.mp hs with rfl | hs
      · exact absurd ((passRest_eq maxTime tolerance s.lastRead s.stream.rest).1 h) hok
      · exact ih hs

namespace DataStreamGroup

theorem maximum_eq {start : ℚ} {slots slots' : List (Slot ν)}
    (h : slots'.map Slot.whole = slots.map fun s => s.stream.rest) :
    maximum start slots' = latest start (slots.map fun s => s.stream.rest.map Prod.fst) := by
  have hmax : ∀ m t : ℚ, (if m < t then t else m) = max m t := by
    intro m t
    rw [max_def_lt]
  have hfst : (slots.map fun s => s.stream.rest.map Prod.fst) = slots'.map fun s => s.whole.map Prod.fst := by
    have hmap := congrArg (List.map (List.map Prod.fst)) h
    rw [List.map_map, List.map_map] at hmap
    exact hmap.symm
  unfold maximum latest
  rw [hfst, List.foldl_map]
  simp only [hmax]
  rfl

theorem not_lt_dplogAbs {tolerance t M : ℚ} :
    ¬ tolerance < dplogAbs (t - M) ↔ t - M ≤ tolerance ∧ M - t ≤ tolerance := by
  unfold dplogAbs
  rw [not_lt]
  constructor
  · intro h
    split at h
    · constructor <;> linarith
    · constructor <;> linarith
  · rintro ⟨hle, hge⟩
    split
    · linarith
    · exact hle

/-- **One turn.** -/
theorem matchTurn_eq (g : DataStreamGroup ν) :
    (Over g.startTime g.stopTime g.timeMatchTolerance g.ahead → (g.matchTurn).2 = none) ∧
    (¬ Over g.startTime g.stopTime g.timeMatchTolerance g.ahead → ∃ g' matched,
      g.matchTurn = (g', some (latest g.startTime g.ahead, matched)) ∧
      g'.startTime = g.startTime ∧ g'.stopTime = g.stopTime ∧ g'.timeMatchTolerance = g.timeMatchTolerance ∧
      g'.frequency = g.frequency ∧ g'.ahead = after g.startTime g.timeMatchTolerance g.ahead ∧
      g'.lastTimes = reached g.startTime g.timeMatchTolerance g.ahead ∧
      (matched = true ↔ Matched g.startTime g.timeMatchTolerance g.ahead)) := by
  let slots₁ := (nextEach g.dataStreams).1
  let M := latest g.startTime g.ahead
  have hturn : g.matchTurn =
      if (nextEach g.dataStreams).2 = false then ({ g with dataStreams := slots₁, isEOF := true }, none)
      else if g.stopTime < maximum g.startTime slots₁ then ({ g with dataStreams := slots₁, isEOF := true }, none)
      else
        let r := passEach (maximum g.startTime slots₁) g.timeMatchTolerance slots₁
        if r.2 = false then ({ g with dataStreams := r.1, isEOF := true }, none)
        else ({ g with dataStreams := r.1 }, some (maximum g.startTime slots₁,
          r.1.all fun s => ¬ g.timeMatchTolerance < dplogAbs (s.lastRead.1 - maximum g.startTime slots₁))) := rfl
  by_cases hsome : ∀ s ∈ g.dataStreams, s.stream.rest ≠ []
  · obtain ⟨hok, hmap⟩ := nextEach_eq hsome
    have hmax : maximum g.startTime slots₁ = M := maximum_eq hmap
    rw [if_neg (by rw [hok]; exact Bool.false_ne_true.symm), hmax] at hturn
    -- what each stream is at after the reads
    have hreach : ∀ s ∈ slots₁, (s.whole.dropWhile fun r => g.timeMatchTolerance < M - r.1).map Prod.fst =
        reach M g.timeMatchTolerance (s.whole.map Prod.fst) := by
      intro s _
      unfold reach
      rw [List.dropWhile_map]
      rfl
    have hahead : g.ahead = slots₁.map fun s => s.whole.map Prod.fst := by
      have hmap' := congrArg (List.map (List.map Prod.fst)) hmap
      rw [List.map_map, List.map_map] at hmap'
      exact hmap'.symm
    by_cases hstop : g.stopTime < M
    · rw [if_pos hstop] at hturn
      refine ⟨fun _ => congrArg Prod.snd hturn, fun hnot => absurd (Or.inr hstop) hnot⟩
    · rw [if_neg hstop] at hturn
      by_cases hpass : ∀ s ∈ slots₁, s.whole.dropWhile (fun r => g.timeMatchTolerance < M - r.1) ≠ []
      · obtain ⟨hok', hmap'⟩ := passEach_eq hpass
        dsimp only at hturn
        rw [if_neg (by rw [hok']; exact Bool.false_ne_true.symm)] at hturn
        have hnot : ¬ Over g.startTime g.stopTime g.timeMatchTolerance g.ahead := by
          rintro (⟨l, hl, hnil⟩ | hlt)
          · rw [hahead] at hl
            obtain ⟨s, hs, rfl⟩ := List.mem_map.mp hl
            have hnil' := (hreach s hs).trans hnil
            exact hpass s hs (List.map_eq_nil_iff.mp hnil')
          · exact hstop hlt
        let slots₂ := (passEach M g.timeMatchTolerance slots₁).1
        have hwhole : slots₂.map (fun s => s.whole.map Prod.fst) = g.ahead.map (reach M g.timeMatchTolerance) := by
          have hmap₂ := congrArg (List.map (List.map Prod.fst)) hmap'
          rw [List.map_map, List.map_map] at hmap₂
          rw [hahead, List.map_map]
          exact hmap₂.trans (List.map_congr_left hreach)
        have hlast : slots₂.map (fun s => s.lastRead.1) = reached g.startTime g.timeMatchTolerance g.ahead := by
          have hhead := congrArg (List.map fun l => l.headD (0 : ℚ)) hwhole
          rw [List.map_map, List.map_map] at hhead
          exact hhead
        refine ⟨fun hover => absurd hover hnot, fun _ => ⟨_, _, hturn, rfl, rfl, rfl, rfl, ?_, hlast, ?_⟩⟩
        · have htail := congrArg (List.map List.tail) hwhole
          rw [List.map_map, List.map_map] at htail
          exact htail
        · unfold Matched
          rw [← hlast, List.forall_mem_map, List.all_eq_true]
          refine forall₂_congr fun s _ => ?_
          rw [decide_eq_true_eq]
          exact not_lt_dplogAbs
      · obtain ⟨s, hs, hnil⟩ : ∃ s ∈ slots₁, s.whole.dropWhile (fun r => g.timeMatchTolerance < M - r.1) = [] := by
          by_contra hno
          exact hpass fun s hs hnil => hno ⟨s, hs, hnil⟩
        dsimp only at hturn
        rw [if_pos (passEach_fail hs hnil)] at hturn
        refine ⟨fun _ => congrArg Prod.snd hturn, fun hnot => absurd (Or.inl ⟨s.whole.map Prod.fst, ?_, ?_⟩) hnot⟩
        · rw [hahead]
          exact List.mem_map_of_mem hs
        · rw [← hreach s hs, hnil]
          rfl
  · obtain ⟨s, hs, hrest⟩ : ∃ s ∈ g.dataStreams, s.stream.rest = [] := by
      by_contra hno
      exact hsome fun s hs hnil => hno ⟨s, hs, hnil⟩
    rw [if_pos (nextEach_fail hs hrest)] at hturn
    refine ⟨fun _ => congrArg Prod.snd hturn, fun hnot => absurd (Or.inl ⟨s.stream.rest.map Prod.fst, ?_, ?_⟩) hnot⟩
    · exact List.mem_map_of_mem hs
    · rw [hrest]
      rfl

/-! ## The search -/

section
variable {start stop tolerance : ℚ} {R : List (List ℚ)}

theorem clean_iff_agree (hover : ¬ Over start stop tolerance R) (h : Matched start tolerance R) :
    Clean start stop tolerance R ↔ Agree tolerance (reached start tolerance R) := by
  constructor
  · rintro (hc | ⟨-, hagree⟩ | ⟨hnot, -, -⟩)
    · exact absurd hc hover
    · exact hagree
    · exact absurd h hnot
  · exact Clean.found h

theorem clean_iff_later (hover : ¬ Over start stop tolerance R) (h : ¬ Matched start tolerance R) :
    Clean start stop tolerance R ↔
      (∀ d, Matching start stop tolerance R d → List.Forall₂ (· ≠ ·) (reached start tolerance R) d) ∧
        Clean start stop tolerance (after start tolerance R) := by
  constructor
  · rintro (hc | ⟨hmatched, -⟩ | ⟨-, hunused, hrest⟩)
    · exact absurd hc hover
    · exact absurd hmatched h
    · exact ⟨hunused, hrest⟩
  · exact fun ⟨hunused, hrest⟩ => Clean.later h hunused hrest

theorem total_after (hne : R ≠ []) (hover : ¬ Over start stop tolerance R) :
    total (after start tolerance R) < total R := by
  have hlt : ∀ l ∈ R, (reach (latest start R) tolerance l).tail.length < l.length := by
    intro l hl
    have hnil : reach (latest start R) tolerance l ≠ [] := fun hnil => hover (Or.inl ⟨l, hl, hnil⟩)
    have hpos := List.length_pos_of_ne_nil hnil
    have hle := (List.dropWhile_sublist (l := l) fun t => decide (tolerance < latest start R - t)).length_le
    change (reach (latest start R) tolerance l).length ≤ l.length at hle
    rw [List.length_tail]
    omega
  obtain ⟨l, hl⟩ := List.exists_mem_of_ne_nil R hne
  unfold total after
  rw [List.map_map]
  exact List.sum_lt_sum _ _ (fun l' hl' => le_of_lt (hlt l' hl')) ⟨l, hl, hlt l hl⟩

/-- The reached times are records of the logs. -/
theorem reached_mem (hover : ¬ Over start stop tolerance R) :
    List.Forall₂ (fun t l => t ∈ l) (reached start tolerance R) R := by
  unfold reached
  rw [List.forall₂_map_left_iff, List.forall₂_same]
  intro l hl
  cases hreach : reach (latest start R) tolerance l with
  | nil => exact absurd (Or.inl ⟨l, hl, hreach⟩) hover
  | cons a l' =>
    have hmem : a ∈ reach (latest start R) tolerance l := hreach ▸ List.mem_cons_self
    exact (List.dropWhile_sublist _).subset hmem

/-- **Going on after a failed test** is right exactly if no agreeing position uses the reached times. -/
theorem right_after (hR : ∀ l ∈ R, l.Pairwise (· < ·)) {result : Option (List ℚ)}
    (hresult : ∀ c, result = some c → List.Forall₂ (fun t l => t ∈ l) c (after start tolerance R)) :
    Right start stop tolerance R result ↔
      (∀ d, Matching start stop tolerance R d → List.Forall₂ (· ≠ ·) (reached start tolerance R) d) ∧
        Right start stop tolerance (after start tolerance R) result := by
  constructor
  · rintro ⟨hsome, hnone⟩
    refine ⟨fun d hd => ?_, fun c hc => ⟨(hsome c hc).1, fun d hd => ?_⟩, fun hc d hd => ?_⟩
    · cases hres : result with
      | none => exact absurd hd (hnone hres d)
      | some c =>
        -- the result is behind the reached times, and not behind `d`
        have hle := (hsome c hres).2 d hd
        have hlt := later_than_reached hR (hresult c hres)
        have hboth := forall₂_trans hlt hle
        exact forall₂_imp_mem hboth fun a _ b _ ⟨t, hat, htb⟩ => ne_of_lt (lt_of_lt_of_le hat htb)
    · exact (hsome c hc).2 d ((matching_after hR).mp hd).1
    · exact hnone hc d ((matching_after hR).mp hd).1
  · rintro ⟨hunused, hsome, hnone⟩
    refine ⟨fun c hc => ⟨(hsome c hc).1, fun d hd => ?_⟩, fun hc d hd => ?_⟩
    · exact (hsome c hc).2 d ((matching_after hR).mpr ⟨hd, hunused d hd⟩)
    · exact hnone hc d ((matching_after hR).mpr ⟨hd, hunused d hd⟩)

end

theorem increasing_after {start tolerance : ℚ} {R : List (List ℚ)} (hR : ∀ l ∈ R, l.Pairwise (· < ·)) :
    ∀ l ∈ after start tolerance R, l.Pairwise (· < ·) := by
  intro l hl
  obtain ⟨l', hl', rfl⟩ := List.mem_map.mp hl
  exact (increasing_reach hR l' hl').sublist (List.tail_sublist _)

theorem mem_of_mem_after {start tolerance : ℚ} {R : List (List ℚ)} {c : List ℚ}
    (h : List.Forall₂ (fun t l => t ∈ l) c (after start tolerance R)) : List.Forall₂ (fun t l => t ∈ l) c R := by
  unfold after at h
  rw [List.forall₂_map_right_iff] at h
  refine forall₂_imp_mem h fun t _ l _ hmem => ?_
  exact (List.dropWhile_sublist _).subset (List.mem_of_mem_tail hmem)

/-- **The inner loop** ends, and is right exactly if no turn of it goes wrong. -/
theorem matchLoop_spec {n : Nat} {g : DataStreamGroup ν} (hR : ∀ l ∈ g.ahead, l.Pairwise (· < ·)) (hne : g.ahead ≠ [])
    (hn : total g.ahead < n) :
    ∃ g' r, g.matchLoop n = some (g', r) ∧ g'.frequency = g.frequency ∧
      (∀ c, r.map (fun _ => g'.lastTimes) = some c → List.Forall₂ (fun t l => t ∈ l) c g.ahead) ∧
      (Right g.startTime g.stopTime g.timeMatchTolerance g.ahead (r.map fun _ => g'.lastTimes) ↔
        Clean g.startTime g.stopTime g.timeMatchTolerance g.ahead) := by
  induction n generalizing g with
  | zero => exact absurd hn (Nat.not_lt_zero _)
  | succ n ih =>
    obtain ⟨hfail, hturn⟩ := matchTurn_eq g
    by_cases hover : Over g.startTime g.stopTime g.timeMatchTolerance g.ahead
    · -- a log ends
      obtain ⟨g', hg'⟩ : ∃ g', g.matchTurn = (g', none) := ⟨g.matchTurn.1, Prod.ext rfl (hfail hover)⟩
      have hfreq : g'.frequency = g.frequency := by
        rw [show g' = g.matchTurn.1 from (congrArg Prod.fst hg').symm]
        unfold matchTurn
        dsimp only
        split
        · rfl
        · split
          · rfl
          · split <;> rfl
      refine ⟨g', none, ?_, hfreq, fun c hc => absurd hc.symm (Option.some_ne_none c), ?_⟩
      · unfold matchLoop
        rw [hg']
      · refine ⟨fun _ => Clean.over hover, fun _ => ⟨fun c hc => absurd hc.symm (Option.some_ne_none c), ?_⟩⟩
        exact fun _ d hd => not_matching_of_over hR hne hover hd
    · obtain ⟨g₁, matched, hrun, hstart, hstop, htol, hfreq, hahead, hlast, hmatched⟩ := hturn hover
      have hloop : g.matchLoop (n + 1) =
          if matched = true then some (g₁, some (latest g.startTime g.ahead)) else g₁.matchLoop n := by
        rw [matchLoop, hrun]
      rw [hloop]
      by_cases hm : matched = true
      · rw [if_pos hm]
        refine ⟨g₁, _, rfl, hfreq, ?_, ?_⟩
        · rintro c ⟨⟩
          rw [hlast]
          exact reached_mem hover
        · rw [clean_iff_agree hover (hmatched.mp hm)]
          show Right _ _ _ _ (some g₁.lastTimes) ↔ _
          rw [hlast]
          constructor
          · exact fun h => (h.1 _ rfl).1
          · refine fun hagree => ⟨?_, fun hc => absurd hc (Option.some_ne_none _)⟩
            rintro c ⟨⟩
            exact ⟨hagree, fun d hd => reached_le hR hd⟩
      · rw [if_neg hm]
        have hlt := total_after hne hover
        rw [← hahead] at hlt
        have hR₁ : ∀ l ∈ g₁.ahead, l.Pairwise (· < ·) := by
          rw [hahead]
          exact increasing_after hR
        have hne₁ : g₁.ahead ≠ [] := by
          rw [hahead]
          exact fun hnil => hne (List.map_eq_nil_iff.mp hnil)
        obtain ⟨g', r, hrest, hfreq', hmem, hiff⟩ := ih hR₁ hne₁ (by omega)
        rw [hstart, hstop, htol, hahead] at hiff
        rw [hahead] at hmem
        refine ⟨g', r, hrest, hfreq'.trans hfreq, fun c hc => mem_of_mem_after (hmem c hc), ?_⟩
        rw [clean_iff_later hover fun h => hm (hmatched.mpr h), right_after hR hmem, hiff]

/-- **`matchTimeStamps` is right exactly if no turn goes wrong.** -/
theorem matches_iff {fuel : Nat} {g : DataStreamGroup ν} (hfreq : g.frequency = 0)
    (hR : ∀ l ∈ g.ahead, l.Pairwise (· < ·)) (hne : g.ahead ≠ []) (hfuel : total g.ahead < fuel) :
    g.MatchesRight fuel ↔ Clean g.startTime g.stopTime g.timeMatchTolerance g.ahead := by
  obtain ⟨g', r, hrun, hfreq', -, hiff⟩ := matchLoop_spec hR hne hfuel
  have hcall : ∃ g'' ok, g.matchTimeStamps fuel fuel = some (g'', ok) ∧
      (if ok = true then some g''.lastTimes else none) = r.map fun _ => g'.lastTimes := by
    obtain ⟨k, rfl⟩ : ∃ k, fuel = k + 1 := ⟨fuel - 1, by omega⟩
    unfold matchTimeStamps
    rw [hrun]
    cases r with
    | none => exact ⟨g', false, rfl, rfl⟩
    | some maxTime =>
      refine ⟨{ g' with isEOF := false }, true, ?_, rfl⟩
      show (if g'.frequency = 0 then _ else _) = _
      rw [if_pos (hfreq'.trans hfreq)]
  obtain ⟨g'', ok, hcall, hres⟩ := hcall
  rw [← hiff, ← hres]
  constructor
  · rintro ⟨g₂, ok₂, hcall₂, hright⟩
    obtain ⟨rfl, rfl⟩ := Prod.mk.inj (Option.some.inj (hcall₂.symm.trans hcall))
    exact hright
  · exact fun hright => ⟨g'', ok, hcall, hright⟩

theorem total_ahead_le {g : DataStreamGroup ν} (h : ∀ s ∈ g.dataStreams, s.stream.rest <:+ s.stream.records) :
    total g.ahead ≤ total g.stamps := by
  unfold total ahead stamps
  rw [List.map_map, List.map_map]
  refine List.sum_le_sum fun s hs => ?_
  show (s.stream.rest.map Prod.fst).length ≤ (s.stream.records.map Prod.fst).length
  rw [List.length_map, List.length_map]
  exact (h s hs).length_le

/-- **A group of logs**, at any position: the loop sees the right times exactly if it starts right, and
    `matchTimeStamps` goes to the right position exactly if no turn of it goes wrong. -/
theorem group_iff {fuel : Nat} {g : DataStreamGroup ν} (h : Logs g)
    (hrest : ∀ s ∈ g.dataStreams, s.stream.rest <:+ s.stream.records) (hfuel : total g.stamps + 2 < fuel) :
    (g.Merges fuel ↔ g.Starts) ∧
      (g.MatchesRight fuel ↔ Clean g.startTime g.stopTime g.timeMatchTolerance g.ahead) := by
  refine ⟨merges_iff_starts h hfuel, matches_iff h.frequency ?_ ?_ ?_⟩
  · intro l hl
    obtain ⟨s, hs, rfl⟩ := List.mem_map.mp hl
    have hsorted := (h.increasing _ (List.mem_map_of_mem hs)).1
    exact hsorted.sublist ((hrest s hs).sublist.map Prod.fst)
  · exact fun hnil => h.nonempty (List.map_eq_nil_iff.mp hnil)
  · have hle := total_ahead_le hrest
    omega

/-- A group of logs with the given time stamps. -/
def ofStamps (preserveTime : Bool) (startTime stopTime : ℚ) (stamps : List (List ℚ)) : DataStreamGroup Unit where
  dataStreams := stamps.map fun l =>
    { stream := ⟨l.map fun t => (t, ()), l.map fun t => (t, ())⟩, currTime := 0, lastRead := (0, ()) }
  preserveTime := preserveTime
  frequency := 0
  startTime := startTime
  stopTime := stopTime
  nextFrequencyCheck := 0
  frequencyMultiple := 0
  timeMatchTolerance := 1 / 10 ^ 9
  isEOF := false

/-- Two logs of which the second has a time more. -/
theorem group_iff_two :
    ((ofStamps true 0 10 [[0, 1], [0, 1, 2]]).Merges 8 ↔ (ofStamps true 0 10 [[0, 1], [0, 1, 2]]).Starts) ∧
      ((ofStamps true 0 10 [[0, 1], [0, 1, 2]]).MatchesRight 8 ↔ Clean 0 10 (1 / 10 ^ 9) [[0, 1], [0, 1, 2]]) := by
  have hlogs : ∀ l ∈ [[(0 : ℚ), 1], [0, 1, 2]], l.Pairwise (· < ·) ∧ ∀ t ∈ l, t ≤ dblMax := by decide +kernel
  have hzero : (0 : ℚ) ≤ dblMax := by decide +kernel
  refine group_iff ⟨rfl, hlogs, List.cons_ne_nil _ _, le_refl _, hzero⟩ ?_ (by decide)
  intro s hs
  obtain ⟨l, -, rfl⟩ := List.mem_map.mp hs
  exact List.suffix_refl _

/-- **The loop starts wrong, and a failed test throws a match away.**  A log from 5 on that is read from 1 on is
    first seen at 6; with preserved time the first time is seen though only one log has it; and of the logs
    0, 3, 5 and 1, 3, 6 the match at 3 is skipped. -/
theorem not_merges_not_matches :
    (ofStamps false 1 10 [[5, 6]]).times 8 = some [6] ∧ ¬ (ofStamps false 1 10 [[5, 6]]).Merges 8 ∧
      (ofStamps true 0 10 [[0, 1], [1, 2]]).times 8 = some [0, 1] ∧ ¬ (ofStamps true 0 10 [[0, 1], [1, 2]]).Merges 8 ∧
      ¬ (ofStamps true 0 10 [[0, 3, 5], [1, 3, 6]]).MatchesRight 8 := by
  have hfirst : (ofStamps false 1 10 [[5, 6]]).times 8 = some [6] := by decide +kernel
  have hpreserve : (ofStamps true 0 10 [[0, 1], [1, 2]]).times 8 = some [0, 1] := by decide +kernel
  have hmatch : ((ofStamps true 0 10 [[0, 3, 5], [1, 3, 6]]).matchTimeStamps 8 8).map Prod.snd = some false := by
    decide +kernel
  refine ⟨hfirst, ?_, hpreserve, ?_, ?_⟩
  · rintro ⟨ts, hts, -, hmem⟩
    obtain rfl := Option.some.inj (hfirst.symm.trans hts)
    have hfive : (5 : ℚ) ∈ [(6 : ℚ)] := by
      refine (hmem 5).mpr ⟨?_, ?_, [5, 6], List.mem_cons_self, List.mem_cons_self⟩
      · show (1 : ℚ) ≤ 5
        norm_num
      · show (5 : ℚ) ≤ 10
        norm_num
    exact absurd hfive (by decide +kernel)
  · rintro ⟨ts, hts, -, hmem⟩
    obtain rfl := Option.some.inj (hpreserve.symm.trans hts)
    obtain ⟨-, -, hall⟩ := (hmem 0).mp List.mem_cons_self
    have hzero : (0 : ℚ) ∈ [(1 : ℚ), 2] := hall [1, 2] (List.mem_cons_of_mem _ List.mem_cons_self)
    exact absurd hzero (by decide +kernel)
  · rintro ⟨g', ok, hrun, hright⟩
    rw [hrun] at hmatch
    obtain rfl : ok = false := Option.some.inj hmatch
    refine hright.2 rfl [3, 3] ⟨?_, ?_, ?_⟩
    · show List.Forall₂ (fun t l => t ∈ l) [(3 : ℚ), 3] [[0, 3, 5], [1, 3, 6]]
      exact List.Forall₂.cons (by decide +kernel) (List.Forall₂.cons (by decide +kernel) List.Forall₂.nil)
    · show ∀ a ∈ [(3 : ℚ), 3], ∀ b ∈ [(3 : ℚ), 3], a - b ≤ 1 / 10 ^ 9
      decide +kernel
    · show ∀ t ∈ [(3 : ℚ), 3], 0 ≤ t ∧ t ≤ 10
      decide +kernel

end DataStreamGroup

end Trick.Log
