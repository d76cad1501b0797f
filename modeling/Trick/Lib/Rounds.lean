/-
  Parties that take turns, in any order, come to an end.

  A system is a `step : σ → ι → σ`.  In a round each party takes a step at least; between them anything else may happen.
  As long as the end is not reached some party can move; a move lowers a rank, which no other step raises, and a party
  that can move can do so until something has moved.  Then as many rounds as the rank are enough
  (`exists_prefix_done`).

  Nothing here names a program.
-/
import Trick.Lib.Run

namespace Trick.Lib

variable {σ ι : Type*}

/-- **What turns need to come to an end.** -/
structure Progress (step : σ → ι → σ) (Inv Done : σ → Prop) (party : ι → Prop) (moves : σ → ι → Prop)
    (rank : σ → Nat) : Prop where
  inv : ∀ s a, Inv s → ¬Done s → Inv (step s a)
  rank_le : ∀ s a, Inv s → ¬Done s → rank (step s a) ≤ rank s
  rank_lt : ∀ s a, Inv s → ¬Done s → moves s a → rank (step s a) < rank s
  stays : ∀ s a b, Inv s → ¬Done s → moves s b → rank (step s a) < rank s ∨ moves (step s a) b
  enabled : ∀ s, Inv s → ¬Done s → ∃ a, party a ∧ moves s a

variable {step : σ → ι → σ} {Inv Done : σ → Prop} {party : ι → Prop} {moves : σ → ι → Prop} {rank : σ → Nat}

/-- The end is reached, or nothing is lost. -/
theorem Progress.rest (h : Progress step Inv Done party moves rank) :
    ∀ (as : List ι) (s : σ), Inv s → ∃ done, done <+: as ∧
      (Done (run step s done) ∨ (done = as ∧ Inv (run step s as) ∧ rank (run step s as) ≤ rank s))
  | [], s, hs => ⟨[], List.nil_prefix, Or.inr ⟨rfl, hs, Nat.le_refl _⟩⟩
  | a :: as, s, hs => by
    by_cases hdone : Done s
    · exact ⟨[], List.nil_prefix, Or.inl hdone⟩
    · obtain ⟨done, hprefix, hend⟩ := h.rest as (step s a) (h.inv s a hs hdone)
      refine ⟨a :: done, (List.prefix_cons_inj a).mpr hprefix, ?_⟩
      rcases hend with hend | ⟨rfl, hinv, hrank⟩
      · exact Or.inl hend
      · exact Or.inr ⟨rfl, hinv, Nat.le_trans hrank (h.rank_le s a hs hdone)⟩

/-- **One round**: the end is reached, or the rank is lower. -/
theorem Progress.round (h : Progress step Inv Done party moves rank) {b : ι} :
    ∀ (as : List ι) (s : σ), Inv s → ¬Done s → moves s b → b ∈ as → ∃ done, done <+: as ∧
      (Done (run step s done) ∨ (done = as ∧ Inv (run step s as) ∧ rank (run step s as) < rank s))
  | a :: as, s, hs, hdone, hmoves, hmem => by
    have hinv := h.inv s a hs hdone
    by_cases hlower : rank (step s a) < rank s
    · obtain ⟨done, hprefix, hend⟩ := h.rest as (step s a) hinv
      refine ⟨a :: done, (List.prefix_cons_inj a).mpr hprefix, ?_⟩
      rcases hend with hend | ⟨rfl, hinv', hrank⟩
      · exact Or.inl hend
      · exact Or.inr ⟨rfl, hinv', Nat.lt_of_le_of_lt hrank hlower⟩
    · by_cases hdone' : Done (step s a)
      · exact ⟨[a], (List.prefix_cons_inj a).mpr List.nil_prefix, Or.inl hdone'⟩
      · have hmoves' : moves (step s a) b := (h.stays s a b hs hdone hmoves).resolve_left hlower
        have hmem' : b ∈ as := by
          rcases List.mem_cons.mp hmem with rfl | hmem'
          · exact absurd (h.rank_lt s b hs hdone hmoves) hlower
          · exact hmem'
        obtain ⟨done, hprefix, hend⟩ := h.round as (step s a) hinv hdone' hmoves' hmem'
        refine ⟨a :: done, (List.prefix_cons_inj a).mpr hprefix, ?_⟩
        rcases hend with hend | ⟨rfl, hinv', hrank⟩
        · exact Or.inl hend
        · exact Or.inr ⟨rfl, hinv', Nat.lt_of_lt_of_le hrank (h.rank_le s a hs hdone)⟩

/-- **As many rounds as the rank are enough.** -/
theorem Progress.exists_prefix_done (h : Progress step Inv Done party moves rank) :
    ∀ (rounds : List (List ι)) (s : σ), Inv s → (∀ round ∈ rounds, ∀ a, party a → a ∈ round) →
      rank s ≤ rounds.length → ∃ done, done <+: rounds.flatten ∧ Done (run step s done)
  | [], s, hs, _, hrank => by
    refine ⟨[], List.nil_prefix, ?_⟩
    by_contra hdone
    obtain ⟨a, -, hmoves⟩ := h.enabled s hs hdone
    have hlower := h.rank_lt s a hs hdone hmoves
    rw [List.length_nil] at hrank
    omega
  | round :: rounds, s, hs, hrounds, hrank => by
    by_cases hdone : Done s
    · exact ⟨[], List.nil_prefix, hdone⟩
    · obtain ⟨a, hparty, hmoves⟩ := h.enabled s hs hdone
      have hmem := hrounds round List.mem_cons_self a hparty
      obtain ⟨done, hprefix, hend⟩ := h.round round s hs hdone hmoves hmem
      rcases hend with hend | ⟨rfl, hinv, hlower⟩
      · exact ⟨done, hprefix.trans (List.prefix_append _ _), hend⟩
      · have hrounds' : ∀ r ∈ rounds, ∀ a, party a → a ∈ r :=
          fun r hr => hrounds r (List.mem_cons_of_mem done hr)
        rw [List.length_cons] at hrank
        obtain ⟨later, hprefix', hend⟩ := h.exists_prefix_done rounds (run step s done) hinv hrounds' (by omega)
        refine ⟨done ++ later, ?_, ?_⟩
        · rw [List.flatten_cons]
          exact (List.prefix_append_right_inj done).mpr hprefix'
        · rw [run_append]
          exact hend

end Trick.Lib
