/-
  Relations along two lists, `List.Forall₂`: what their members have to do with each other.

  A relation along two lists may use that its arguments are in them, two relations along the same
  lists are one, and relations along `A`, `B` and along `B`, `C` compose.
-/
import Mathlib

namespace Trick.Lib

variable {α β γ : Type*} {A : List α} {B : List β} {C : List γ}

/-- A relation along two lists may use that its arguments are in them. -/
theorem forall₂_imp_mem {P Q : α → β → Prop} (h : List.Forall₂ P A B)
    (himp : ∀ a ∈ A, ∀ b ∈ B, P a b → Q a b) : List.Forall₂ Q A B := by
  induction h with
  | nil => exact List.Forall₂.nil
  | cons hab _ ih =>
    refine List.Forall₂.cons (himp _ List.mem_cons_self _ List.mem_cons_self hab) (ih fun a ha b hb => ?_)
    exact himp a (List.mem_cons_of_mem _ ha) b (List.mem_cons_of_mem _ hb)

theorem forall₂_both {P Q : α → β → Prop} (hP : List.Forall₂ P A B) (hQ : List.Forall₂ Q A B) :
    List.Forall₂ (fun a b => P a b ∧ Q a b) A B := by
  induction hP with
  | nil => exact List.Forall₂.nil
  | cons hab _ ih =>
    cases hQ with
    | cons hab' hrest => exact List.Forall₂.cons ⟨hab, hab'⟩ (ih hrest)

theorem forall₂_trans {P : α → β → Prop} {Q : β → γ → Prop} (hP : List.Forall₂ P A B)
    (hQ : List.Forall₂ Q B C) : List.Forall₂ (fun a c => ∃ b, P a b ∧ Q b c) A C := by
  induction hP generalizing C with
  | nil =>
    cases hQ
    exact List.Forall₂.nil
  | cons hab _ ih =>
    cases hQ with
    | cons hbc hrest => exact List.Forall₂.cons ⟨_, hab, hbc⟩ (ih hrest)

/-- Every member of the second list has a partner in the first. -/
theorem exists_of_forall₂ {P : α → β → Prop} (h : List.Forall₂ P A B) {b : β} (hb : b ∈ B) :
    ∃ a ∈ A, P a b := by
  induction h with
  | nil => exact absurd hb List.not_mem_nil
  | cons hab _ ih =>
    rcases List.mem_cons.mp hb with rfl | hb
    · exact ⟨_, List.mem_cons_self, hab⟩
    · obtain ⟨a, ha, hP⟩ := ih hb
      exact ⟨a, List.mem_cons_of_mem _ ha, hP⟩

/-- A function that agrees along two lists maps them to the same list. -/
theorem map_eq_of_forall₂ {δ : Type*} {f : α → δ} {g : β → δ}
    (h : List.Forall₂ (fun a b => g b = f a) A B) : B.map g = A.map f := by
  induction h with
  | nil => rfl
  | cons hab _ ih => rw [List.map_cons, List.map_cons, hab, ih]

end Trick.Lib
