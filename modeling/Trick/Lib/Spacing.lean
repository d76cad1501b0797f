/-
  Texts in which every mark is replaced by copies of a single mark.

  The symbols of a text are marks or not.  `blur` writes a mark as so many copies of the mark `u`, and any other
  symbol as it is; `spacing` is what is left of a text then: the symbols that are no marks, each with the weight of
  the marks behind it, and the weight of the marks in front of the first.  Two texts are blurred to the same text,
  each with weights of its own, exactly if they have the same spacing (`blur_eq_blur_iff`).

  Nothing here names a program.
-/
import Mathlib

namespace Trick.Lib

variable {α : Type*} (mark : α → Bool) (u : α)

/-- **Blurring**: every mark as copies of one mark. -/
def blur (w : α → Nat) (s : List α) : List α :=
  s.flatMap fun c => if mark c then List.replicate (w c) u else [c]

/-- **The spacing** of a text. -/
def spacing (w : α → Nat) : List α → Nat × List (α × Nat)
  | [] => (0, [])
  | c :: s =>
    if mark c then (w c + (spacing w s).1, (spacing w s).2)
    else (0, (c, (spacing w s).1) :: (spacing w s).2)

/-- The blurred text of a spacing. -/
def spread (gaps : Nat × List (α × Nat)) : List α :=
  List.replicate gaps.1 u ++ gaps.2.flatMap fun p => p.1 :: List.replicate p.2 u

variable {mark u}

theorem blur_append (w : α → Nat) (s t : List α) : blur mark u w (s ++ t) = blur mark u w s ++ blur mark u w t := by
  simp only [blur, List.flatMap_append]

theorem blur_cons (w : α → Nat) (c : α) (s : List α) :
    blur mark u w (c :: s) = (if mark c then List.replicate (w c) u else [c]) ++ blur mark u w s := by
  simp only [blur, List.flatMap_cons]

theorem blur_flatMap {β : Type*} (w : α → Nat) (l : List β) (f : β → List α) :
    blur mark u w (l.flatMap f) = l.flatMap fun b => blur mark u w (f b) := by
  simp only [blur, List.flatMap_assoc]

/-- A text without marks stays as it is. -/
theorem blur_of_no_mark (w : α → Nat) {s : List α} (h : ∀ c ∈ s, mark c = false) : blur mark u w s = s := by
  induction s with
  | nil => rfl
  | cons c s ih =>
    have hc : mark c = false := h c List.mem_cons_self
    have hs : blur mark u w s = s := ih fun d hd => h d (List.mem_cons_of_mem _ hd)
    rw [blur_cons, hc, hs]
    rfl

/-- A text whose only mark is `u` stays as it is, where the mark counts once. -/
theorem blur_one_of_only {s : List α} (h : ∀ c ∈ s, mark c = true → c = u) : blur mark u (fun _ => 1) s = s := by
  induction s with
  | nil => rfl
  | cons c s ih =>
    have hs : blur mark u (fun _ => 1) s = s := ih fun d hd => h d (List.mem_cons_of_mem _ hd)
    rw [blur_cons, hs]
    by_cases hc : mark c = true
    · rw [if_pos hc, h c List.mem_cons_self hc]
      rfl
    · rw [if_neg hc]
      rfl

/-- The text of its spacing. -/
theorem blur_eq_spread (w : α → Nat) (s : List α) : blur mark u w s = spread u (spacing mark w s) := by
  induction s with
  | nil => rfl
  | cons c s ih =>
    rw [blur_cons, ih]
    by_cases hc : mark c = true
    · simp only [spacing, hc, if_true, spread, List.replicate_add, List.append_assoc]
    · simp only [spacing, hc, Bool.false_eq_true, if_false, spread, List.replicate_zero, List.nil_append,
        List.flatMap_cons, List.cons_append]

/-- There are no marks among the symbols of a spacing. -/
theorem mark_of_mem_spacing (w : α → Nat) (s : List α) : ∀ p ∈ (spacing mark w s).2, mark p.1 = false := by
  induction s with
  | nil =>
    intro p hp
    exact absurd hp List.not_mem_nil
  | cons c s ih =>
    by_cases hc : mark c = true
    · simp only [spacing, hc, if_true]
      exact ih
    · simp only [spacing, hc, Bool.false_eq_true, if_false]
      exact List.forall_mem_cons.mpr ⟨by simpa using hc, ih⟩

/-- Copies of a symbol in front of another one are counted. -/
theorem replicate_append_cons {n n' : Nat} {c d : α} {s t : List α} (hc : c ≠ u) (hd : d ≠ u)
    (heq : List.replicate n u ++ c :: s = List.replicate n' u ++ d :: t) : n = n' ∧ c = d ∧ s = t := by
  induction n generalizing n' with
  | zero =>
    cases n' with
    | zero =>
      obtain ⟨hcd, hrest⟩ := List.cons.inj heq
      exact ⟨rfl, hcd, hrest⟩
    | succ n' => exact absurd (List.cons.inj heq).1 hc
  | succ n ih =>
    cases n' with
    | zero => exact absurd (List.cons.inj heq).1.symm hd
    | succ n' =>
      obtain ⟨hn, hrest⟩ := ih (List.cons.inj heq).2
      exact ⟨by rw [hn], hrest⟩

/-- **A spacing is read back from its text**, if no symbol of it is the mark. -/
theorem spread_injective (hu : mark u = true) {gaps gaps' : Nat × List (α × Nat)}
    (h : ∀ p ∈ gaps.2, mark p.1 = false) (h' : ∀ p ∈ gaps'.2, mark p.1 = false)
    (heq : spread u gaps = spread u gaps') : gaps = gaps' := by
  obtain ⟨n, l⟩ := gaps
  obtain ⟨n', l'⟩ := gaps'
  -- the number of marks in front is counted down, then the first symbol is taken off
  induction l generalizing n n' l' with
  | nil =>
    cases l' with
    | nil =>
      have hlen : n = n' := by simpa [spread] using congrArg List.length heq
      rw [hlen]
    | cons p l' =>
      obtain ⟨d, k⟩ := p
      have hd : mark d = false := h' (d, k) List.mem_cons_self
      have hmem : d ∈ spread u (n, []) := by
        rw [heq]
        simp [spread]
      have hdu : d = u := by
        simp only [spread, List.flatMap_nil, List.append_nil] at hmem
        exact List.eq_of_mem_replicate hmem
      rw [hdu, hu] at hd
      exact absurd hd (by decide)
  | cons p l ih =>
    obtain ⟨c, k⟩ := p
    have hc : mark c = false := h (c, k) List.mem_cons_self
    have hcu : c ≠ u := by
      intro hcu
      rw [hcu, hu] at hc
      exact absurd hc (by decide)
    cases l' with
    | nil =>
      have hmem : c ∈ spread u (n', []) := by
        rw [← heq]
        simp [spread]
      simp only [spread, List.flatMap_nil, List.append_nil] at hmem
      exact absurd (List.eq_of_mem_replicate hmem) hcu
    | cons q l' =>
      obtain ⟨d, k'⟩ := q
      have hd : mark d = false := h' (d, k') List.mem_cons_self
      have hdu : d ≠ u := by
        intro hdu
        rw [hdu, hu] at hd
        exact absurd hd (by decide)
      simp only [spread, List.flatMap_cons, List.cons_append] at heq
      obtain ⟨hn, hcd, hrest⟩ := replicate_append_cons hcu hdu heq
      have htail : (k, l) = (k', l') :=
        ih k (fun p hp => h p (List.mem_cons_of_mem _ hp)) k' l' (fun p hp => h' p (List.mem_cons_of_mem _ hp)) hrest
      obtain ⟨hk, hl⟩ := Prod.mk.inj htail
      rw [hn, hcd, hk, hl]

/-- **Equal blurred texts are equal spacings.** -/
theorem blur_eq_blur_iff (hu : mark u = true) (w w' : α → Nat) (s t : List α) :
    blur mark u w s = blur mark u w' t ↔ spacing mark w s = spacing mark w' t := by
  rw [blur_eq_spread, blur_eq_spread]
  constructor
  · intro h
    exact spread_injective hu (mark_of_mem_spacing w s) (mark_of_mem_spacing w' t) h
  · intro h
    rw [h]

end Trick.Lib
