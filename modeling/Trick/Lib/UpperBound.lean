/-
  `std::upper_bound` over a list and the insertion of an element there.

  `upperBound key x l` is the halving loop of the C++ library over a list that is sorted by `key`:
  the first index whose element has a greater key than `x`.  The loop keeps the pair (`first`,
  `len`) and looks at the middle of the `len` elements from `first` on; its two invariants are
  that everything below `first` has a key that is not greater than `x`'s and everything from
  `first + len` on has a greater one.  They need no more than a list that is split by `x`
  (`Parted`), the precondition that the C++ standard states.  On any other list the loop still
  stays in range, and it stops between a neighbour whose key is not greater than `x`'s and one
  whose key is (`upperBound_adjacent`).

  `insertAt` puts the element there; a list that is sorted stays sorted, and its members are the
  old ones and the new one.  Nothing here names a program.
-/
import Mathlib

namespace Trick.Lib

variable {α κ : Type*} [LinearOrder κ]

/-! ## The halving loop -/

/-- The loop: the answer lies in `first .. first + len`.  The first argument only makes the
    recursion structural; `len` is enough of it. -/
def upperBoundLoop (key : α → κ) (x : α) (l : List α) : Nat → Nat → Nat → Nat
  | 0, first, _ => first
  | fuel + 1, first, len =>
    match len with
    | 0 => first
    | len + 1 =>
      let half := (len + 1) / 2
      match l[first + half]? with
      | none => first
      | some y =>
        if key x < key y then upperBoundLoop key x l fuel first half
        else upperBoundLoop key x l fuel (first + half + 1) (len - half)

/-- **`std::upper_bound`**: the index of the first element whose key is greater than `x`'s. -/
def upperBound (key : α → κ) (x : α) (l : List α) : Nat :=
  upperBoundLoop key x l l.length 0 l.length

/-- Sorted by `key`: an earlier element never has a greater key. -/
def SortedBy (key : α → κ) (l : List α) : Prop :=
  l.Pairwise fun a b => key a ≤ key b

instance (key : α → κ) (l : List α) : Decidable (SortedBy key l) :=
  inferInstanceAs (Decidable (l.Pairwise _))

/-- Only the keys of the members matter, and only their order. -/
theorem SortedBy.of_le {key key' : α → κ} {l : List α} (hs : SortedBy key l)
    (h : ∀ a ∈ l, ∀ b ∈ l, key a ≤ key b → key' a ≤ key' b) : SortedBy key' l :=
  List.Pairwise.imp_of_mem (fun ha hb hle => h _ ha _ hb hle) hs

theorem SortedBy.getElem_le {key : α → κ} {l : List α} (hs : SortedBy key l) {i j : Nat}
    (hij : i ≤ j) (hi : i < l.length) (hj : j < l.length) : key l[i] ≤ key l[j] := by
  rcases Nat.lt_or_eq_of_le hij with h | h
  · exact List.pairwise_iff_getElem.mp hs i j hi hj h
  · subst h; exact le_refl _

/-- **Split by `x`**: no member with a greater key than `x`'s stands before one without. -/
def Parted (key : α → κ) (x : α) (l : List α) : Prop :=
  l.Pairwise fun a b => key x < key a → key x < key b

instance (key : α → κ) (x : α) (l : List α) : Decidable (Parted key x l) :=
  inferInstanceAs (Decidable (l.Pairwise _))

theorem SortedBy.parted {key : α → κ} {l : List α} (hs : SortedBy key l) (x : α) :
    Parted key x l := by
  refine List.Pairwise.imp ?_ hs
  intro a b hle hlt
  exact lt_of_lt_of_le hlt hle

theorem Parted.getElem_lt {key : α → κ} {x : α} {l : List α} (hp : Parted key x l) {i j : Nat}
    (hij : i ≤ j) (hi : i < l.length) (hj : j < l.length) (h : key x < key l[i]) :
    key x < key l[j] := by
  rcases Nat.lt_or_eq_of_le hij with hlt | heq
  · exact List.pairwise_iff_getElem.mp hp i j hi hj hlt h
  · subst heq; exact h

/-- The loop never leaves the interval — no sortedness needed. -/
theorem upperBoundLoop_le (key : α → κ) (x : α) (l : List α) :
    ∀ fuel first len : Nat, upperBoundLoop key x l fuel first len ≤ first + len := by
  intro fuel
  induction fuel with
  | zero => intro first len; unfold upperBoundLoop; omega
  | succ fuel ih =>
    intro first len
    unfold upperBoundLoop
    cases len with
    | zero => simp
    | succ len =>
      simp only
      split
      · omega
      · split
        · have := ih first ((len + 1) / 2); omega
        · have := ih (first + (len + 1) / 2 + 1) (len - (len + 1) / 2); omega

/-- The behaviour of the loop, by induction on the fuel: `hlo` and `hhi` are its invariants. -/
theorem upperBoundLoop_spec (key : α → κ) (x : α) (l : List α) (hp : Parted key x l) :
    ∀ fuel first len : Nat, len ≤ fuel → first + len ≤ l.length →
      (∀ j (hj : j < l.length), j < first → key l[j] ≤ key x) →
      (∀ j (hj : j < l.length), first + len ≤ j → key x < key l[j]) →
      (∀ j (hj : j < l.length), j < upperBoundLoop key x l fuel first len → key l[j] ≤ key x) ∧
      (∀ j (hj : j < l.length), upperBoundLoop key x l fuel first len ≤ j → key x < key l[j]) := by
  intro fuel
  induction fuel with
  | zero =>
    intro first len hfuel _ hlo hhi
    have h0 : len = 0 := by omega
    subst h0
    exact ⟨hlo, hhi⟩
  | succ fuel ih =>
    intro first len hfuel hlen hlo hhi
    unfold upperBoundLoop
    cases len with
    | zero => exact ⟨hlo, hhi⟩
    | succ len =>
      simp only
      have hmid : first + (len + 1) / 2 < l.length := by omega
      rw [List.getElem?_eq_getElem hmid]
      by_cases hlt : key x < key l[first + (len + 1) / 2]
      · -- the middle element is greater: keep the left half
        simp only [if_pos hlt]
        refine ih first ((len + 1) / 2) (by omega) (by omega) hlo ?_
        intro j hj hle
        exact hp.getElem_lt hle hmid hj hlt
      · -- the middle element is not greater: go on to its right
        simp only [if_neg hlt]
        refine ih _ _ (by omega) (by omega) ?_ ?_
        · intro j hj hlt'
          by_contra hgt
          exact hlt (hp.getElem_lt (by omega) hj hmid (not_le.mp hgt))
        · intro j hj hle
          exact hhi j hj (by omega)

/-- The insertion point is in range. -/
theorem upperBound_le_length (key : α → κ) (x : α) (l : List α) :
    upperBound key x l ≤ l.length := by
  have h := upperBoundLoop_le key x l l.length 0 l.length
  unfold upperBound
  omega

/-- **Spec of `upperBound`** on a list that is split by `x`: what stands before it has no greater
    key, what stands from it on has a greater one. -/
theorem Parted.upperBound_spec {key : α → κ} {x : α} {l : List α} (hp : Parted key x l) :
    (∀ j (hj : j < l.length), j < upperBound key x l → key l[j] ≤ key x) ∧
    (∀ j (hj : j < l.length), upperBound key x l ≤ j → key x < key l[j]) := by
  refine upperBoundLoop_spec key x l hp l.length 0 l.length (Nat.le_refl _) (by omega) ?_ ?_
  · intro j _ h0; omega
  · intro j hj hle; omega

/-- The loop on any list: it never moves an end of the interval past a member that it has not
    compared with `x`. -/
theorem upperBoundLoop_adjacent (key : α → κ) (x : α) (l : List α) :
    ∀ fuel first len : Nat, len ≤ fuel → first + len ≤ l.length →
      (∀ j (hj : j < l.length), j + 1 = first → key l[j] ≤ key x) →
      (∀ (hj : first + len < l.length), key x < key l[first + len]) →
      (∀ j (hj : j < l.length), j + 1 = upperBoundLoop key x l fuel first len →
        key l[j] ≤ key x) ∧
      (∀ j (hj : j < l.length), j = upperBoundLoop key x l fuel first len → key x < key l[j]) := by
  intro fuel
  induction fuel with
  | zero =>
    intro first len hfuel _ hlo hhi
    have h0 : len = 0 := by omega
    subst h0
    refine ⟨hlo, ?_⟩
    rintro j hj rfl
    exact hhi hj
  | succ fuel ih =>
    intro first len hfuel hlen hlo hhi
    unfold upperBoundLoop
    cases len with
    | zero =>
      refine ⟨hlo, ?_⟩
      rintro j hj rfl
      exact hhi hj
    | succ len =>
      simp only
      have hmid : first + (len + 1) / 2 < l.length := by omega
      rw [List.getElem?_eq_getElem hmid]
      by_cases hlt : key x < key l[first + (len + 1) / 2]
      · simp only [if_pos hlt]
        exact ih first ((len + 1) / 2) (by omega) (by omega) hlo (fun _ => hlt)
      · simp only [if_neg hlt]
        have hend : first + (len + 1) / 2 + 1 + (len - (len + 1) / 2) = first + (len + 1) := by
          omega
        refine ih _ _ (by omega) (by omega) ?_ ?_
        · intro j hj hjeq
          have hjm : j = first + (len + 1) / 2 := by omega
          subst hjm
          exact not_lt.mp hlt
        · intro hj
          have hj' : first + (len + 1) < l.length := by omega
          have heq : l[first + (len + 1) / 2 + 1 + (len - (len + 1) / 2)] =
              l[first + (len + 1)] := by
            congr 1
          rw [heq]
          exact hhi hj'

/-- **The neighbours of the insertion point**, whatever the order of the list: the member before
    it has no greater key than `x`, the member at it has a greater one. -/
theorem upperBound_adjacent (key : α → κ) (x : α) (l : List α) :
    (∀ j (hj : j < l.length), j + 1 = upperBound key x l → key l[j] ≤ key x) ∧
    (∀ j (hj : j < l.length), j = upperBound key x l → key x < key l[j]) := by
  refine upperBoundLoop_adjacent key x l l.length 0 l.length (Nat.le_refl _) (by omega) ?_ ?_
  · intro j _ h0; omega
  · intro hj; omega

/-! ## Insertion -/

/-- `x` inserted at position `i`: the elements from `i` on move one place to the right. -/
def insertAt (i : Nat) (x : α) (l : List α) : List α :=
  l.take i ++ x :: l.drop i

@[simp] theorem mem_insertAt {i : Nat} {x y : α} {l : List α} :
    y ∈ insertAt i x l ↔ y = x ∨ y ∈ l := by
  unfold insertAt
  have h : y ∈ l ↔ y ∈ l.take i ∨ y ∈ l.drop i := by
    rw [← List.mem_append, List.take_append_drop]
  simp only [List.mem_append, List.mem_cons, h]
  tauto

theorem length_insertAt {i : Nat} {x : α} {l : List α} :
    (insertAt i x l).length = l.length + 1 := by
  unfold insertAt
  simp only [List.length_append, List.length_cons, List.length_take, List.length_drop]
  omega

theorem insertAt_perm (i : Nat) (x : α) (l : List α) : (insertAt i x l).Perm (x :: l) := by
  unfold insertAt
  refine List.perm_middle.trans ?_
  rw [List.take_append_drop]

theorem nodup_insertAt {i : Nat} {x : α} {l : List α} (hx : x ∉ l) (hl : l.Nodup) :
    (insertAt i x l).Nodup :=
  (insertAt_perm i x l).nodup_iff.mpr (List.nodup_cons.mpr ⟨hx, hl⟩)

/-- An insertion in the left part of a list. -/
theorem insertAt_append_left {i : Nat} {x : α} {l r : List α} (h : i ≤ l.length) :
    insertAt i x (l ++ r) = insertAt i x l ++ r := by
  unfold insertAt
  rw [List.take_append_of_le_length h, List.drop_append_of_le_length h]
  simp only [List.append_assoc, List.cons_append]

/-- An insertion in the right part of a list. -/
theorem insertAt_append_right {i : Nat} {x : α} {l r : List α} (h : l.length ≤ i) :
    insertAt i x (l ++ r) = l ++ insertAt (i - l.length) x r := by
  unfold insertAt
  rw [List.take_append, List.drop_append, List.take_of_length_le h, List.drop_of_length_le h]
  simp only [List.append_assoc, List.nil_append]

/-- An insertion behind the first element. -/
theorem insertAt_succ_cons {i : Nat} {x a : α} {l : List α} :
    insertAt (i + 1) x (a :: l) = a :: insertAt i x l := rfl

/-- A relation that holds along the list, up to `x` and from `x` on, holds along the insertion. -/
theorem pairwise_insertAt {R : α → α → Prop} {i : Nat} {x : α} {l : List α} (hl : l.Pairwise R)
    (hleft : ∀ a ∈ l.take i, R a x) (hright : ∀ b ∈ l.drop i, R x b) :
    (insertAt i x l).Pairwise R := by
  rw [← List.take_append_drop i l] at hl
  obtain ⟨htake, hdrop, hcross⟩ := List.pairwise_append.mp hl
  unfold insertAt
  rw [List.pairwise_append, List.pairwise_cons]
  refine ⟨htake, ⟨hright, hdrop⟩, ?_⟩
  intro a ha b hb
  rcases List.mem_cons.mp hb with rfl | hb
  · exact hleft a ha
  · exact hcross a ha b hb

/-- What stands before the upper bound, and what stands from it on. -/
theorem Parted.take_drop {key : α → κ} {x : α} {l : List α} (hp : Parted key x l) :
    (∀ a ∈ l.take (upperBound key x l), key a ≤ key x) ∧
    (∀ b ∈ l.drop (upperBound key x l), key x < key b) := by
  obtain ⟨hlo, hhi⟩ := hp.upperBound_spec
  refine ⟨?_, ?_⟩
  · intro a ha
    obtain ⟨j, hj, rfl⟩ := List.mem_iff_getElem.mp ha
    rw [List.getElem_take]
    rw [List.length_take] at hj
    exact hlo j (by omega) (by omega)
  · intro b hb
    obtain ⟨j, hj, rfl⟩ := List.mem_iff_getElem.mp hb
    rw [List.getElem_drop]
    rw [List.length_drop] at hj
    exact hhi _ (by omega) (by omega)

/-- **Insertion at the upper bound keeps the order.** -/
theorem SortedBy.insertAt_upperBound {key : α → κ} {x : α} {l : List α} (hs : SortedBy key l) :
    SortedBy key (insertAt (upperBound key x l) x l) := by
  obtain ⟨hleft, hright⟩ := (hs.parted x).take_drop
  exact pairwise_insertAt hs hleft (fun b hb => le_of_lt (hright b hb))

/-- **Insertion at the upper bound of one key keeps the order of a coarser one**, on a list that
    is sorted by the coarser key only. -/
theorem SortedBy.insertAt_coarser {κ' : Type*} [LinearOrder κ'] {key : α → κ} {coarse : α → κ'}
    (hmono : ∀ a b, key a ≤ key b → coarse a ≤ coarse b) {x : α} {l : List α}
    (hs : SortedBy coarse l) : SortedBy coarse (insertAt (upperBound key x l) x l) := by
  obtain ⟨hlo, hhi⟩ := upperBound_adjacent key x l
  have hle := upperBound_le_length key x l
  refine pairwise_insertAt hs ?_ ?_
  · intro a ha
    obtain ⟨j, hj, rfl⟩ := List.mem_iff_getElem.mp ha
    rw [List.length_take] at hj
    rw [List.getElem_take]
    have hbefore : upperBound key x l - 1 < l.length := by omega
    exact le_trans (hs.getElem_le (by omega) (by omega) hbefore)
      (hmono _ _ (hlo (upperBound key x l - 1) hbefore (by omega)))
  · intro b hb
    obtain ⟨j, hj, rfl⟩ := List.mem_iff_getElem.mp hb
    rw [List.length_drop] at hj
    rw [List.getElem_drop]
    have hat : upperBound key x l < l.length := by omega
    exact le_trans (hmono _ _ (le_of_lt (hhi _ hat rfl))) (hs.getElem_le (by omega) hat (by omega))

end Trick.Lib
