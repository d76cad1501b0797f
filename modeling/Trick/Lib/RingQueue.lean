/-
  A queue in a ring of slots, with the places of its front and of its back.

  `Represents n r l`: the ring with `n` slots holds the list `l`, which has fewer entries than the ring has slots.
  Pushing appends to the list as long as there is room (`Represents.push`), popping takes its head
  (`Represents.front`, `Represents.pop`), and the ring looks empty exactly if the list is (`Represents.isEmpty_iff`).

  Nothing here names a program.
-/
import Mathlib

namespace Trick.Lib

variable {α : Type*}

/-- **A ring**: slots, and where the next entry is read and written. -/
structure RingQueue (α : Type*) where
  slots : Nat → α
  front : Nat
  back : Nat

namespace RingQueue

/-- A new entry, in a ring of `n` slots. -/
def push (n : Nat) (r : RingQueue α) (a : α) : RingQueue α :=
  { r with slots := Function.update r.slots r.back a, back := (r.back + 1) % n }

/-- The first entry is dropped. -/
def pop (n : Nat) (r : RingQueue α) : RingQueue α := { r with front := (r.front + 1) % n }

/-- The first entry. -/
def head (r : RingQueue α) : α := r.slots r.front

def isEmpty (r : RingQueue α) : Bool := decide (r.front = r.back)

/-- **The ring holds the list.** -/
structure Represents (n : Nat) (r : RingQueue α) (l : List α) : Prop where
  front_lt : r.front < n
  length_lt : l.length < n
  back : r.back = (r.front + l.length) % n
  slots : ∀ k a, l[k]? = some a → r.slots ((r.front + k) % n) = a

variable {n : Nat} {r : RingQueue α} {l : List α} {a : α}

theorem represents_nil (hn : 0 < n) (slots : Nat → α) : Represents n ⟨slots, 0, 0⟩ [] where
  front_lt := hn
  length_lt := hn
  back := (Nat.zero_mod n).symm
  slots := fun k a h => by cases h

/-- **It looks empty exactly if it is.** -/
theorem Represents.isEmpty_iff (h : Represents n r l) : r.isEmpty = true ↔ l = [] := by
  have hfront := h.front_lt
  have hlength := h.length_lt
  rw [isEmpty, decide_eq_true_eq, h.back]
  constructor
  · intro heq
    by_contra hne
    have hpos : 0 < l.length := List.length_pos_iff.mpr hne
    by_cases hwrap : r.front + l.length < n
    · rw [Nat.mod_eq_of_lt hwrap] at heq
      omega
    · rw [Nat.mod_eq_sub_mod (by omega), Nat.mod_eq_of_lt (by omega)] at heq
      omega
  · rintro rfl
    exact (Nat.mod_eq_of_lt hfront).symm

theorem Represents.head (h : Represents n r (a :: l)) : r.head = a := by
  have hslot := h.slots 0 a rfl
  rwa [Nat.add_zero, Nat.mod_eq_of_lt h.front_lt] at hslot

/-- **The rest of the list.** -/
theorem Represents.pop (h : Represents n r (a :: l)) : Represents n (r.pop n) l where
  front_lt := Nat.mod_lt _ (Nat.lt_of_le_of_lt (Nat.zero_le _) h.front_lt)
  length_lt := Nat.lt_of_le_of_lt (Nat.le_succ _) h.length_lt
  back := by
    show r.back = ((r.front + 1) % n + l.length) % n
    rw [h.back, Nat.mod_add_mod, List.length_cons]
    congr 1
    omega
  slots := by
    intro k b hb
    show r.slots (((r.front + 1) % n + k) % n) = b
    rw [Nat.mod_add_mod, show r.front + 1 + k = r.front + (k + 1) by omega]
    exact h.slots (k + 1) b hb

/-- **One more entry**, while there is room. -/
theorem Represents.push (h : Represents n r l) (hroom : l.length + 1 < n) (a : α) :
    Represents n (r.push n a) (l ++ [a]) where
  front_lt := h.front_lt
  length_lt := by
    rw [List.length_append]
    exact hroom
  back := by
    show (r.back + 1) % n = (r.front + (l ++ [a]).length) % n
    rw [h.back, Nat.mod_add_mod, List.length_append]
    rfl
  slots := by
    intro k b hb
    show Function.update r.slots r.back a ((r.front + k) % n) = b
    have hfront := h.front_lt
    by_cases hk : k < l.length
    · -- an older entry, in another slot
      have hne : (r.front + k) % n ≠ r.back := by
        rw [h.back]
        intro heq
        have hmod : r.front + k ≡ r.front + l.length [MOD n] := heq
        have hcancel : k ≡ l.length [MOD n] := Nat.ModEq.add_left_cancel' _ hmod
        have hsame := Nat.ModEq.eq_of_lt_of_lt hcancel (by omega) (by omega)
        omega
      rw [Function.update_of_ne hne]
      rw [List.getElem?_append_left hk] at hb
      exact h.slots k b hb
    · have hlast : k = l.length := by
        have hbound : k < (l ++ [a]).length := (List.getElem?_eq_some_iff.mp hb).1
        rw [List.length_append, List.length_singleton] at hbound
        omega
      subst hlast
      rw [List.getElem?_append_right (Nat.le_refl _), Nat.sub_self] at hb
      rw [← h.back, Function.update_self]
      cases hb
      rfl

end RingQueue

end Trick.Lib
