/-
  `std::multimap`: entries in the order of their keys, several of one key in the order they came in.

  A search gives the two ends of the entries of a key: the first position whose key is not smaller, and the
  first whose key is greater.  `lowerBound_eq_length` says when the first of them is the end of the map, and
  `mem_range` that exactly the values of the key stand between the two.  Nothing here names a program.
-/
import Mathlib
import Trick.Lib.UpperBound

namespace Trick.Lib

/-- **A multimap**: its entries, sorted by key. -/
structure Multimap (κ α : Type*) [LinearOrder κ] where
  entries : List (κ × α)
  sorted : SortedBy Prod.fst entries

namespace Multimap

variable {κ α : Type*} [LinearOrder κ]

/-- No entry. -/
def empty : Multimap κ α := ⟨[], List.Pairwise.nil⟩

/-- A new entry, behind those of its key. -/
def insert (m : Multimap κ α) (k : κ) (a : α) : Multimap κ α where
  entries := insertAt (Trick.Lib.upperBound Prod.fst (k, a) m.entries) (k, a) m.entries
  sorted := m.sorted.insertAt_upperBound

/-- The entries whose value is kept. -/
def filter (keep : α → Bool) (m : Multimap κ α) : Multimap κ α where
  entries := m.entries.filter fun e => keep e.2
  sorted := m.sorted.filter _

/-- The end of the map. -/
def length (m : Multimap κ α) : Nat := m.entries.length

/-- The first position whose key is not smaller. -/
def lowerBound (m : Multimap κ α) (k : κ) : Nat := m.entries.findIdx fun e => decide (k ≤ e.1)

/-- The first position whose key is greater. -/
def upperBound (m : Multimap κ α) (k : κ) : Nat := m.entries.findIdx fun e => decide (k < e.1)

/-- The values between the two bounds of a key. -/
def range (m : Multimap κ α) (k : κ) : List α :=
  ((m.entries.take (m.upperBound k)).drop (m.lowerBound k)).map Prod.snd

variable {m : Multimap κ α} {k : κ} {a : α}

@[simp] theorem mem_insert {e : κ × α} : e ∈ (m.insert k a).entries ↔ e = (k, a) ∨ e ∈ m.entries :=
  mem_insertAt

/-- **The search ends at the end of the map** if and only if every key is smaller. -/
theorem lowerBound_eq_length : m.lowerBound k = m.length ↔ ∀ e ∈ m.entries, e.1 < k := by
  unfold lowerBound length
  rw [List.findIdx_eq_length]
  refine forall₂_congr fun e _ => ?_
  rw [decide_eq_false_iff_not, not_le]

/-- The key at a position. -/
theorem lowerBound_le_iff {i : Nat} (hi : i < m.entries.length) :
    m.lowerBound k ≤ i ↔ k ≤ m.entries[i].1 := by
  unfold lowerBound
  constructor
  · intro hle
    -- the key at the bound is not smaller, and those behind it are no smaller than that
    have hbound : (m.entries.findIdx fun e => decide (k ≤ e.1)) < m.entries.length := by omega
    exact le_trans (of_decide_eq_true (List.findIdx_getElem (w := hbound)))
      (m.sorted.getElem_le hle hbound hi)
  · intro hk
    by_contra hlt
    exact absurd hk (of_decide_eq_false (List.not_of_lt_findIdx (not_le.mp hlt)))

/-- The key at a position, against the other bound. -/
theorem lt_upperBound_iff {i : Nat} (hi : i < m.entries.length) :
    i < m.upperBound k ↔ m.entries[i].1 ≤ k := by
  unfold upperBound
  constructor
  · intro hlt
    exact not_lt.mp (of_decide_eq_false (List.not_of_lt_findIdx hlt))
  · intro hk
    by_contra hle
    have hle : (m.entries.findIdx fun e => decide (k < e.1)) ≤ i := not_lt.mp hle
    have hbound : (m.entries.findIdx fun e => decide (k < e.1)) < m.entries.length := by omega
    have hgreater := of_decide_eq_true (List.findIdx_getElem (w := hbound))
    exact absurd (lt_of_lt_of_le hgreater (m.sorted.getElem_le hle hbound hi)) (not_lt.mpr hk)

/-- **The values of a key** stand between its two bounds. -/
theorem mem_range : a ∈ m.range k ↔ (k, a) ∈ m.entries := by
  unfold range
  rw [List.mem_map]
  constructor
  · rintro ⟨e, he, rfl⟩
    obtain ⟨n, hn, rfl⟩ := List.mem_iff_getElem.mp he
    rw [List.length_drop, List.length_take] at hn
    have hi : m.lowerBound k + n < m.entries.length := by omega
    rw [List.getElem_drop, List.getElem_take]
    have hge := (lowerBound_le_iff (k := k) hi).mp (by omega)
    have hle := (lt_upperBound_iff (k := k) hi).mp (by omega)
    have hkey : k = m.entries[m.lowerBound k + n].1 := le_antisymm hge hle
    have hentry : (k, m.entries[m.lowerBound k + n].2) = m.entries[m.lowerBound k + n] :=
      Prod.ext hkey rfl
    rw [hentry]
    exact List.getElem_mem hi
  · intro hmem
    obtain ⟨i, hi, heq⟩ := List.mem_iff_getElem.mp hmem
    have hge := (lowerBound_le_iff (k := k) hi).mpr (by rw [heq])
    have hlt := (lt_upperBound_iff (k := k) hi).mpr (by rw [heq])
    refine ⟨(k, a), ?_, rfl⟩
    rw [List.mem_iff_getElem]
    refine ⟨i - m.lowerBound k, ?_, ?_⟩
    · rw [List.length_drop, List.length_take]
      omega
    · rw [List.getElem_drop, List.getElem_take, ← heq]
      congr 1
      omega

end Multimap

end Trick.Lib
