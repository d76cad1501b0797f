/-
  Row-major indices: the places of the elements of an array of several dimensions.

  `rowMajor` is the place of an element, by Horner's rule from the first index on; every place is that of one
  element (`exists_rowMajor`, `rowMajor_inj`).  `displacement` is the sum of the indices times their strides.

  Nothing here names a program.
-/
import Mathlib

namespace Trick.Lib

/-- **The place of an element in a table**, after `offset` whole tables. -/
def rowMajor : Nat → List Nat → List Nat → Nat
  | offset, size :: sizes, i :: g => rowMajor (offset * size + i) sizes g
  | offset, _, _ => offset

/-- The indices of an element. -/
def Indices (sizes g : List Nat) : Prop := List.Forall₂ (fun size i => i < size) sizes g

theorem rowMajor_lt {sizes g : List Nat} (h : Indices sizes g) {offset n : Nat} (hlt : offset < n) :
    rowMajor offset sizes g < n * sizes.prod := by
  induction h generalizing offset n with
  | nil =>
    rw [List.prod_nil, Nat.mul_one]
    exact hlt
  | @cons size i sizes g hi _ ih =>
    have hnext : offset * size + i < n * size :=
      calc offset * size + i < offset * size + size := Nat.add_lt_add_left hi _
        _ = (offset + 1) * size := by ring
        _ ≤ n * size := Nat.mul_le_mul_right _ hlt
    rw [List.prod_cons, ← Nat.mul_assoc]
    exact ih hnext

theorem rowMajor_add {sizes g : List Nat} (h : Indices sizes g) (offset : Nat) :
    rowMajor offset sizes g = offset * sizes.prod + rowMajor 0 sizes g := by
  induction h generalizing offset with
  | nil =>
    show offset = offset * 1 + 0
    rw [Nat.mul_one]
    rfl
  | @cons size i sizes g _ _ ih =>
    show rowMajor (offset * size + i) sizes g = _ + rowMajor (0 * size + i) sizes g
    rw [ih (offset * size + i), ih (0 * size + i), List.prod_cons]
    ring

/-- **Every place is that of an element.** -/
theorem exists_rowMajor (sizes : List Nat) {k : Nat} (h : k < sizes.prod) :
    ∃ g, Indices sizes g ∧ rowMajor 0 sizes g = k := by
  induction sizes generalizing k with
  | nil =>
    refine ⟨[], .nil, ?_⟩
    rw [List.prod_nil] at h
    exact (Nat.lt_one_iff.mp h).symm
  | cons size sizes ih =>
    rw [List.prod_cons] at h
    have hpos : 0 < sizes.prod := Nat.pos_of_ne_zero fun hzero => by
      rw [hzero, Nat.mul_zero] at h
      exact Nat.not_lt_zero k h
    obtain ⟨g, hg, heq⟩ := ih (Nat.mod_lt k hpos)
    refine ⟨k / sizes.prod :: g, .cons (Nat.div_lt_of_lt_mul ?_) hg, ?_⟩
    · rw [Nat.mul_comm]
      exact h
    · show rowMajor (0 * size + k / sizes.prod) sizes g = k
      rw [Nat.zero_mul, Nat.zero_add, rowMajor_add hg, heq]
      exact Nat.div_add_mod' k sizes.prod

/-- **No two elements have one place.** -/
theorem rowMajor_inj {sizes g h : List Nat} (hg : Indices sizes g) (hh : Indices sizes h)
    (heq : rowMajor 0 sizes g = rowMajor 0 sizes h) : g = h := by
  induction hg generalizing h with
  | nil =>
    cases hh
    rfl
  | @cons size i sizes g hi hg ih =>
    cases hh with
    | @cons _ j _ h hj hh =>
      change rowMajor (0 * size + i) sizes g = rowMajor (0 * size + j) sizes h at heq
      rw [rowMajor_add hg, rowMajor_add hh, Nat.zero_mul, Nat.zero_add, Nat.zero_add] at heq
      have hlt : ∀ {k}, Indices sizes k → rowMajor 0 sizes k < sizes.prod := by
        intro k hk
        have := rowMajor_lt hk Nat.zero_lt_one
        rwa [Nat.one_mul] at this
      have hg' := hlt hg
      have hh' := hlt hh
      -- the first indices are the quotients, and the other places the remainders
      have hi' : i = j := by
        have hdiv := congrArg (· / sizes.prod) heq
        rwa [Nat.add_comm, Nat.add_mul_div_right _ _ (Nat.zero_lt_of_lt hg'), Nat.div_eq_of_lt hg', Nat.zero_add,
          Nat.add_comm, Nat.add_mul_div_right _ _ (Nat.zero_lt_of_lt hg'), Nat.div_eq_of_lt hh', Nat.zero_add] at hdiv
      rw [hi'] at heq ⊢
      rw [ih hh (Nat.add_left_cancel heq)]

/-- **Indices times strides**, of elements of `element` bytes. -/
def displacement (element : Nat) : List Nat → List Nat → Nat
  | _ :: sizes, i :: g => i * (sizes.prod * element) + displacement element sizes g
  | _, _ => 0

theorem displacement_eq {sizes g : List Nat} (h : Indices sizes g) (element : Nat) :
    displacement element sizes g = rowMajor 0 sizes g * element := by
  induction h with
  | nil => exact (Nat.zero_mul _).symm
  | @cons size i sizes g _ hg ih =>
    show i * (sizes.prod * element) + displacement element sizes g = rowMajor (0 * size + i) sizes g * element
    rw [ih, rowMajor_add hg (0 * size + i), Nat.zero_mul, Nat.zero_add]
    ring

/-! ## The places of a table -/

/-- **The places of `d` tables** of `n` elements, one after the other. -/
theorem flatMap_places (b d n : Nat) :
    (List.range d).flatMap (fun i => List.range' (b + i * n) n) = List.range' b (d * n) := by
  induction d with
  | zero => rw [Nat.zero_mul, List.range_zero, List.flatMap_nil, List.range'_zero]
  | succ d ih =>
    rw [List.range_succ, List.flatMap_append, ih, List.flatMap_singleton, Nat.succ_mul, Nat.add_comm (d * n),
      Nat.add_comm n, List.range'_append_1]

/-! ## A walk over the elements -/

section Walk

variable {σ : Type*} (element : Nat → σ → σ) (pointer : σ → σ)

/-- **A walk over the dimensions** of an array, from the element number `offset` on; a dimension of zero ends it. -/
def walk : List Nat → Nat → σ → σ
  | [], offset, s => element offset s
  | size :: sizes, offset, s =>
    if size = 0 then pointer s else (List.range size).foldl (fun s i => walk sizes (offset * size + i) s) s

/-- **With fixed dimensions** it goes to each element once, in their order. -/
theorem walk_fixed {sizes : List Nat} (h : ∀ d ∈ sizes, d ≠ 0) (offset : Nat) (s : σ) :
    walk element pointer sizes offset s =
      (List.range' (offset * sizes.prod) sizes.prod).foldl (fun s k => element k s) s := by
  induction sizes generalizing offset s with
  | nil =>
    rw [List.prod_nil, Nat.mul_one, List.range'_one]
    rfl
  | cons size sizes ih =>
    obtain ⟨hsize, hrest⟩ := List.forall_mem_cons.mp h
    rw [walk, if_neg hsize, List.prod_cons, ← Nat.mul_assoc, ← flatMap_places, List.foldl_flatMap]
    simp only [ih hrest, Nat.add_mul]

/-- **With a dimension of zero** it goes to the pointer once for each element before it. -/
theorem walk_pointer {sizes : List Nat} (h : ∃ d ∈ sizes, d = 0) (offset : Nat) (s : σ) :
    walk element pointer sizes offset s =
      (List.range (sizes.takeWhile (· ≠ 0)).prod).foldl (fun s _ => pointer s) s := by
  induction sizes generalizing offset s with
  | nil =>
    obtain ⟨d, hd, -⟩ := h
    exact absurd hd List.not_mem_nil
  | cons size sizes ih =>
    by_cases hsize : size = 0
    · rw [walk, if_pos hsize, List.takeWhile_cons, hsize]
      rfl
    · have hrest : ∃ d ∈ sizes, d = 0 := by
        obtain ⟨d, hd, hzero⟩ := h
        rcases List.mem_cons.mp hd with rfl | hd
        · exact absurd hzero hsize
        · exact ⟨d, hd, hzero⟩
      rw [walk, if_neg hsize, List.takeWhile_cons, if_pos (decide_eq_true hsize), List.prod_cons]
      simp only [ih hrest]
      generalize (sizes.takeWhile (· ≠ 0)).prod = n
      clear ih h hsize
      induction size generalizing s with
      | zero =>
        rw [Nat.zero_mul]
        rfl
      | succ size ih =>
        rw [List.range_succ, List.foldl_append, ih, Nat.succ_mul, List.range_add, List.foldl_append, List.foldl_map]
        rfl

end Walk

end Trick.Lib
