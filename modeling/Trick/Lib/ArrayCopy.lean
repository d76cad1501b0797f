/-
  The common part of two arrays of several dimensions is copied, element by element.

  `copyBytes` is a copy of some bytes in a memory, and `copyElements` a list of such copies.  `commonPlaces` are
  the places of the elements that two arrays have in common.  `copyElements_common` says what is at an element of
  the second array after the copies.

  Nothing here names a program.
-/
import Mathlib
import Trick.Lib.RowMajor

namespace Trick.Lib

/-! ## Copies -/

/-- **Some bytes are copied.** -/
def copyBytes (m : Nat → UInt8) (dest src n : Nat) : Nat → UInt8 := fun x =>
  if dest ≤ x ∧ x < dest + n then m (src + (x - dest)) else m x

/-- Elements of `size` bytes are copied, from the first place of each pair to the second one. -/
def copyElements (src dest size : Nat) (l : List (Nat × Nat)) (m : Nat → UInt8) : Nat → UInt8 :=
  l.foldl (fun m p => copyBytes m (dest + p.2 * size) (src + p.1 * size) size) m

variable {m : Nat → UInt8} {src dest size : Nat} {l : List (Nat × Nat)}

theorem copyBytes_inside {d s n b : Nat} (h : b < n) : copyBytes m d s n (d + b) = m (s + b) := by
  unfold copyBytes
  rw [if_pos ⟨Nat.le_add_right d b, Nat.add_lt_add_left h d⟩, Nat.add_sub_cancel_left]

theorem copyBytes_outside {d s n x : Nat} (h : ¬ (d ≤ x ∧ x < d + n)) : copyBytes m d s n x = m x := if_neg h

/-- Elsewhere nothing changes. -/
theorem copyElements_outside {x : Nat} (h : ∀ p ∈ l, ¬ (dest + p.2 * size ≤ x ∧ x < dest + p.2 * size + size)) :
    copyElements src dest size l m x = m x := by
  induction l generalizing m with
  | nil => rfl
  | cons p l ih =>
    obtain ⟨hp, hl⟩ := List.forall_mem_cons.mp h
    show copyElements src dest size l (copyBytes m _ _ size) x = _
    rw [ih hl, copyBytes_outside hp]

/-- Two elements of an array have no byte in common. -/
theorem element_disjoint {i j b : Nat} (hne : i ≠ j) (hb : b < size) :
    ¬ (dest + j * size ≤ dest + i * size + b ∧ dest + i * size + b < dest + j * size + size) := by
  rintro ⟨hle, hlt⟩
  rcases Nat.lt_or_gt_of_ne hne with h | h
  · have hmul := Nat.mul_le_mul_right size h
    rw [Nat.succ_mul] at hmul
    omega
  · have hmul := Nat.mul_le_mul_right size h
    rw [Nat.succ_mul] at hmul
    omega

/-- **After the copies** each element has the bytes of its source: no element has two, and none of them is one. -/
theorem copyElements_inside (hfun : ∀ p ∈ l, ∀ q ∈ l, p.2 = q.2 → p.1 = q.1)
    (hsrc : ∀ p ∈ l, ∀ q ∈ l, ∀ b < size,
      ¬ (dest + q.2 * size ≤ src + p.1 * size + b ∧ src + p.1 * size + b < dest + q.2 * size + size))
    {p : Nat × Nat} (hp : p ∈ l) {b : Nat} (hb : b < size) :
    copyElements src dest size l m (dest + p.2 * size + b) = m (src + p.1 * size + b) := by
  induction l generalizing m p with
  | nil => exact absurd hp List.not_mem_nil
  | cons q l ih =>
    have hrest := @ih (copyBytes m (dest + q.2 * size) (src + q.1 * size) size)
      (fun p hp r hr => hfun p (List.mem_cons_of_mem _ hp) r (List.mem_cons_of_mem _ hr))
      (fun p hp r hr => hsrc p (List.mem_cons_of_mem _ hp) r (List.mem_cons_of_mem _ hr))
    show copyElements src dest size l (copyBytes m _ _ size) _ = _
    by_cases hlater : ∃ r ∈ l, r.2 = p.2
    · -- it is written once more, from the same source
      obtain ⟨r, hr, hsame⟩ := hlater
      have hfirst := hfun r (List.mem_cons_of_mem _ hr) p hp hsame
      have hval := hrest hr
      rw [hsame, hfirst] at hval
      rw [hval, copyBytes_outside (hsrc p hp q List.mem_cons_self b hb)]
    · have hpq : p = q := by
        rcases List.mem_cons.mp hp with h | h
        · exact h
        · exact absurd ⟨p, h, rfl⟩ hlater
      rw [copyElements_outside fun r hr => element_disjoint (fun h => hlater ⟨r, hr, h.symm⟩) hb, hpq,
        copyBytes_inside hb]

/-! ## The elements in common -/

/-- **The places of the elements** that two arrays have in common, in the one and in the other. -/
def commonPlaces : List Nat → List Nat → Nat → Nat → List (Nat × Nat)
  | s :: ss, d :: ds, i, j => (List.range (min s d)).flatMap fun k => commonPlaces ss ds (i * s + k) (j * d + k)
  | _, _, i, j => [(i, j)]

theorem mem_commonPlaces {ss ds : List Nat} (hlength : ss.length = ds.length) {i j : Nat} {p : Nat × Nat} :
    p ∈ commonPlaces ss ds i j ↔
      ∃ g, Indices ss g ∧ Indices ds g ∧ p = (rowMajor i ss g, rowMajor j ds g) := by
  induction ss generalizing ds i j with
  | nil =>
    obtain rfl := List.length_eq_zero_iff.mp hlength.symm
    constructor
    · intro hp
      exact ⟨[], .nil, .nil, List.mem_singleton.mp hp⟩
    · rintro ⟨g, hg, -, rfl⟩
      cases hg
      exact List.mem_singleton.mpr rfl
  | cons s ss ih =>
    cases ds with
    | nil => cases hlength
    | cons d ds =>
      have hrest := @ih ds (Nat.succ.inj hlength)
      unfold commonPlaces
      rw [List.mem_flatMap]
      constructor
      · rintro ⟨k, hk, hp⟩
        obtain ⟨g, hs, hd, rfl⟩ := hrest.mp hp
        have hlt := List.mem_range.mp hk
        exact ⟨k :: g, .cons (by omega) hs, .cons (by omega) hd, rfl⟩
      · rintro ⟨g, hs, hd, rfl⟩
        cases hs with
        | @cons _ k _ g hk hs =>
          cases hd with
          | cons hk' hd => exact ⟨k, List.mem_range.mpr (by omega), hrest.mpr ⟨g, hs, hd, rfl⟩⟩

/-- **The common part is copied** to an array that has no byte in common with the first one. -/
theorem copyElements_common {ss ds : List Nat} (hlength : ss.length = ds.length)
    (hdisjoint : dest + ds.prod * size ≤ src ∨ src + ss.prod * size ≤ dest) {g : List Nat} (hg : Indices ds g) {b : Nat}
    (hb : b < size) :
    (Indices ss g → copyElements src dest size (commonPlaces ss ds 0 0) m (dest + rowMajor 0 ds g * size + b) =
        m (src + rowMajor 0 ss g * size + b)) ∧
      (¬ Indices ss g → copyElements src dest size (commonPlaces ss ds 0 0) m (dest + rowMajor 0 ds g * size + b) =
        m (dest + rowMajor 0 ds g * size + b)) := by
  -- an element lies in its array
  have hin : ∀ {sizes h : List Nat}, Indices sizes h → rowMajor 0 sizes h * size + size ≤ sizes.prod * size := by
    intro sizes h hh
    have hlt := rowMajor_lt hh Nat.zero_lt_one
    rw [Nat.one_mul] at hlt
    rw [← Nat.succ_mul]
    exact Nat.mul_le_mul_right _ hlt
  refine ⟨?_, ?_⟩
  · intro hs
    refine copyElements_inside ?_ ?_ ((mem_commonPlaces hlength).mpr ⟨g, hs, hg, rfl⟩) hb
    · intro p hp q hq heq
      obtain ⟨h, hs', hd', rfl⟩ := (mem_commonPlaces hlength).mp hp
      obtain ⟨h', hs'', hd'', rfl⟩ := (mem_commonPlaces hlength).mp hq
      rw [rowMajor_inj hd' hd'' heq]
    · intro p hp q hq c hc
      obtain ⟨h, hs', -, rfl⟩ := (mem_commonPlaces hlength).mp hp
      obtain ⟨h', -, hd'', rfl⟩ := (mem_commonPlaces hlength).mp hq
      have hsrc := hin hs'
      have hdest := hin hd''
      dsimp only
      omega
  · intro hs
    refine copyElements_outside ?_
    intro p hp
    obtain ⟨h, hs', hd', rfl⟩ := (mem_commonPlaces hlength).mp hp
    refine element_disjoint ?_ hb
    intro heq
    rw [rowMajor_inj hg hd' heq] at hs
    exact hs hs'

end Trick.Lib
